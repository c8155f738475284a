/-
  simplefs — the in-memory inodes, and the invariant of the whole state.

  An in-memory inode is `Bound` to a live slot (its private copy equals the slot)
  or `Stale`: its file was unlinked while it was in use, and it keeps the number
  and block the slot had.  `FsInv` adds to the store invariant that every
  in-memory inode is one or the other, that a live slot has one in-memory inode at
  most, and that the dentry cache agrees with the directory records.
-/
import KernelLinux.Simplefs.Change

namespace Simplefs

open Bytes

/-- `v` is the in-memory inode of the live slot `k`. -/
structure Bound (g : Image) (v : Inode) (k : ℕ) : Prop where
  live : g.Live k
  priv : v.priv = some (g.store k)
  ino : v.iIno = (g.store k).inodeNo
  isDir : S_ISDIR v.iMode = S_ISDIR (g.store k).mode
  isReg : S_ISREG v.iMode = S_ISREG (g.store k).mode

/-- `v` is an in-memory inode kept past the unlink of its file, which had slot `k`. -/
structure Stale (g : Image) (v : Inode) (k : ℕ) : Prop where
  lt : k < g.sb.inodesCount
  priv : ∃ z : SimplefsInode, v.priv = some z ∧ z.inodeNo = 0 ∧
    z.deadInodeNo = (g.store k).number ∧ z.dataBlockNumber = (g.store k).dataBlockNumber
  isReg : S_ISREG v.iMode = true

/-- The inode at address `p` is that of the live slot `k`. -/
def Fs.At (s : Fs) (p k : ℕ) : Prop := ∃ v, s.inodes p = some v ∧ Bound s.toImage v k

/-- The invariant of simplefs. -/
structure FsInv [Target] (s : Fs) : Prop extends StoreInv s.toImage where
  root_at : s.At rootAddr 0
  inode : ∀ p v, s.inodes p = some v → ∃ k, Bound s.toImage v k ∨ Stale s.toImage v k
  at_inj : ∀ p q k, s.At p k → s.At q k → p = q
  /-- a dentry agrees with a record -/
  dentry : ∀ d x p, s.dcache d x = some p → ∃ e r k, s.At d e ∧ s.At p k ∧
    s.Entry e r k ∧ recIs (s.block e) r x = true
  /-- every in-memory inode of a live slot was bound to a name -/
  hashed : ∀ p k, s.At p k → p ≠ rootAddr → ∃ d x, s.dcache d x = some p

theorem Bound.not_stale {g : Image} {v : Inode} {k j : ℕ} (h : Bound g v k) : ¬ Stale g v j := by
  rintro ⟨-, ⟨z, hz, h0, -⟩, -⟩
  have := Option.some.inj (h.priv.symm.trans hz)
  exact h.live.2 (this ▸ h0)

namespace Fs
variable {s : Fs}

/-- The private copy of a live slot's inode is the slot. -/
theorem At.sfs {p k : ℕ} (h : s.At p k) : s.sfs p = s.store k := by
  obtain ⟨v, hv, hb⟩ := h
  simp [Fs.sfs, hv, hb.priv]

theorem At.live {p k : ℕ} (h : s.At p k) : s.Live k := h.choose_spec.2.live

theorem At.bound {p k : ℕ} {v : Inode} (h : s.At p k) (hv : s.inodes p = some v) :
    Bound s.toImage v k := by
  obtain ⟨w, hw, hb⟩ := h
  obtain rfl := Option.some.inj (hw.symm.trans hv)
  exact hb

end Fs

/-- An inode is that of one slot at most. -/
theorem StoreInv.at_fun [Target] {s : Fs} (H : StoreInv s.toImage) {p j k : ℕ} (hj : s.At p j)
    (hk : s.At p k) : j = k :=
  H.live_inj hj.live hk.live (by rw [← hj.sfs, hk.sfs])

/-- A transition of the image that keeps the slots of an inode's kind keeps its binding. -/
theorem Bound.congr {g g' : Image} {v : Inode} {k : ℕ} (h : Bound g v k) (hl : g'.Live k)
    (hs : g'.store k = g.store k) : Bound g' v k :=
  ⟨hl, by rw [hs]; exact h.priv, by rw [hs]; exact h.ino, by rw [hs]; exact h.isDir,
    by rw [hs]; exact h.isReg⟩

/-- The same private copy, updated with the slot, stays bound. -/
theorem Bound.update {g g' : Image} {v : Inode} {k : ℕ} (h : Bound g v k) (hl : g'.Live k)
    (hi : (g'.store k).inodeNo = (g.store k).inodeNo) (hm : (g'.store k).mode = (g.store k).mode) :
    Bound g' { v with priv := some (g'.store k) } k :=
  ⟨hl, rfl, h.ino.trans hi.symm, by rw [hm]; exact h.isDir, by rw [hm]; exact h.isReg⟩

theorem Stale.congr {g g' : Image} {v : Inode} {k : ℕ} (h : Stale g v k)
    (hc : k < g'.sb.inodesCount) (hn : (g'.store k).number = (g.store k).number)
    (hb : (g'.store k).dataBlockNumber = (g.store k).dataBlockNumber) : Stale g' v k :=
  ⟨hc, by rw [hn, hb]; exact h.priv, h.isReg⟩

end Simplefs
