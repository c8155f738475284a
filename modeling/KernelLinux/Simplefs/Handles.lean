/-
  simplefs — writes through handles of unlinked files.

  `simplefs_unlink` leaves the slot and the block of a file to the next create,
  while the inode of an open handle keeps the block number and the old inode
  number.  A write through any handle is `Isolated` (it changes no other live file
  or directory) as long as no live file has taken over the old number
  (`Op.Clear`); once one has, a write that succeeds destroys its slot
  (`write_isolated`, `writeA_not_isolated`).
-/
import KernelLinux.Simplefs.Reach

namespace Simplefs

open Bytes Prog

/-- A write through the inode at `p` left every other live file and directory as it was. -/
structure Isolated (s s' : Fs) (p : ℕ) : Prop where
  sb : s'.sb = s.sb
  store : ∀ j, s.Live j → ¬ s.At p j → s'.store j = s.store j
  data : ∀ j, s.Live j → ¬ s.At p j →
    s'.data (s.store j).dataBlockNumber = s.data (s.store j).dataBlockNumber
  inodes : ∀ q, q ≠ p → s'.inodes q = s.inodes q
  dcache : s'.dcache = s.dcache

theorem Isolated.refl (s : Fs) (p : ℕ) : Isolated s s p :=
  ⟨rfl, fun _ _ _ => rfl, fun _ _ _ => rfl, fun _ _ => rfl, rfl⟩

section
variable [Target] {s s' : Fs} {p k pos n : ℕ} {bs : List UInt8}

theorem Wrote.isolated (W : Wrote s s' p k pos bs n) (H : FsInv s) : Isolated s s' p := by
  have hne : ∀ j, ¬ s.At p j → j ≠ k := fun j hj h => hj (h ▸ W.at_file)
  refine ⟨W.sb, fun j _ hj => W.store_ne (hne j hj), fun j hl hj => ?_, fun q => W.inodes_ne,
    W.dcache⟩
  rw [W.data, Function.update_of_ne]
  exact fun h => hne j hj (H.block_inj j hl.1 k W.at_file.live.1 h)

theorem WroteStale.isolated (W : WroteStale s s' p k pos bs n) (H : FsInv s) : Isolated s s' p := by
  refine ⟨W.sb, fun j hl _ => W.store j hl.1, fun j hl _ => ?_, fun q => W.inodes_ne, W.dcache⟩
  rw [W.data, Function.update_of_ne]
  exact fun h => W.dead (H.block_inj j hl.1 k W.lt h ▸ hl)

/-- A write that succeeds through the inode of an unlinked file whose number a live slot has
    kills that slot. -/
theorem FsInv.write_kills (H : FsInv s) (pos : ℕ) {len : ℕ} {user : List UInt8} (hl : len ≤ user.length)
    (h0 : (s.sfs p).inodeNo = 0) (hk : s.Live k)
    (hd : (s.store k).inodeNo = (s.sfs p).deadInodeNo) :
    (((write (.ok (pos, len)) p user).exec s).2.store k).inodeNo = 0 := by
  set t := s.setBlock (s.sfs p).dataBlockNumber fun b => b.write pos (copyFromUser user len) with ht
  set u := t.setSfs p fun z => { z with size := pos + len } with hu
  have hz : (u.sfs p).inodeNo = 0 ∧ (u.sfs p).number = (s.store k).inodeNo := by
    have hv : s.inodes p ≠ none := by
      intro hv
      rw [Fs.sfs, hv] at hd
      exact hk.2 hd
    obtain ⟨v, hv⟩ := Option.ne_none_iff_exists'.1 hv
    cases hz : v.priv with
    | none =>
      rw [Fs.sfs, hv, Option.bind_some, hz] at hd
      exact absurd hd hk.2
    | some z =>
      have hsz : s.sfs p = z := Fs.sfs_eq hv hz
      rw [hsz] at h0 hd
      have hsfs : u.sfs p = { z with size := pos + len } :=
        Fs.setSfs_sfs _ (v := v) (by rw [ht, Fs.setBlock_inodes, hv]) hz
      rw [hsfs]
      exact ⟨h0, (SimplefsInode.number_dead h0).trans hd.symm⟩
  have hsearch : inodeSearch u.toImage (u.sfs p) = some k := by
    have : inodeSearch s.toImage (u.sfs p) = some k := H.search_live hk hz.2
    exact this
  have hexec : ((write (.ok (pos, len)) p user).exec s).2 = saveSlot p u := by
    rw [exec_write]
    simp only [← ht, ← hu, if_neg (not_lt.2 hl)]
  rw [hexec, saveSlot, hsearch]
  show (Function.update u.store k (u.sfs p) k).inodeNo = 0
  rw [Function.update_self]
  exact hz.1

end

/-! ## Runs -/

/-- A call the VFS makes; a write may go through the handle of an unlinked file. -/
structure Op.HandleStep [Target] (s : Fs) (l : Op × Outcome) (s' : Fs) : Prop where
  allowed : l.1.Allowed s
  exec : l.1.exec s = (l.2, s')

/-- No live file has the number of an unlinked file whose handle is written through. -/
structure Op.ClearStep [Target] (s : Fs) (l : Op × Outcome) (s' : Fs) : Prop
    extends Op.HandleStep s l s' where
  clear : l.1.Clear s

theorem Op.ClearStep.does [Target] {s s' : Fs} {l : Op × Outcome} (h : Op.ClearStep s l s')
    (H : FsInv s) : l.1.Does s l.2 s' := by
  have := Op.does H h.allowed h.clear
  rwa [h.exec] at this

theorem clear_inv [Target] {dev : Image} {junk : ℕ} {s₀ s : Fs} {ls : List (Op × Outcome)}
    (h₀ : fillSuper (mkfs dev junk) = .ok s₀) (h : Run Op.ClearStep s₀ ls s) : FsInv s :=
  Run.inv (fun _ _ _ H hs => (hs.does H).inv H) ((mkfs_mounted h₀).inv mkfs_inv) h

/-- **Writes are isolated** in runs that never write through the handle of an unlinked file whose
    number is live again; there, a write that succeeds is not. -/
theorem write_isolated [Target] {dev : Image} {junk : ℕ} {s₀ s : Fs} {ls : List (Op × Outcome)}
    (h₀ : fillSuper (mkfs dev junk) = .ok s₀) (h : Run Op.ClearStep s₀ ls s)
    {wc : Except Errno (ℕ × ℕ)} {p : ℕ} {user : List UInt8} {r : Except Errno ℕ} {s' : Fs}
    (hw : Op.HandleStep s (.write wc p user, .wrote r) s') :
    ((Op.write wc p user).Clear s → Isolated s s' p) ∧
      (r.isOk = true → Isolated s s' p → (Op.write wc p user).Clear s) := by
  have H := clear_inv h₀ h
  constructor
  · intro hc
    have hd : (Op.write wc p user).Does s (.wrote r) s' := Op.ClearStep.does ⟨hw, hc⟩ H
    cases hd with
    | writeFail => exact Isolated.refl s p
    | write W => exact W.isolated H
    | writeStale W => exact W.isolated H
  · intro hr hi
    obtain e | ⟨pos, len⟩ := wc
    · trivial
    intro h0 k hk hd
    have hex : (write (.ok (pos, len)) p user).exec s = (r, s') := by
      have := hw.exec
      simp only [Op.exec, Prod.mk.injEq, Outcome.wrote.injEq] at this
      exact Prod.ext this.1 this.2
    have hlen : len ≤ user.length := by
      by_contra hlt
      rw [exec_write] at hex
      simp only [if_pos (not_le.1 hlt), Prod.mk.injEq] at hex
      rw [← hex.1] at hr
      simp [Except.isOk, Except.toBool] at hr
    have hat : ¬ s.At p k := by
      intro hat
      rw [hat.sfs] at h0
      exact hat.live.2 h0
    have hkill := H.write_kills pos hlen h0 hk hd
    rw [hex, hi.store k hk hat] at hkill
    exact hk.2 hkill

/-! ## Two runs -/

section

attribute [local instance] x86

/-- `"b"` -/
def nameB : Name := ⟨[98], by decide, by decide, by decide⟩

def unlinkA : Op := .unlink rootAddr nameA

def createB : Op := .create (some ⟨2, default⟩) rootAddr nameB S_IFREG

/-- The states after `unlinkA`, then `createB`. -/
def unlinkedA : Fs := (unlinkA.exec createdA).2
def createdB : Fs := (createB.exec unlinkedA).2

theorem unlinkA_step : Op.HandleStep createdA (unlinkA, .done (.ok ())) unlinkedA :=
  ⟨⟨1, by decide, by decide⟩, Prod.ext rfl rfl⟩

/-- A write through the handle of a file that was unlinked, before its slot is used again. -/
theorem writeA_isolated : (unlinkedA.sfs 1).inodeNo = 0 ∧ Isolated unlinkedA (writeA.exec unlinkedA).2 1 := by
  refine ⟨by decide, (write_isolated blankFs_mount
    (.snoc (.single ⟨⟨createA_step.allowed, rfl⟩, trivial⟩) ⟨unlinkA_step, trivial⟩)
    ⟨show unlinkedA.isReg 1 = true by decide, Prod.ext rfl rfl⟩).1 fun _ k hk => ?_⟩
  have hcount : ∀ k < unlinkedA.sb.inodesCount, (unlinkedA.store k).inodeNo ≠ (unlinkedA.sfs 1).deadInodeNo := by
    decide
  exact hcount k hk.1

/-- The number of the unlinked file is given to the next one, and a write through the old handle
    destroys the slot of the new file. -/
theorem writeA_not_isolated : ∃ s, Op.HandleStep blankFs (createA, .done (.ok ())) createdA ∧
    Op.HandleStep createdA (unlinkA, .done (.ok ())) unlinkedA ∧
    Op.HandleStep unlinkedA (createB, .done (.ok ())) createdB ∧
    Op.HandleStep createdB (writeA, .wrote (.ok 1)) s ∧ ¬ Isolated createdB s 1 := by
  refine ⟨(writeA.exec createdB).2, ⟨createA_step.allowed, Prod.ext rfl rfl⟩,
    unlinkA_step, ⟨⟨⟨?_, ?_, ?_, ?_, fun a ha => ?_⟩, rfl⟩, Prod.ext rfl rfl⟩,
    ⟨?_, Prod.ext rfl rfl⟩, fun hi => ?_⟩
  · show unlinkedA.isDir rootAddr = true
    decide
  · decide
  · show unlinkedA.dcache rootAddr nameB = none
    decide
  · unfold Fs.Has
    decide
  · obtain rfl := Option.some.inj ha
    rfl
  · show createdB.isReg 1 = true
    decide
  · have hlive : createdB.Live 2 := ⟨by decide, by decide⟩
    have hat : ¬ createdB.At 1 2 := fun h => by
      have := congrArg SimplefsInode.inodeNo h.sfs
      exact absurd this (by decide)
    have := congrArg SimplefsInode.inodeNo (hi.store 2 hlive hat)
    exact absurd this (by decide)

end

end Simplefs
