/-
  simplefs — where the bytes come from that a read returns.

  Next to the state, a run keeps for every in-memory inode the writes made
  through it since its file was created (`Prov.log`), and whether the number of
  its file was given to a new object (`Prov.lost`).  `Prov.Ok`: up to its size,
  a file whose number was not given away holds what was written to it.

  The block of a new file is not cleared, so this needs of every write past the
  end of a file that the bytes it skips are zero or the file's own (`GapClean`),
  and of every write that its inode is not lost.
-/
import KernelLinux.Lib.WriteLog
import KernelLinux.Simplefs.Vfs

namespace Simplefs

open Bytes Prog

/-! ## The slot of an inode -/

/-- The inode at `p` belongs to slot `k`, as that of its file or of an unlinked one. -/
def Fs.Of (s : Fs) (p k : ℕ) : Prop :=
  ∃ w, s.inodes p = some w ∧ (Bound s.toImage w k ∨ Stale s.toImage w k)

namespace Fs
variable {s : Fs} {p k : ℕ}

theorem At.of (h : s.At p k) : s.Of p k := by
  obtain ⟨w, hw, hb⟩ := h
  exact ⟨w, hw, Or.inl hb⟩

theorem Of.isSome (h : s.Of p k) : (s.inodes p).isSome = true := by
  obtain ⟨w, hw, -⟩ := h
  rw [hw]
  rfl

theorem Of.lt (h : s.Of p k) : k < s.sb.inodesCount := by
  obtain ⟨w, -, hb | hs⟩ := h
  · exact hb.live.1
  · exact hs.lt

theorem Of.number (h : s.Of p k) : (s.sfs p).number = (s.store k).number := by
  obtain ⟨w, hw, hb | hs⟩ := h
  · rw [sfs_eq hw hb.priv]
  · obtain ⟨z, hz, h0, hd, -⟩ := hs.priv
    rw [sfs_eq hw hz, SimplefsInode.number_dead h0, hd]

theorem Of.block (h : s.Of p k) : (s.sfs p).dataBlockNumber = (s.store k).dataBlockNumber := by
  obtain ⟨w, hw, hb | hs⟩ := h
  · rw [sfs_eq hw hb.priv]
  · obtain ⟨z, hz, -, -, hb⟩ := hs.priv
    rw [sfs_eq hw hz, hb]

end Fs

section
variable [Target] {s s' : Fs}

theorem StoreInv.of_fun (H : StoreInv s.toImage) {p j k : ℕ} (hj : s.Of p j) (hk : s.Of p k) :
    j = k :=
  H.number_inj j hj.lt k hk.lt (hj.number.symm.trans hk.number)

theorem FsInv.of_inode (H : FsInv s) {p : ℕ} {w : Inode} (h : s.inodes p = some w) :
    ∃ k, s.Of p k := by
  obtain ⟨k, hk⟩ := H.inode p w h
  exact ⟨k, w, h, hk⟩

/-- A transition under which inodes keep their slots gives no inode another slot. -/
theorem FsInv.of_back (H : FsInv s) (H' : FsInv s') (hfwd : ∀ q j, s.Of q j → s'.Of q j) {q j : ℕ}
    (h : s'.Of q j) (hq : (s.inodes q).isSome = true) : s.Of q j := by
  obtain ⟨w, hw⟩ := Option.isSome_iff_exists.1 hq
  obtain ⟨i, hi⟩ := H.of_inode hw
  rwa [H'.of_fun h (hfwd q i hi)]

/-- A transition under which every inode stays bound, or stale, for its slot. -/
structure Steady (s s' : Fs) : Prop where
  at_mono : ∀ q j, s.At q j → s'.At q j
  stale_mono : ∀ q w j, s.inodes q = some w → Stale s.toImage w j →
    ∃ w', s'.inodes q = some w' ∧ Stale s'.toImage w' j

omit [Target] in
theorem Steady.of_mono (S : Steady s s') (q j : ℕ) (h : s.Of q j) : s'.Of q j := by
  obtain ⟨w, hw, hb | hs⟩ := h
  · exact (S.at_mono q j ⟨w, hw, hb⟩).of
  · obtain ⟨w', hw', hs'⟩ := S.stale_mono q w j hw hs
    exact ⟨w', hw', Or.inr hs'⟩

theorem Steady.at_iff (S : Steady s s') (H : FsInv s) (H' : FsInv s') {q : ℕ}
    (hq : (s.inodes q).isSome = true) (j : ℕ) : s'.At q j ↔ s.At q j := by
  refine ⟨fun h => ?_, S.at_mono q j⟩
  obtain ⟨w, hw, hb | hs⟩ := H.of_back H' S.of_mono h.of hq
  · exact ⟨w, hw, hb⟩
  · obtain ⟨w', hw', hs'⟩ := S.stale_mono q w j hw hs
    exact absurd hs' (h.bound hw').not_stale

theorem Created.steady {a : NewInode} {dir d k r : ℕ} {x : Name} {z : SimplefsInode}
    (C : Created s s' a dir d k r x z) (H : FsInv s) : Steady s s' := by
  refine ⟨fun q j => C.at_mono H, fun q w j hw hs => ⟨w, ?_, C.stale_mono hs⟩⟩
  have hd : q ≠ dir := by
    rintro rfl
    exact (C.at_dir.bound hw).not_stale hs
  have ha : q ≠ a.addr := by
    rintro rfl
    rw [C.fresh] at hw
    simp at hw
  rw [C.inodes_ne hd ha, hw]

theorem Wrote.steady {p k pos n : ℕ} {bs : List UInt8} (W : Wrote s s' p k pos bs n) (H : FsInv s) :
    Steady s s' := by
  refine ⟨fun q j => W.at_mono H, fun q w j hw hs => ⟨w, ?_, W.stale_mono H hs⟩⟩
  have hq : q ≠ p := by
    rintro rfl
    exact (W.at_file.bound hw).not_stale hs
  rw [W.inodes_ne hq, hw]

theorem WroteStale.steady {p k pos n : ℕ} {bs : List UInt8} (W : WroteStale s s' p k pos bs n)
    (H : FsInv s) : Steady s s' := by
  refine ⟨fun q j => W.at_mono H, fun q w j hw hs => ?_⟩
  by_cases hq : q = p
  · subst hq
    obtain ⟨u, hu, hus⟩ := W.stale
    rw [H.of_fun ⟨w, hw, Or.inr hs⟩ ⟨u, hu, Or.inr hus⟩]
    have hw' : s'.inodes q = some { w with priv := w.priv.map fun z => { z with size := n } } := by
      rw [W.inodes, Function.update_self, hw, Option.map_some]
    exact ⟨_, hw', W.stale_new H hw'⟩
  · exact ⟨w, by rw [W.inodes_ne hq, hw], W.stale_mono H hs⟩

theorem Unlinked.of_mono {dir p d k r : ℕ} {x : Name} (U : Unlinked s s' dir p d k r x)
    (H : FsInv s) (q j : ℕ) (h : s.Of q j) : s'.Of q j := by
  obtain ⟨w, hw, hb | hs⟩ := h
  · by_cases hq : q = p
    · subst hq
      obtain rfl := H.at_fun ⟨w, hw, hb⟩ U.at_file
      have hw' : ∃ w', s'.inodes q = some w' := by
        rw [U.inodes, Function.update_self, hw]
        exact ⟨_, rfl⟩
      obtain ⟨w', hw'⟩ := hw'
      exact ⟨w', hw', Or.inr (U.stale_new hw')⟩
    · have hj : j ≠ k := by
        rintro rfl
        exact hq (H.at_inj q p j ⟨w, hw, hb⟩ U.at_file)
      exact (U.at_mono ⟨w, hw, hb⟩ hj hq).of
  · have hq : q ≠ p := by
      rintro rfl
      exact (U.at_file.bound hw).not_stale hs
    exact ⟨w, by rw [U.inodes_ne hq, hw], Or.inr (U.stale_mono hs)⟩

end

/-! ## Provenance -/

/-- The size simplefs gives a file to which the writes `l` were made. -/
def textSize : List Write → ℕ
  | [] => 0
  | w :: l => if w.user.length < w.len then textSize l else w.pos + w.len

/-- For the inode at an address: the writes made through it since its file was created, if that
    was during the run; and whether the number of its file was given to a new object since. -/
structure Prov where
  log : ℕ → Option (List Write)
  lost : ℕ → Bool

namespace Prov

def start : Prov := ⟨fun _ => none, fun _ => false⟩

/-- A new object has its inode at `p`. -/
def born (v : Prov) (s s' : Fs) (p : ℕ) (l : Option (List Write)) : Prov where
  log := Function.update v.log p l
  lost q := if q = p then false
    else v.lost q || (s.inodes q).isSome && (s.sfs q).number == (s'.sfs p).number

/-- The inode at `p` is another one. -/
def forget (v : Prov) (p : ℕ) : Prov := ⟨Function.update v.log p none, Function.update v.lost p false⟩

def wrote (v : Prov) (p : ℕ) (w : Write) : Prov :=
  { v with log := Function.update v.log p ((v.log p).map (w :: ·)) }

/-- The provenance after a call that took the state from `s` to `s'`. -/
def after (v : Prov) (s s' : Fs) : Op → Outcome → Prov
  | .create (some a) _ _ _, .done (.ok _) => v.born s s' a.addr (some [])
  | .mkdir (some a) _ _ _, .done (.ok _) => v.born s s' a.addr none
  | .write (.ok (pos, len)) p user, _ => v.wrote p ⟨pos, len, user⟩
  | .lookup _ _ p, .looked (.bound _) => v.forget p
  | .evict p, _ => v.forget p
  | .remount, _ => start
  | _, _ => v

end Prov

/-- The file of the inode at `p` holds what the writes `l` leave. -/
structure Own (s : Fs) (p : ℕ) (l : List Write) : Prop where
  isReg : s.isReg p = true
  size : (s.sfs p).size = textSize l
  bytes : ∀ i < textSize l, s.data (s.sfs p).dataBlockNumber i = content l i

structure Prov.Ok [Target] (v : Prov) (s : Fs) : Prop extends FsInv s where
  at_kept : ∀ p k, s.At p k → v.lost p = false
  live_at : ∀ p k, s.Of p k → v.lost p = false → s.Live k → s.At p k
  inj : ∀ p q k, s.Of p k → s.Of q k → v.lost p = false → v.lost q = false → p = q
  present : ∀ p l, v.log p = some l → (s.inodes p).isSome = true
  own : ∀ p l, v.log p = some l → v.lost p = false → Own s p l

section
variable [Target] {s s' : Fs} {v v' : Prov}

omit [Target] in
theorem Own.congr {p : ℕ} {l : List Write} (h : Own s p l) (hp : s'.inodes p = s.inodes p)
    (hb : s'.data (s.sfs p).dataBlockNumber = s.data (s.sfs p).dataBlockNumber) : Own s' p l := by
  have hsfs : s'.sfs p = s.sfs p := by rw [Fs.sfs, hp, Fs.sfs]
  refine ⟨by rw [Fs.isReg, hp]; exact h.isReg, by rw [hsfs]; exact h.size, fun i hi => ?_⟩
  rw [hsfs, hb]
  exact h.bytes i hi

/-- A transition that adds no inode and no object. -/
theorem Prov.Ok.next (O : v.Ok s) (H' : FsInv s') (hfwd : ∀ q j, s.Of q j → s'.Of q j)
    (hdom : ∀ q, (s'.inodes q).isSome = (s.inodes q).isSome)
    (hlive : ∀ j, s'.Live j → s.Live j)
    (hat : ∀ q j, (s.inodes q).isSome = true → (s'.At q j ↔ s.At q j ∧ s'.Live j))
    (hlost : v'.lost = v.lost) (hpres : ∀ p, (v'.log p).isSome = (v.log p).isSome)
    (hown : ∀ p l, v'.log p = some l → v.lost p = false → Own s' p l) : v'.Ok s' where
  toFsInv := H'
  at_kept p k h := by
    rw [hlost]
    exact O.at_kept p k ((hat p k (hdom p ▸ h.of.isSome)).1 h).1
  live_at p k h hp hk := by
    rw [hlost] at hp
    have hof := O.of_back H' hfwd h (hdom p ▸ h.isSome)
    exact (hat p k hof.isSome).2 ⟨O.live_at p k hof hp (hlive k hk), hk⟩
  inj p q k hp hq h h' := by
    rw [hlost] at h h'
    exact O.inj p q k (O.of_back H' hfwd hp (hdom p ▸ hp.isSome))
      (O.of_back H' hfwd hq (hdom q ▸ hq.isSome)) h h'
  present p l h := by
    have : (v.log p).isSome = true := by rw [← hpres, h]; rfl
    obtain ⟨l', hl'⟩ := Option.isSome_iff_exists.1 this
    rw [hdom]
    exact O.present p l' hl'
  own p l h hp := hown p l h (hlost ▸ hp)

omit [Target] in
theorem isSome_update {α β : Type} [DecidableEq α] {f : α → Option β} {p : α} {g : β → β} (q : α) :
    (Function.update f p ((f p).map g) q).isSome = (f q).isSome := by
  by_cases hq : q = p
  · subst hq
    rw [Function.update_self, Option.isSome_map]
  · rw [Function.update_of_ne hq]

/-- The block of a file is not that of a directory. -/
theorem Prov.Ok.block_ne (O : v.Ok s) {q j d : ℕ} {l : List Write} (own : Own s q l) (hj : s.Of q j)
    (hq : v.lost q = false) (hd : s.LiveDir d) :
    (s.store j).dataBlockNumber ≠ (s.store d).dataBlockNumber := by
  obtain ⟨w, hw, hreg⟩ := (Option.any_eq_true _ _).1 own.isReg
  intro he
  obtain rfl := O.block_inj j hj.lt d hd.1.1 he
  have hdir := hd.2
  rw [← ((O.live_at q j hj hq hd.1).bound hw).isDir, not_dir_of_reg hreg] at hdir
  simp at hdir

theorem Prov.Ok.unlinked (O : v.Ok s) {dir p d k r : ℕ} {x : Name}
    (U : Unlinked s s' dir p d k r x) : v.Ok s' := by
  have H' := U.inv O.toFsInv
  have hdom : ∀ q, (s'.inodes q).isSome = (s.inodes q).isSome := by
    intro q
    rw [U.inodes]
    exact isSome_update q
  refine O.next H' (fun q j => U.of_mono O.toFsInv q j) hdom (fun j h => (U.removed.live_iff.1 h).1)
    (fun q j _ => ?_) rfl (fun _ => rfl) fun q l hl hq => ?_
  · rw [U.at_iff O.toFsInv, U.removed.live_iff]
    exact ⟨fun h => ⟨h.1, h.1.live, h.2⟩, fun h => ⟨h.1, h.2.2⟩⟩
  have own := O.own q l hl hq
  obtain ⟨w, hw, hreg⟩ := (Option.any_eq_true _ _).1 own.isReg
  obtain ⟨j, hj⟩ := O.of_inode hw
  have hblock : s'.data (s.store j).dataBlockNumber = s.data (s.store j).dataBlockNumber :=
    U.removed.data _ (O.block_ne own hj hq U.removed.entry.dir)
  by_cases hqp : q = p
  · subst hqp
    obtain rfl := O.of_fun hj U.at_file.of
    have hw' : s'.inodes q = some { w with priv := some (s'.store j) } := by
      rw [U.inodes, Function.update_self, hw]
      rfl
    have hsfs : s'.sfs q = s'.store j := Fs.sfs_eq hw' rfl
    refine ⟨by rw [Fs.isReg, hw']; exact hreg, ?_, fun i hi => ?_⟩
    · rw [hsfs, (U.removed.store_all j).2.2.2, ← U.at_file.sfs]
      exact own.size
    · rw [hsfs, (U.removed.store_all j).2.1, hblock, ← U.at_file.sfs]
      exact own.bytes i hi
  · refine own.congr (U.inodes_ne hqp) ?_
    rw [hj.block]
    exact hblock

omit [Target] in
/-- What a write through the inode at `p` does to the file there. -/
theorem Own.write {p : ℕ} {l : List Write} {w : Write} (h : Own s p l) (hreg : s'.isReg p = true)
    (hsize : (s'.sfs p).size = textSize (w :: l))
    (hblk : (s'.sfs p).dataBlockNumber = (s.sfs p).dataBlockNumber)
    (hdata : s'.data (s.sfs p).dataBlockNumber = (s.data (s.sfs p).dataBlockNumber).write w.pos w.bytes)
    (hgap : w.len ≤ w.user.length → ∀ i, textSize l ≤ i → i < w.pos →
      s.data (s.sfs p).dataBlockNumber i = content l i) : Own s' p (w :: l) := by
  refine ⟨hreg, hsize, fun i hi => ?_⟩
  rw [hblk, hdata]
  refine write_agree fun hout => ?_
  rw [textSize] at hi
  split_ifs at hi with hlt
  · exact h.bytes i hi
  · by_cases hil : i < textSize l
    · exact h.bytes i hil
    · exact hgap (not_lt.1 hlt) i (not_lt.1 hil) (by omega)

/-- The bytes a write skips past the end of the file are the file's own, or zero. -/
def GapClean (v : Prov) (s : Fs) (p : ℕ) (w : Write) : Prop :=
  ∀ l, v.log p = some l → w.len ≤ w.user.length → ∀ i, textSize l ≤ i → i < w.pos →
    s.data (s.sfs p).dataBlockNumber i = content l i

omit [Target] in
theorem wrote_isSome (v : Prov) (p : ℕ) (w : Write) (q : ℕ) :
    ((v.wrote p w).log q).isSome = (v.log q).isSome := isSome_update q

/-- The files of other inodes are left alone by a transition that writes to the block of slot `k`
    and changes the inode at `p` only. -/
theorem Prov.Ok.own_wrote (O : v.Ok s) {p k : ℕ} {w : Write} (hp : s.Of p k)
    (hlost : v.lost p = false) (hinodes : ∀ q, q ≠ p → s'.inodes q = s.inodes q)
    (hdata : s'.data = Function.update s.data (s.store k).dataBlockNumber ((s.block k).write w.pos w.bytes))
    (hself : ∀ l, v.log p = some l → Own s p l → Own s' p (w :: l)) (q : ℕ) (l : List Write)
    (hl : (v.wrote p w).log q = some l) (hq : v.lost q = false) : Own s' q l := by
  by_cases hqp : q = p
  · subst hqp
    have hlog : (v.log q).map (w :: ·) = some l := by
      rw [← hl]
      exact (Function.update_self (f := v.log) _ _).symm
    obtain ⟨l₀, hl₀, rfl⟩ := Option.map_eq_some_iff.1 hlog
    exact hself l₀ hl₀ (O.own q l₀ hl₀ hlost)
  · have own := O.own q l (by rw [← hl]; exact (Function.update_of_ne hqp _ _).symm) hq
    obtain ⟨u, hu, -⟩ := (Option.any_eq_true _ _).1 own.isReg
    obtain ⟨j, hj⟩ := O.of_inode hu
    refine own.congr (hinodes q hqp) ?_
    rw [hj.block, hdata, Function.update_of_ne]
    intro h
    obtain rfl := O.block_inj j hj.lt k hp.lt h
    exact hqp (O.inj q p j hj hp hq hlost)

theorem Prov.Ok.wrote (O : v.Ok s) {p k : ℕ} {w : Write}
    (W : Wrote s s' p k w.pos w.bytes
      (if w.user.length < w.len then (s.store k).size else w.pos + w.len))
    (hgap : GapClean v s p w) : (v.wrote p w).Ok s' := by
  have H' := W.inv O.toFsInv
  have hdom : ∀ q, (s'.inodes q).isSome = (s.inodes q).isSome := by
    intro q
    rw [W.inodes]
    exact isSome_update q
  have hat := W.at_mono O.toFsInv W.at_file
  refine O.next H' (W.steady O.toFsInv).of_mono hdom (fun j h => (W.saved O.toFsInv).live_iff.1 h)
    (fun q j hq => ?_) rfl (wrote_isSome v p w)
    (O.own_wrote W.at_file.of (O.at_kept p k W.at_file) (fun q hq => W.inodes_ne hq) W.data
      fun l hl own => ?_)
  · rw [(W.steady O.toFsInv).at_iff O.toFsInv H' hq]
    exact ⟨fun h => ⟨h, (W.at_mono O.toFsInv h).live⟩, fun h => h.1⟩
  · obtain ⟨u, hu, hreg⟩ := (Option.any_eq_true _ _).1 own.isReg
    refine own.write ?_ ?_ ?_ ?_ (hgap l hl)
    · rw [Fs.isReg, W.inodes, Function.update_self, hu]
      exact hreg
    · rw [hat.sfs, W.store_k, textSize, ← own.size, W.at_file.sfs]
    · rw [hat.sfs, W.store_k, W.at_file.sfs]
    · rw [W.at_file.sfs, W.data, Function.update_self]
      rfl

theorem Prov.Ok.wroteStale (O : v.Ok s) {p k : ℕ} {w : Write}
    (W : WroteStale s s' p k w.pos w.bytes
      (if w.user.length < w.len then (s.sfs p).size else w.pos + w.len))
    (hlost : v.lost p = false) (hgap : GapClean v s p w) : (v.wrote p w).Ok s' := by
  have H' := W.inv O.toFsInv
  have hdom : ∀ q, (s'.inodes q).isSome = (s.inodes q).isSome := by
    intro q
    rw [W.inodes]
    exact isSome_update q
  obtain ⟨u, hu, hs⟩ := W.stale
  have hp : s.Of p k := ⟨u, hu, Or.inr hs⟩
  refine O.next H' (W.steady O.toFsInv).of_mono hdom (fun j h => (W.saved O.toFsInv).live_iff.1 h)
    (fun q j hq => ?_) rfl (wrote_isSome v p w)
    (O.own_wrote hp hlost (fun q hq => W.inodes_ne hq) W.data fun l hl own => ?_)
  · rw [(W.steady O.toFsInv).at_iff O.toFsInv H' hq]
    exact ⟨fun h => ⟨h, (W.at_mono O.toFsInv h).live⟩, fun h => h.1⟩
  · obtain ⟨y, hy, -⟩ := hs.priv
    have hu' : s'.inodes p = some { u with priv := some { y with
        size := if w.user.length < w.len then (s.sfs p).size else w.pos + w.len } } := by
      rw [W.inodes, Function.update_self, hu, Option.map_some, hy, Option.map_some]
    have hsfs := Fs.sfs_eq hu hy
    have hsfs' := Fs.sfs_eq hu' rfl
    refine own.write ?_ ?_ ?_ ?_ (hgap l hl)
    · have hreg := own.isReg
      rw [Fs.isReg, hu] at hreg
      rw [Fs.isReg, hu']
      exact hreg
    · rw [hsfs', textSize, own.size]
    · rw [hsfs', hsfs]
    · rw [hp.block, W.data, Function.update_self]
      rfl

section
variable {a : NewInode} {dir d k r q j : ℕ} {x : Name} {z : SimplefsInode} {l : Option (List Write)}
  (C : Created s s' a dir d k r x z)
include C

theorem Created.isSome_old (hq : q ≠ a.addr) : (s'.inodes q).isSome = (s.inodes q).isSome := by
  rw [C.inodes, Function.update_of_ne hq]
  exact isSome_update q

theorem Created.of_old (H : FsInv s) (hq : q ≠ a.addr) (h : s'.Of q j) : s.Of q j :=
  H.of_back (C.inv H) (C.steady H).of_mono h (C.isSome_old hq ▸ h.isSome)

theorem Created.number_new : (s'.sfs a.addr).number = z.inodeNo := by
  rw [C.at_new.sfs, C.added.number_k]

/-- An inode that is kept does not have the number of the new object. -/
theorem Prov.born_kept (hq : q ≠ a.addr) (h : (v.born s s' a.addr l).lost q = false)
    (hs : (s.inodes q).isSome = true) : v.lost q = false ∧ (s.sfs q).number ≠ z.inodeNo := by
  simpa only [Prov.born, if_neg hq, hs, C.number_new, Bool.true_and, Bool.or_eq_false_iff,
    beq_eq_false_iff_ne] using h

/-- It does not have its slot either. -/
theorem Prov.born_slot (H : FsInv s) (hq : q ≠ a.addr) (h : s'.Of q j)
    (hlost : (v.born s s' a.addr l).lost q = false) : j ≠ k := by
  rintro rfl
  have hs := C.of_old H hq h
  exact (Prov.born_kept C hq hlost hs.isSome).2 (hs.number.trans (C.reuse hs.lt).1.symm)

/-- The new file is empty. -/
theorem Own.created (hreg : S_ISREG z.mode = true) : Own s' a.addr [] := by
  refine ⟨by rw [Fs.isReg, C.inodes_new]; exact hreg, ?_, fun i hi => absurd hi (by simp [textSize])⟩
  rw [C.at_new.sfs, C.added.store_k, C.added.z_size]
  rfl

/-- The files of other inodes are left alone. -/
theorem Prov.Ok.own_created (O : v.Ok s) (hq : q ≠ a.addr) {l : List Write} (hl : v.log q = some l)
    (hlost : v.lost q = false) : Own s' q l := by
  have own := O.own q l hl hlost
  obtain ⟨w, hw, hreg⟩ := (Option.any_eq_true _ _).1 own.isReg
  obtain ⟨j, hj⟩ := O.of_inode hw
  have hne := O.block_ne own hj hlost C.added.dir
  have hqd : q ≠ dir := by
    rintro rfl
    exact hne (by rw [O.of_fun hj C.at_dir.of])
  refine own.congr (C.inodes_ne hqd hq) ?_
  rw [hj.block]
  exact C.added.data _ hne

theorem Prov.Ok.created (O : v.Ok s) (hl : l = none ∨ l = some [] ∧ S_ISREG z.mode = true) :
    (v.born s s' a.addr l).Ok s' := by
  have H := O.toFsInv
  have H' := C.inv H
  refine ⟨H', fun q j h => ?_, fun q j h hlost hj => ?_, fun p q j hp hq hlp hlq => ?_,
    fun q m hm => ?_, fun q m hm hlost => ?_⟩
  · by_cases hq : q = a.addr
    · simp [Prov.born, hq]
    · rcases C.at_cases H h with h | ⟨rfl, -⟩
      · have hne : (s.sfs q).number ≠ z.inodeNo := by
          rw [h.of.number, h.live.number]
          exact C.added.ino_ne h.live
        simp [Prov.born, hq, O.at_kept q j h, C.number_new, hne]
      · exact absurd rfl hq
  · by_cases hq : q = a.addr
    · subst hq
      rw [H'.of_fun h C.at_new.of]
      exact C.at_new
    · have hs := C.of_old H hq h
      have hlive := (C.added.live_iff.1 hj).resolve_right (Prov.born_slot C H hq h hlost)
      exact C.at_mono H (O.live_at q j hs (Prov.born_kept C hq hlost hs.isSome).1 hlive)
  · by_cases hpa : p = a.addr
    · by_cases hqa : q = a.addr
      · rw [hpa, hqa]
      · subst hpa
        exact absurd (H'.of_fun hp C.at_new.of) (Prov.born_slot C H hqa hq hlq)
    · by_cases hqa : q = a.addr
      · subst hqa
        exact absurd (H'.of_fun hq C.at_new.of) (Prov.born_slot C H hpa hp hlp)
      · have hp' := C.of_old H hpa hp
        have hq' := C.of_old H hqa hq
        exact O.inj p q j hp' hq' (Prov.born_kept C hpa hlp hp'.isSome).1
          (Prov.born_kept C hqa hlq hq'.isSome).1
  · by_cases hq : q = a.addr
    · subst hq
      rw [C.inodes_new]
      rfl
    · rw [C.isSome_old hq]
      exact O.present q m ((Function.update_of_ne hq _ _).symm.trans hm)
  · by_cases hq : q = a.addr
    · subst hq
      have hlm : l = some m := (Function.update_self (f := v.log) _ _).symm.trans hm
      rcases hl with rfl | ⟨rfl, hreg⟩
      · simp at hlm
      · obtain rfl := Option.some.inj hlm
        exact Own.created C hreg
    · have hm' : v.log q = some m := (Function.update_of_ne hq _ _).symm.trans hm
      exact O.own_created C hq hm' (Prov.born_kept C hq hlost (O.present q m hm')).1

end

/-- The inode at `p` is a new one, of a live slot that had none, or none. -/
theorem Prov.Ok.forget (O : v.Ok s) {p : ℕ} (H' : FsInv s') (himage : s'.toImage = s.toImage)
    (hinodes : ∀ q, q ≠ p → s'.inodes q = s.inodes q)
    (hnew : ∀ k, s'.Of p k → s'.At p k ∧ ∀ q, ¬ s.At q k) : (v.forget p).Ok s' := by
  have hof : ∀ q j, q ≠ p → s'.Of q j → s.Of q j := by
    rintro q j hq ⟨w, hw, h⟩
    exact ⟨w, by rw [← hinodes q hq, hw], himage ▸ h⟩
  have hlost : ∀ q, q ≠ p → (v.forget p).lost q = v.lost q := fun q hq => Function.update_of_ne hq _ _
  have hlog : ∀ q, q ≠ p → (v.forget p).log q = v.log q := fun q hq => Function.update_of_ne hq _ _
  have hlive : ∀ j, s'.Live j ↔ s.Live j := fun j => by rw [himage]
  -- a kept inode of a slot that has a new one would be bound to it
  have hexcl : ∀ q j, q ≠ p → s'.Of p j → s'.Of q j → v.lost q = false → False := by
    intro q j hq hp hqj hl
    obtain ⟨hat, hno⟩ := hnew j hp
    exact hno q (O.live_at q j (hof q j hq hqj) hl ((hlive j).1 hat.live))
  refine ⟨H', fun q j h => ?_, fun q j h hl hj => ?_, fun q q' j h h' hl hl' => ?_, fun q m hm => ?_,
    fun q m hm hl => ?_⟩
  · by_cases hq : q = p
    · subst hq
      exact Function.update_self _ _ _
    · obtain ⟨w, hw, hb⟩ := h
      rw [hlost q hq]
      exact O.at_kept q j ⟨w, by rw [← hinodes q hq, hw], himage ▸ hb⟩
  · by_cases hq : q = p
    · exact (hnew j (hq ▸ h)).1.imp fun w hw => hq ▸ hw
    · rw [hlost q hq] at hl
      obtain ⟨w, hw, hb⟩ := O.live_at q j (hof q j hq h) hl ((hlive j).1 hj)
      exact ⟨w, by rw [hinodes q hq, hw], himage ▸ hb⟩
  · by_cases hq : q = p
    · by_cases hq' : q' = p
      · rw [hq, hq']
      · rw [hlost q' hq'] at hl'
        exact (hexcl q' j hq' (hq ▸ h) h' hl').elim
    · rw [hlost q hq] at hl
      by_cases hq' : q' = p
      · exact (hexcl q j hq (hq' ▸ h') h hl).elim
      · rw [hlost q' hq'] at hl'
        exact O.inj q q' j (hof q j hq h) (hof q' j hq' h') hl hl'
  · by_cases hq : q = p
    · subst hq
      simp [Prov.forget] at hm
    · rw [hinodes q hq]
      exact O.present q m (hlog q hq ▸ hm)
  · by_cases hq : q = p
    · subst hq
      simp [Prov.forget] at hm
    · rw [hlost q hq] at hl
      exact (O.own q m (hlog q hq ▸ hm) hl).congr (hinodes q hq) (by rw [himage])

theorem Prov.Ok.looked (O : v.Ok s) {dir p d k r : ℕ} {x : Name} {w : Inode}
    (L : Looked s s' dir p d k r x w) : (v.forget p).Ok s' := by
  have H' := L.inv O.toFsInv
  refine O.forget H' L.image (fun q hq => L.inodes_ne hq) fun j hj => ?_
  obtain rfl := H'.of_fun hj L.at_new.of
  exact ⟨L.at_new, L.no_inode O.toFsInv⟩

theorem Prov.Ok.evict (O : v.Ok s) {p : ℕ} (hp : p ≠ rootAddr) (hx : ∀ x, s.dcache p x = none) :
    (v.forget p).Ok (s.evict p) := by
  refine O.forget (O.toFsInv.evict hp hx) rfl (fun q hq => Function.update_of_ne hq _ _)
    fun j hj => ?_
  have := hj.isSome
  simp [Fs.evict] at this

/-- After a mount nothing has been read or written. -/
theorem Mounted.ok {g : Image} (M : Mounted g s) (H : StoreInv g) : Prov.start.Ok s := by
  have H' := M.inv H
  have hroot : ∀ p j, s.Of p j → p = rootAddr ∧ j = 0 := by
    rintro p j h
    obtain ⟨w, hw, -⟩ := id h
    obtain ⟨rfl, -⟩ := M.inode hw
    exact ⟨rfl, H'.of_fun h H'.root_at.of⟩
  refine ⟨H', fun _ _ _ => rfl, fun p j h _ _ => ?_, fun p q j h h' _ _ => ?_,
    fun p m h => by simp [Prov.start] at h, fun p m h => by simp [Prov.start] at h⟩
  · obtain ⟨rfl, rfl⟩ := hroot p j h
    exact H'.root_at
  · rw [(hroot p j h).1, (hroot q j h').1]

end

end Simplefs
