/-
  simplefs — create, mkdir and unlink are serializable.

  A create takes effect when it scans the inode store for a dead slot or, if it
  fails before, when it reads `inodes_count`.  From then on it does with the state
  what it would do alone (`Mid`, `Runs`).
-/
import KernelLinux.Simplefs.Linear
import KernelLinux.Simplefs.Locks

namespace Simplefs

open Bytes Prog

section

variable [Target] {c : Change} {h : Set Mutex} {W : Set Change} {x y : Fs × Fs}

/-! ## create and mkdir, once the call has taken effect -/

/-- The states are the same in what a create changes, but for the new inode and its dentry: the
    superblock, the slots `d` of the parent and `k` of the new object, the parent's block and
    inode. -/
structure Agree (d k blk dir : ℕ) (s u : Fs) : Prop where
  sb : s.sb = u.sb
  slot_d : s.store d = u.store d
  slot_k : s.store k = u.store k
  block : s.data blk = u.data blk
  inode : s.inodes dir = u.inodes dir

omit [Target] in
theorem Agree.sfs {d k blk dir : ℕ} {s u : Fs} (A : Agree d k blk dir s u) : s.sfs dir = u.sfs dir := by
  rw [Fs.sfs, Fs.sfs, A.inode]

/-- The states are the same in all else. -/
structure Off (d k blk dir : ℕ) (s s' : Fs) : Prop where
  slot : ∀ j, j ≠ d → j ≠ k → s'.store j = s.store j
  data : ∀ b, b ≠ blk → s'.data b = s.data b
  inode : ∀ q, q ≠ dir → s'.inodes q = s.inodes q
  dcache : s'.dcache = s.dcache

/-- `u` is a state in the run of a create alone, which ends in `t`. -/
structure Shadow (d k dir : ℕ) (t u : Fs) : Prop where
  count_le : u.sb.inodesCount ≤ t.sb.inodesCount
  number_sfs : (u.sfs dir).inodeNo = (t.store d).inodeNo
  number_d : (u.store d).inodeNo = (t.store d).inodeNo
  number_k : k < u.sb.inodesCount →
    (u.store k).inodeNo = (t.store k).inodeNo ∨ (u.store k).inodeNo = 0
  mode : (u.inodes dir).map Inode.iMode = (t.inodes dir).map Inode.iMode

/-- A create that has taken effect is where it would be in `u`, had it run alone. -/
structure Mid (c : Change) (a : NewInode) (d k blk : ℕ) (n : Name) (t u : Fs) (x : Fs × Fs) : Prop where
  coupled : Coupled x
  new : c.new = some a
  at_dir : x.2.At c.dir d
  block : (x.2.store d).dataBlockNumber = blk
  at_new : x.2.At a.addr k
  ne : d ≠ k
  inode_new : x.2.inodes a.addr = t.inodes a.addr
  row_dir : x.2.dcache c.dir = Function.update (x.1.dcache c.dir) n (some a.addr)
  row : ∀ q, c.Uses q → q ≠ c.dir → x.2.dcache q = x.1.dcache q
  sync : ∀ j, j ≠ d → j ≠ k → x.1.store j = x.2.store j
  agree : Agree d k blk c.dir x.1 u
  final : Agree d k blk c.dir t x.2
  shadow : Shadow d k c.dir t u

/-- From `u` on, the rest `p` of a create that has taken effect is linear. -/
def Runs (c : Change) (a : NewInode) (d k blk : ℕ) (n : Name) (t u : Fs)
    (p : FsProg (Except Errno Unit)) (h : Set Mutex) : Prop :=
  ∀ x, Mid c a d k blk n t u x → Linear c p h (some (.ok ())) x

namespace Mid
variable {a : NewInode} {d k blk : ℕ} {n : Name} {t u : Fs}

theorem uses_new (M : Mid c a d k blk n t u x) : c.Uses a.addr := Or.inr (Change.obj_eq M.new)

theorem dir_ne (M : Mid c a d k blk n t u x) : c.dir ≠ a.addr := fun h =>
  M.ne (M.coupled.inv.at_fun (h ▸ M.at_dir) M.at_new)

theorem stable (hh : .childrenUpdate ∈ h) (R : Rely c h x y) (M : Mid c a d k blk n t u x) :
    Mid c a d k blk n t u y := by
  have hd := R.slot _ d c.uses_dir M.at_dir
  have hk := R.slot _ k M.uses_new M.at_new
  have hb := R.data d M.at_dir
  rw [M.block] at hb
  have hi := R.inode _ c.uses_dir
  have hsb := R.sb hh
  refine ⟨R.coupled, M.new, (R.at_iff _ d c.uses_dir).2 M.at_dir, by rw [hd.2, M.block],
    (R.at_iff _ k M.uses_new).2 M.at_new, M.ne, by rw [(R.inode _ M.uses_new).2, M.inode_new],
    by rw [(R.row _ c.uses_dir).1, (R.row _ c.uses_dir).2, M.row_dir],
    fun q hq hqd => by rw [(R.row q hq).1, (R.row q hq).2, M.row q hq hqd],
    fun j hjd hjk => R.sync hh j (M.sync j hjd hjk), ?_, ?_, M.shadow⟩
  · exact ⟨hsb.1.trans M.agree.sb, hd.1.trans M.agree.slot_d, hk.1.trans M.agree.slot_k,
      hb.1.trans M.agree.block, hi.1.trans M.agree.inode⟩
  · exact ⟨M.final.sb.trans hsb.2.symm, M.final.slot_d.trans hd.2.symm, M.final.slot_k.trans hk.2.symm,
      M.final.block.trans hb.2.symm, M.final.inode.trans hi.2.symm⟩

/-- A step that does with the state what it does in the run alone. -/
theorem lin_step (hh : .childrenUpdate ∈ h) (M : Mid c a d k blk n t u x) {f : Fs → Fs}
    {g : Fs → FsProg (Except Errno Unit)} {u' : Fs} {p : FsProg (Except Errno Unit)}
    (hnext : Runs c a d k blk n t u' p h)
    (hf : ∀ y, Mid c a d k blk n t u y → g y.1 = p ∧ Agree d k blk c.dir (f y.1) u' ∧
      Off d k blk c.dir y.1 (f y.1))
    (hcount : u.sb.inodesCount ≤ u'.sb.inodesCount) (hu : Shadow d k c.dir t u') :
    Linear c (.step f g) h (some (.ok ())) x := by
  intro y R hb
  have M := M.stable hh R
  obtain ⟨hg, A, O⟩ := hf y M
  have K := M.coupled
  have hkind : SameKinds y.1 (f y.1) := by
    intro q
    by_cases hq : q = c.dir
    · rw [hq, A.inode, hu.mode, M.agree.inode, M.shadow.mode]
    · rw [O.inode q hq]
  have hcoupled : Coupled (f y.1, y.2) := by
    refine ⟨K.inv, ?_, fun j hj => ?_, fun q j hj hq => ?_, fun e m q he => ?_, ?_⟩
    · rw [A.sb, ← M.final.sb]
      exact hu.count_le
    · simp only at hj ⊢
      rw [A.sb] at hj
      by_cases hjd : j = d
      · rw [hjd, A.slot_d, ← M.final.slot_d]
        exact Or.inl hu.number_d
      by_cases hjk : j = k
      · rw [hjk, A.slot_k, ← M.final.slot_k]
        exact hu.number_k (hjk ▸ hj)
      · rw [O.slot j hjd hjk, M.sync j hjd hjk]
        exact Or.inl rfl
    · have := K.counted q j hj (mt (hkind.none_iff q).2 hq)
      rw [M.agree.sb] at this
      rw [A.sb]
      exact lt_of_lt_of_le this hcount
    · simp only [O.dcache] at he
      have := K.dentry e m q he
      exact ⟨(hkind.isDir e).trans this.1, mt (hkind.none_iff q).1 this.2⟩
    · simp only [O.dcache]
      exact K.dentry_inj
  have hguar : Guar c h y (f y.1, y.2) := by
    refine Guar.own K hcoupled (by rw [A.sb, M.agree.sb]; exact hcount)
      (fun q hq => O.inode q fun he => hq (Or.inl he))
      (fun _ _ => by rw [O.dcache]) (fun b hb => O.data b fun he => hb d M.at_dir (M.block.trans he.symm))
      (fun hl => absurd hh hl) fun j => ?_
    by_cases hjd : j = d
    · exact Or.inr ⟨hh, c.dir, c.uses_dir, hjd ▸ M.at_dir⟩
    by_cases hjk : j = k
    · exact Or.inr ⟨hh, a.addr, M.uses_new, hjk ▸ M.at_new⟩
    · exact Or.inl (O.slot j hjd hjk)
  refine ⟨some (.ok ()), y.2, Or.inl ⟨rfl, rfl⟩, hguar, fun _ => Change.Busy.congr hkind O.dcache hb, ?_⟩
  rw [hg]
  refine hnext _ ⟨hcoupled, M.new, M.at_dir, M.block, M.at_new, M.ne, M.inode_new, ?_, fun q hq hqd => ?_,
    fun j hjd hjk => ?_, A, M.final, hu⟩
  · simp only [O.dcache]
    exact M.row_dir
  · simp only [O.dcache]
    exact M.row q hq hqd
  · exact (O.slot j hjd hjk).trans (M.sync j hjd hjk)

end Mid

namespace Runs
variable {a : NewInode} {d k blk : ℕ} {n : Name} {t u : Fs}

theorem lock {l : Site} {g : Bool → FsProg (Except Errno Unit)} (hh : .childrenUpdate ∈ h)
    (H : Runs c a d k blk n t u (g false) (insert l.mutex h)) :
    Runs c a d k blk n t u (mutexLockInterruptible l >>= g) h := fun _ M =>
  Protocol.lin_lock fun y R _ => H y (M.stable hh R)

theorem unlock {l : Mutex} {g : Unit → FsProg (Except Errno Unit)} (hh : .childrenUpdate ∈ h)
    (hl : l ∉ h) (H : Runs c a d k blk n t u (g ()) h) :
    Runs c a d k blk n t u (mutexUnlock l >>= g) (insert l h) := fun _ M =>
  Protocol.lin_unlock hl fun y R =>
    ⟨fun he => absurd hh (he ▸ hl), H y (M.stable (Set.mem_insert_of_mem _ hh) R)⟩

theorem mark {b : ℕ} {g : Unit → FsProg (Except Errno Unit)} (H : Runs c a d k blk n t u (g ()) h) :
    Runs c a d k blk n t u (markBufferDirty b >>= g) h := H

theorem sync {b : ℕ} {g : Unit → FsProg (Except Errno Unit)} (H : Runs c a d k blk n t u (g ()) h) :
    Runs c a d k blk n t u (syncDirtyBuffer b >>= g) h := H

theorem setBlock {G : SimplefsInode → Block → Block} {g : Unit → FsProg (Except Errno Unit)}
    (hh : .childrenUpdate ∈ h)
    (H : Runs c a d k blk n t (u.setBlock blk (G (u.sfs c.dir))) (g ()) h) :
    Runs c a d k blk n t u (modify (fun s => s.setBlock blk (G (s.sfs c.dir))) >>= g) h := by
  intro x M
  refine M.lin_step hh H (fun y M => ⟨rfl, ⟨M.agree.sb, M.agree.slot_d, M.agree.slot_k, ?_, M.agree.inode⟩,
    fun _ _ _ => rfl, fun b hb => Function.update_of_ne hb _ _, fun _ _ => rfl, rfl⟩) le_rfl
    ⟨M.shadow.count_le, M.shadow.number_sfs, M.shadow.number_d, M.shadow.number_k, M.shadow.mode⟩
  show Function.update y.1.data blk _ blk = Function.update u.data blk _ blk
  rw [Function.update_self, Function.update_self, M.agree.sfs, M.agree.block]

/-- The step of `simplefs_create_fs_object` that fills a tombstone. -/
theorem tombstone {m : ℕ} {g : Bool → FsProg (Except Errno Unit)} (hh : .childrenUpdate ∈ h)
    {o : Option ℕ} (ho : firstTombstone (u.data blk) (u.sfs c.dir).dirChildrenCount = o)
    (H : Runs c a d k blk n t (match o with
      | some i => u.setBlock blk fun b => reuseRecord b i n m
      | none => u) (g o.isSome) h) :
    Runs c a d k blk n t u (step (fun s =>
        match firstTombstone (s.data blk) (s.sfs c.dir).dirChildrenCount with
        | some i => s.setBlock blk fun b => reuseRecord b i n m
        | none => s) fun s =>
      g (firstTombstone (s.data blk) (s.sfs c.dir).dirChildrenCount).isSome) h := by
  intro x M
  have hy : ∀ y, Mid c a d k blk n t u y →
      firstTombstone (y.1.data blk) (y.1.sfs c.dir).dirChildrenCount = o := fun y M => by
    rw [M.agree.block, M.agree.sfs, ho]
  cases o with
  | none =>
    refine M.lin_step hh H (fun y M => ?_) le_rfl M.shadow
    simp only [hy y M]
    exact ⟨trivial, M.agree, fun _ _ _ => rfl, fun _ _ => rfl, fun _ _ => rfl, rfl⟩
  | some i =>
    refine M.lin_step hh H (fun y M => ?_) le_rfl
      ⟨M.shadow.count_le, M.shadow.number_sfs, M.shadow.number_d, M.shadow.number_k, M.shadow.mode⟩
    simp only [hy y M]
    refine ⟨trivial, ⟨M.agree.sb, M.agree.slot_d, M.agree.slot_k, ?_, M.agree.inode⟩,
      fun _ _ _ => rfl, fun b hb => Function.update_of_ne hb _ _, fun _ _ => rfl, rfl⟩
    show Function.update y.1.data blk _ blk = Function.update u.data blk _ blk
    rw [Function.update_self, Function.update_self, M.agree.block]

theorem setSb {F : SuperBlock → SuperBlock} {g : Unit → FsProg (Except Errno Unit)}
    (hh : .childrenUpdate ∈ h) (hcount : u.sb.inodesCount ≤ (F u.sb).inodesCount)
    (hle : (F u.sb).inodesCount ≤ t.sb.inodesCount)
    (hk : k < (F u.sb).inodesCount → (u.store k).inodeNo = (t.store k).inodeNo ∨ (u.store k).inodeNo = 0)
    (H : Runs c a d k blk n t { u with sb := F u.sb } (g ()) h) :
    Runs c a d k blk n t u (modify (fun s => { s with sb := F s.sb }) >>= g) h := by
  intro x M
  refine M.lin_step hh H (fun y M => ⟨rfl, ⟨?_, M.agree.slot_d, M.agree.slot_k, M.agree.block,
    M.agree.inode⟩, fun _ _ _ => rfl, fun _ _ => rfl, fun _ _ => rfl, rfl⟩) hcount
    ⟨hle, M.shadow.number_sfs, M.shadow.number_d, hk, M.shadow.mode⟩
  show F y.1.sb = F u.sb
  rw [M.agree.sb]

/-- A step that writes the new slot. -/
theorem setSlot {f : Fs → Fs} {z : SimplefsInode} {g : Unit → FsProg (Except Errno Unit)}
    (hh : .childrenUpdate ∈ h) (hz : t.store k = z)
    (hf : ∀ y, Mid c a d k blk n t u y → f y.1 = y.1.setSlot k z)
    (H : Runs c a d k blk n t (u.setSlot k z) (g ()) h) :
    Runs c a d k blk n t u (modify f >>= g) h := by
  intro x M
  have hd : ∀ s : Fs, (s.setSlot k z).store d = s.store d := fun s => Function.update_of_ne M.ne _ _
  have hk : ∀ s : Fs, (s.setSlot k z).store k = z := fun s => Function.update_self _ _ _
  refine M.lin_step hh H (fun y M => ?_) le_rfl
    ⟨M.shadow.count_le, M.shadow.number_sfs, by rw [hd]; exact M.shadow.number_d,
      fun _ => Or.inl (by rw [hk, hz]), M.shadow.mode⟩
  rw [hf y M]
  exact ⟨rfl, ⟨M.agree.sb, by rw [hd, hd, M.agree.slot_d], by rw [hk, hk], M.agree.block, M.agree.inode⟩,
    fun j _ hjk => Function.update_of_ne hjk _ _, fun _ _ => rfl, fun _ _ => rfl, rfl⟩

theorem setSfs {F : SimplefsInode → SimplefsInode} {g : Unit → FsProg (Except Errno Unit)}
    (hh : .childrenUpdate ∈ h) (hF : ((u.setSfs c.dir F).sfs c.dir).inodeNo = (u.sfs c.dir).inodeNo)
    (H : Runs c a d k blk n t (u.setSfs c.dir F) (g ()) h) :
    Runs c a d k blk n t u (modify (fun s => s.setSfs c.dir F) >>= g) h := by
  intro x M
  refine M.lin_step hh H (fun y M => ⟨rfl, ⟨M.agree.sb, M.agree.slot_d, M.agree.slot_k, M.agree.block, ?_⟩,
    fun _ _ _ => rfl, fun _ _ => rfl, fun q hq => Function.update_of_ne hq _ _, rfl⟩) le_rfl
    ⟨M.shadow.count_le, hF.trans M.shadow.number_sfs, M.shadow.number_d, M.shadow.number_k,
      (Fs.setSfs_mode _ _ _ _).trans M.shadow.mode⟩
  show Function.update y.1.inodes c.dir _ c.dir = Function.update u.inodes c.dir _ c.dir
  rw [Function.update_self, Function.update_self, M.agree.inode]

/-- The step of `simplefs_inode_save` that writes the slot of the parent. -/
theorem saveSlot {g : Fs → FsProg (Except Errno Unit)} {p : FsProg (Except Errno Unit)}
    (hh : .childrenUpdate ∈ h) (hsearch : inodeSearch u.toImage (u.sfs c.dir) = some d)
    (hg : ∀ s, inodeSearch s.toImage (s.sfs c.dir) = some d → g s = p)
    (H : Runs c a d k blk n t (Simplefs.saveSlot c.dir u) p h) :
    Runs c a d k blk n t u (step (Simplefs.saveSlot c.dir) g) h := by
  intro x M
  have hsave : ∀ s : Fs, inodeSearch s.toImage (s.sfs c.dir) = some d →
      Simplefs.saveSlot c.dir s = s.setSlot d (s.sfs c.dir) := fun s hs => by
    unfold Simplefs.saveSlot
    rw [hs]
  have hy : ∀ y, Mid c a d k blk n t u y → inodeSearch y.1.toImage (y.1.sfs c.dir) = some d := by
    intro y M
    refine M.coupled.search M.at_dir ?_ ?_ ?_
    · intro hnone
      obtain ⟨v, hv, -⟩ := M.at_dir
      have := M.shadow.mode
      rw [← M.agree.inode, hnone, M.final.inode, hv] at this
      simp at this
    · rw [M.agree.slot_d, M.shadow.number_d, M.final.slot_d]
    · have : (u.sfs c.dir).inodeNo = (y.2.store d).inodeNo := by
        rw [M.shadow.number_sfs, M.final.slot_d]
      rw [M.agree.sfs, SimplefsInode.number_live (by rw [this]; exact M.at_dir.live.2), this]
  rw [hsave u hsearch] at H
  have hk : ∀ s : Fs, (s.setSlot d (s.sfs c.dir)).store k = s.store k := fun s =>
    Function.update_of_ne M.ne.symm _ _
  have hd : ∀ s : Fs, (s.setSlot d (s.sfs c.dir)).store d = s.sfs c.dir := fun s =>
    Function.update_self _ _ _
  refine M.lin_step hh H (fun y M => ?_) le_rfl ⟨M.shadow.count_le, M.shadow.number_sfs,
    by rw [hd]; exact M.shadow.number_sfs, by rw [hk]; exact M.shadow.number_k, M.shadow.mode⟩
  rw [hsave y.1 (hy y M)]
  exact ⟨hg y.1 (hy y M), ⟨M.agree.sb, by rw [hd, hd, M.agree.sfs], by rw [hk, hk, M.agree.slot_k], M.agree.block,
    M.agree.inode⟩, fun j hjd _ => Function.update_of_ne hjd _ _, fun _ _ => rfl, fun _ _ => rfl, rfl⟩

end Runs

/-! ### The last steps -/

/-- What is left of a create is the new inode `v` and its dentry. -/
structure Unborn (c : Change) (a : NewInode) (n : Name) (v : Inode) (x : Fs × Fs) : Prop where
  coupled : Coupled x
  new : c.new = some a
  dir_ne : c.dir ≠ a.addr
  counted : ∃ k, x.2.At a.addr k ∧ k < x.1.sb.inodesCount
  pending : Pending c id (fun f => Function.update f n (some a.addr))
    (fun q i => if q = a.addr then some v else i) x

section
variable {a : NewInode} {d k blk : ℕ} {n : Name} {t u : Fs} {v : Inode}

theorem Unborn.stable (R : Rely c h x y) (Q : Unborn c a n v x) : Unborn c a n v y := by
  obtain ⟨k, hk, hlt⟩ := Q.counted
  exact ⟨R.coupled, Q.new, Q.dir_ne, ⟨k, (R.at_iff _ k (Or.inr (Change.obj_eq Q.new))).2 hk,
    lt_of_lt_of_le hlt R.count⟩, Q.pending.stable R⟩

/-- `d_add`. -/
theorem Unborn.dAdd (Q : Unborn c a n v x) (hb : c.Busy x.1) {s : Fs}
    (hs : s = x.1.dAdd c.dir n a.addr v) : Guar c h x (s, x.2) ∧ Settled c (s, x.2) := by
  have K := Q.coupled
  have P := Q.pending
  have hnone := hb.fresh Q.new
  have hnew : s.inodes a.addr = some v := by rw [hs]; exact Function.update_self _ _ _
  have hne : ∀ q, q ≠ a.addr → s.inodes q = x.1.inodes q := fun q hq => by
    rw [hs]; exact Function.update_of_ne hq _ _
  have hrow : ∀ e, e ≠ c.dir → s.dcache e = x.1.dcache e := fun e he => by
    rw [hs]; exact Function.update_of_ne he _ _
  have hrow_dir : s.dcache c.dir = Function.update (x.1.dcache c.dir) n (some a.addr) := by
    rw [hs]; exact Function.update_self _ _ _
  have hsb : s.sb = x.1.sb := by rw [hs]; rfl
  have hstore : s.store = x.1.store := by rw [hs]; rfl
  have hdata : s.data = x.1.data := by rw [hs]; rfl
  have hisDir : ∀ e, x.1.isDir e = true → s.isDir e = true := fun e he => by
    have hea : e ≠ a.addr := by
      rintro rfl
      simp [Fs.isDir, hnone] at he
    rw [Fs.isDir, hne e hea]
    exact he
  have hsome : ∀ q, x.1.inodes q ≠ none → s.inodes q ≠ none := fun q hq => by
    rwa [hne q fun he => hq (he ▸ hnone)]
  -- a dentry is the new one or an old one, which is not of the new inode
  have hdentry : ∀ e m q, s.dcache e m = some q →
      e = c.dir ∧ q = a.addr ∨ x.1.dcache e m = some q ∧ q ≠ a.addr := by
    intro e m q he
    have hold : x.1.dcache e m = some q → x.1.dcache e m = some q ∧ q ≠ a.addr := fun h =>
      ⟨h, fun hq => (K.dentry e m q h).2 (hq ▸ hnone)⟩
    by_cases hed : e = c.dir
    · subst hed
      rw [hrow_dir] at he
      by_cases hm : m = n
      · rw [hm, Function.update_self] at he
        exact Or.inl ⟨rfl, (Option.some.inj he).symm⟩
      · rw [Function.update_of_ne hm] at he
        exact Or.inr (hold he)
    · rw [hrow e hed] at he
      exact Or.inr (hold he)
  have hcoupled : Coupled (s, x.2) := by
    refine ⟨K.inv, by rw [hsb]; exact K.count_le, fun j hj => ?_, fun q j hj hq => ?_,
      fun e m q he => ?_, fun e m e' m' q he he' => ?_⟩
    · rw [hstore]
      exact K.number j (by rwa [hsb] at hj)
    · rw [hsb]
      by_cases hqa : q = a.addr
      · obtain ⟨k, hk, hlt⟩ := Q.counted
        obtain rfl := K.inv.at_fun (hqa ▸ hj) hk
        exact hlt
      · exact K.counted q j hj (by rwa [← hne q hqa])
    · rcases hdentry e m q he with ⟨rfl, rfl⟩ | ⟨h, -⟩
      · exact ⟨hisDir _ hb.isDir, by rw [hnew]; exact Option.some_ne_none v⟩
      · exact ⟨hisDir e (K.dentry e m q h).1, hsome q (K.dentry e m q h).2⟩
    · rcases hdentry e m q he with ⟨rfl, hq⟩ | ⟨h, hq⟩ <;>
        rcases hdentry e' m' q he' with ⟨rfl, hq'⟩ | ⟨h', hq'⟩
      · rfl
      · exact absurd hq hq'
      · exact absurd hq' hq
      · exact K.dentry_inj e m e' m' q h h'
  refine ⟨Guar.own K hcoupled (by rw [hsb]) (fun q hq => hne q ?_) (fun q hq => hrow q ?_)
    (fun _ _ => by rw [hdata]) (fun _ => hsb) fun j => Or.inl (by rw [hstore]), ?_⟩
  · exact fun he => hq (Or.inr (he ▸ Change.obj_eq Q.new))
  · exact fun he => hq (Or.inl he)
  · refine ⟨fun q hq => ?_, P.row_dir.trans hrow_dir.symm, fun q hq hqd => ?_, fun q j hq hj => ?_,
      fun j hj => ?_⟩
    · have := P.inode q hq
      split_ifs at this with hqa
      · rw [this, hqa]
        exact hnew.symm
      · exact this.trans (hne q hqa).symm
    · exact (P.row q hq hqd).trans (hrow q hqd).symm
    · exact (congrFun hstore j).trans (P.slot q j hq hj)
    · exact (P.data j hj).trans (by rw [hdata])

/-- When the mutex is released, all is done but `d_add`. -/
theorem Mid.unborn (M : Mid c a d k blk n t u x) (ht : t = u.dAdd c.dir n a.addr v) :
    Free .childrenUpdate x ∧ Unborn c a n v x := by
  have hsb : x.1.sb = x.2.sb := by
    rw [M.agree.sb, ← M.final.sb, ht]
    rfl
  have hd : x.1.store d = x.2.store d := by
    rw [M.agree.slot_d, ← M.final.slot_d, ht]
    rfl
  have hk : x.1.store k = x.2.store k := by
    rw [M.agree.slot_k, ← M.final.slot_k, ht]
    rfl
  refine ⟨fun _ => ⟨hsb, funext fun j => ?_⟩, M.coupled, M.new, M.dir_ne, ⟨k, M.at_new, ?_⟩, ?_,
    M.row_dir, M.row, fun q j hq hj => ?_, fun j hj => ?_⟩
  · by_cases hjd : j = d
    · rw [hjd, hd]
    by_cases hjk : j = k
    · rw [hjk, hk]
    exact M.sync j hjd hjk
  · rw [hsb]
    exact M.at_new.live.1
  · rintro q (rfl | hq)
    · rw [if_neg M.dir_ne, ← M.final.inode, M.agree.inode, ht]
      exact Function.update_of_ne M.dir_ne _ _
    · rw [Change.obj_eq M.new] at hq
      obtain rfl := Option.some.inj hq
      rw [if_pos rfl, M.inode_new, ht]
      exact Function.update_self _ _ _
  · rcases hq with rfl | hq
    · rw [M.coupled.inv.at_fun hj M.at_dir, hd]
    · rw [Change.obj_eq M.new] at hq
      obtain rfl := Option.some.inj hq
      rw [M.coupled.inv.at_fun hj M.at_new, hk]
  · rw [M.coupled.inv.at_fun hj M.at_dir, M.block, ← M.final.block, M.agree.block, ht]
    rfl

end

/-! ### The functions of `simplefs_create_fs_object` -/

/-- No other call has made a dead slot with the number of the one that is reused. -/
theorem Mid.findDead {a : NewInode} {d k blk : ℕ} {n : Name} {t u : Fs} {z : SimplefsInode}
    (M : Mid c a d k blk n t u y) (hk : t.store k = z) (hu : findDead u.toImage z.inodeNo = some k) :
    findDead y.1.toImage z.inodeNo = some k := by
  have K := M.coupled
  obtain ⟨hku, hpk, -⟩ := find_range.1 hu
  rw [← M.agree.sb] at hku
  refine find_range_unique hku (by rwa [M.agree.slot_k]) fun j hj hpj => ?_
  simp only [Bool.and_eq_true, beq_iff_eq] at hpj
  by_contra hjk
  have hjd : j ≠ d := by
    rintro rfl
    have := M.at_dir.live.2
    rw [← M.final.slot_d, ← M.shadow.number_d, ← M.agree.slot_d] at this
    exact this hpj.1
  have hle := K.count_le
  refine hjk (K.inv.number_inj j (by omega) k M.at_new.live.1 ?_)
  rw [← M.sync j hjd hjk, SimplefsInode.number_dead hpj.1, hpj.2, M.at_new.live.number,
    ← M.final.slot_k, hk]

namespace Runs
variable {a : NewInode} {d k blk : ℕ} {n : Name} {t u : Fs}

theorem reads {β : Type} {f : Fs → β} {g : β → FsProg (Except Errno Unit)} {w : β}
    (hh : .childrenUpdate ∈ h) (hf : ∀ y, Mid c a d k blk n t u y → f y.1 = w)
    (H : Runs c a d k blk n t u (g w) h) : Runs c a d k blk n t u (Prog.reads f >>= g) h := fun _ M =>
  Protocol.lin_reads fun y R _ => by
    have M := M.stable hh R
    rw [hf y M]
    exact H y M

theorem inodeSave {g : Except Errno Unit → FsProg (Except Errno Unit)} (hh : .childrenUpdate ∈ h)
    (hl : .sb ∉ h) (hsearch : inodeSearch u.toImage (u.sfs c.dir) = some d)
    (H : Runs c a d k blk n t (Simplefs.saveSlot c.dir u) (g (.ok ())) h) :
    Runs c a d k blk n t u (Simplefs.inodeSave c.dir >>= g) h := by
  simp only [Simplefs.inodeSave, Prog.bind_assoc]
  refine lock hh ?_
  simp only [Bool.false_eq_true, if_false, step_bind, ret_bind]
  refine saveSlot (Set.mem_insert_of_mem _ hh) hsearch (fun s hs => by rw [hs]) ?_
  simp only [Prog.bind_assoc]
  exact mark (sync (unlock hh hl H))

/-- The last steps of a create. -/
theorem finish {v : Inode} (ht : t = u.dAdd c.dir n a.addr v) :
    Runs c a d k blk n t u (mutexUnlock .childrenUpdate >>= fun _ =>
      modify (fun s => s.dAdd c.dir n a.addr v) >>= fun _ => ret (.ok ()))
        (insert .childrenUpdate ∅) := fun _ M => by
  refine Protocol.lin_unlock (Set.notMem_empty _) fun y R => ?_
  obtain ⟨hfree, Q⟩ := (M.stable (Set.mem_insert _ _) R).unborn ht
  refine ⟨hfree, Protocol.lin_modify fun z R hb => ?_⟩
  obtain ⟨hguar, hsettled⟩ := (Q.stable R).dAdd hb rfl
  exact ⟨hguar, by simp [Prog.done], rfl, rfl, fun w R => hsettled.stable R⟩

/-- The rest of `simplefs_create_fs_object` after the slot of the new object is written. -/
theorem commit {z : SimplefsInode} {append : Bool}
    (hexec : (createCommit a c.dir blk n z append).exec u = (.ok (), t))
    (hsearch : append = true → inodeSearch (appendName c.dir blk n z.inodeNo u).toImage
      ((appendName c.dir blk n z.inodeNo u).sfs c.dir) = some d) :
    Runs c a d k blk n t u (createCommit a c.dir blk n z append) (insert .childrenUpdate ∅) := by
  have hh : Mutex.childrenUpdate ∈ insert Mutex.childrenUpdate (∅ : Set Mutex) := Set.mem_insert _ _
  have hh' : Mutex.childrenUpdate ∈ insert Mutex.inodesMgmt (insert Mutex.childrenUpdate ∅) :=
    Set.mem_insert_of_mem _ hh
  have hl : Mutex.inodesMgmt ∉ insert Mutex.childrenUpdate (∅ : Set Mutex) := by simp
  cases append with
  | false =>
    have ht : t = u.dAdd c.dir n a.addr ⟨z.inodeNo, z.mode, some z⟩ := (Prod.ext_iff.1 hexec).2.symm
    simp only [createCommit, Bool.false_eq_true, if_false, pure_def, ret_bind]
    exact mark (sync (lock hh (unlock hh hl (finish ht))))
  | true =>
    have ht : t = (Simplefs.saveSlot c.dir (appendName c.dir blk n z.inodeNo u)).dAdd c.dir n a.addr
        ⟨z.inodeNo, z.mode, some z⟩ := by
      have := (Prod.ext_iff.1 hexec).2
      simp only [createCommit, if_true, exec_bind, exec_modify, exec_markBufferDirty,
        exec_syncDirtyBuffer, exec_mutexLockInterruptible, Bool.false_eq_true, if_false,
        exec_inodeSave] at this
      rw [show ((u.setBlock blk _).setSfs c.dir _) = appendName c.dir blk n z.inodeNo u from rfl,
        hsearch rfl] at this
      exact this.symm
    simp only [createCommit, if_true]
    refine setBlock (G := fun y b => appendRecord b y.dirChildrenCount n z.inodeNo) hh
      (mark (sync (lock hh ?_)))
    simp only [Bool.false_eq_true, if_false]
    refine setSfs hh' (Fs.setSfs_inodeNo _ _ _ fun _ => rfl) ?_
    refine inodeSave hh' (by simp [Site.mutex]) (hsearch rfl) ?_
    exact unlock hh hl (finish ht)

theorem createFinish {z : SimplefsInode} {exist samedir : Bool} (hk : t.store k = z)
    (hlt : k < t.sb.inodesCount)
    (hslot : if exist then findDead u.toImage z.inodeNo = some k else k = u.sb.inodesCount)
    (hexec : (Simplefs.createFinish a c.dir blk n z exist samedir).exec u = (.ok (), t))
    (hsearch : (!exist || !samedir) = true → inodeSearch
      (appendName c.dir blk n z.inodeNo (addSlot z exist u)).toImage
      ((appendName c.dir blk n z.inodeNo (addSlot z exist u)).sfs c.dir) = some d) :
    Runs c a d k blk n t u (Simplefs.createFinish a c.dir blk n z exist samedir)
      (insert .childrenUpdate ∅) := by
  have hh : Mutex.childrenUpdate ∈ insert Mutex.childrenUpdate (∅ : Set Mutex) := Set.mem_insert _ _
  have hh' : Mutex.childrenUpdate ∈ insert Mutex.inodesMgmt (insert Mutex.childrenUpdate ∅) :=
    Set.mem_insert_of_mem _ hh
  have hh'' : Mutex.childrenUpdate ∈
      insert Mutex.sb (insert Mutex.inodesMgmt (insert Mutex.childrenUpdate ∅)) :=
    Set.mem_insert_of_mem _ hh'
  have hl : Mutex.inodesMgmt ∉ insert Mutex.childrenUpdate (∅ : Set Mutex) := by simp
  have hl' : Mutex.sb ∉ insert Mutex.inodesMgmt (insert Mutex.childrenUpdate (∅ : Set Mutex)) := by simp
  rw [Simplefs.createFinish, exec_bind, exec_inodeAdd] at hexec
  have hcommit := commit (k := k) hexec hsearch
  simp only [Simplefs.createFinish, inodeAdd, Prog.bind_assoc]
  refine lock hh ?_
  simp only [Bool.false_eq_true, if_false, Prog.bind_assoc]
  refine lock hh' ?_
  simp only [Bool.false_eq_true, if_false]
  cases exist with
  | false =>
    simp only [Bool.false_eq_true, if_false] at hslot
    subst hslot
    simp only [Bool.false_eq_true, if_false, sbSync, Prog.bind_assoc]
    refine setSlot (z := z) hh'' hk (fun y M => by rw [M.agree.sb]) ?_
    refine setSb (F := fun b => { b with inodesCount := b.inodesCount + 1 }) hh'' (Nat.le_succ _) hlt
      (fun _ => Or.inl ?_) (mark (sync (mark (unlock hh' hl' (unlock hh hl hcommit)))))
    rw [hk]
    exact congrArg _ (Function.update_self _ _ _)
  | true =>
    simp only [if_true] at hslot
    have hadd : addSlot z true u = u.setSlot k z := by
      simp only [addSlot, if_true, hslot]
    rw [hadd] at hcommit
    simp only [if_true, Prog.bind_assoc]
    refine setSlot (z := z) hh'' hk (fun y M => by rw [M.findDead hk hslot]) ?_
    exact mark (unlock hh' hl' (unlock hh hl hcommit))

end Runs

/-! ### Taking effect -/

/-- The call is a create or a mkdir of an object named `n`, with the mode `mode`. -/
inductive Change.Makes : Change → Option NewInode → Name → ℕ → Prop
  | create {new dir n mode} : Makes (.create new dir n mode) new n mode
  | mkdir {new dir n mode} : Makes (.mkdir new dir n mode) new n (S_IFDIR ||| mode)

namespace Change.Makes
variable {new : Option NewInode} {n : Name} {mode : ℕ}

theorem prog (M : c.Makes new n mode) : c.prog = createFsObject new c.dir n mode := by
  cases M <;> rfl

omit [Target] in
theorem new_eq (M : c.Makes new n mode) : c.new = new := by
  cases M <;> rfl

omit [Target] in
theorem ok (M : c.Makes new n mode) {s : Fs} (h : c.Allowed s) :
    CreateOk s new c.dir n ∧ (S_ISDIR mode = true ∨ S_ISREG mode = true) := by
  cases M with
  | create => exact ⟨h.op.1, Or.inr h.op.2⟩
  | mkdir => exact ⟨h.op.1, Or.inl (isDir_mkdir h.op.2)⟩

end Change.Makes

/-- The call holds `simplefs_directory_children_update_lock` and has not taken effect; `m` inodes
    are counted. -/
structure Holding (c : Change) (m : ℕ) (x : Fs × Fs) : Prop where
  ready : Ready c x
  sb : x.1.sb = x.2.sb
  store : x.1.store = x.2.store
  count : x.2.sb.inodesCount = m

section
variable {m : ℕ}

theorem Holding.stable (hh : .childrenUpdate ∈ h) (R : Rely c h x y) (Q : Holding c m x) :
    Holding c m y := by
  have hsb := R.sb hh
  refine ⟨Q.ready.stable R, by rw [hsb.1, hsb.2, Q.sb], funext fun j => R.sync hh j (by rw [Q.store]),
    by rw [hsb.2, Q.count]⟩

theorem Ready.holding (Y : Ready c x) (F : Free .childrenUpdate x) :
    Holding c x.2.sb.inodesCount x :=
  ⟨Y, (F rfl).1, (F rfl).2, rfl⟩

/-- A call that fails leaves all as it is. -/
theorem Holding.lin_fail {e : Errno} (Q : Holding c m x) :
    Linear c (mutexUnlock .childrenUpdate >>= fun _ => ret (.error e)) (insert .childrenUpdate ∅)
      (some (.error e)) x :=
  Protocol.lin_unlock (Set.notMem_empty _) fun y R => by
    have Q := Q.stable (Set.mem_insert _ _) R
    exact ⟨fun _ => ⟨Q.sb, Q.store⟩, rfl, rfl, fun z R => (Q.ready.stable R).settled⟩

/-- **A create takes effect.** -/
theorem Created.effect {a : NewInode} {d k r : ℕ} {n : Name} {z : SimplefsInode} {s v t : Fs}
    (C : Created v t a c.dir d k r n z) (Q : Holding c m (s, v)) (hb : c.Busy s)
    (hnew : c.new = some a) (hh : .childrenUpdate ∈ h) :
    Guar c h (s, v) (s, t) ∧ Mid c a d k (v.store d).dataBlockNumber n t v (s, t) := by
  have K := Q.ready.coupled
  have Y := Q.ready.settled
  have A := C.added
  have hsb : s.sb = v.sb := Q.sb
  have hstore : s.store = v.store := Q.store
  have huses : c.Uses a.addr := Or.inr (Change.obj_eq hnew)
  have hat : ∀ p j, v.At p j → t.At p j := fun p j => C.at_mono K.inv
  have hdead : k < v.sb.inodesCount → (v.store k).inodeNo = 0 := fun hk => by
    by_contra h0
    exact A.k_dead ⟨hk, h0⟩
  have hcount : v.sb.inodesCount ≤ t.sb.inodesCount := by rw [A.count]; exact le_max_left _ _
  have hother := A.store_other A.ne
  have hcoupled : Coupled (s, t) := by
    refine ⟨C.inv K.inv, K.count_le.trans hcount, fun j hj => ?_, fun p j hj hp => ?_, K.dentry,
      K.dentry_inj⟩
    · simp only at hj ⊢
      rw [hstore]
      rw [hsb] at hj
      by_cases hjk : j = k
      · rw [hjk] at hj ⊢
        exact Or.inr (hdead hj)
      · exact Or.inl (A.store_other hjk).1.symm
    · rcases C.at_cases K.inv hj with hj | ⟨rfl, -⟩
      · exact K.counted p j hj hp
      · exact absurd (hb.fresh hnew) hp
  constructor
  · refine ⟨hcoupled, le_rfl, fun p hp => ⟨rfl, C.inodes_ne ?_ ?_⟩, fun p hp => ⟨rfl, ?_⟩,
      fun p j hp => ⟨fun hj => ?_, hat p j⟩, fun p j hp hj => ⟨rfl, A.store_ne ?_ (A.live_ne hj.live)⟩,
      fun j hj => ?_, fun b hb => ⟨rfl, A.data b fun he => hb d C.at_dir he.symm⟩, fun j _ => ?_,
      fun hl => absurd hh hl, fun hl => absurd hh hl⟩
    · exact fun he => hp (Or.inl he)
    · exact fun he => hp (he ▸ huses)
    · simp only [C.dcache]
      exact Function.update_of_ne (fun he => hp (Or.inl he)) _ _
    · rcases C.at_cases K.inv hj with hj | ⟨rfl, -⟩
      · exact hj
      · exact absurd huses hp
    · rintro rfl
      exact hp (Or.inl (K.inv.at_inj _ _ _ hj C.at_dir))
    · obtain rfl := K.inv.at_fun hj C.at_dir
      exact ⟨hat _ _ hj, hother.2.2.1⟩
    · by_cases hjd : j = d
      · exact Or.inr ⟨c.dir, c.uses_dir, hjd ▸ hat _ _ C.at_dir⟩
      by_cases hjk : j = k
      · exact Or.inr ⟨a.addr, huses, hjk ▸ C.at_new⟩
      · exact Or.inl ((congrFun hstore j).trans (A.store_ne hjd hjk).symm)
  · refine ⟨hcoupled, hnew, hat _ _ C.at_dir, hother.2.2.1, C.at_new, A.ne, rfl, ?_, fun q hq hqd => ?_,
      fun j hjd hjk => (congrFun hstore j).trans (A.store_ne hjd hjk).symm,
      ⟨hsb, congrFun hstore d, congrFun hstore k, (Y.data d C.at_dir).symm, (Y.inode _ c.uses_dir).symm⟩,
      ⟨rfl, rfl, rfl, rfl, rfl⟩, hcount, ?_, hother.1.symm, fun hk => Or.inr (hdead hk), ?_⟩
    · have : v.dcache c.dir = s.dcache c.dir := Y.row_dir
      simp only [C.dcache, Function.update_self, this]
    · have : v.dcache q = s.dcache q := Y.row q hq hqd
      simp only [C.dcache, Function.update_of_ne hqd, this]
    · rw [C.at_dir.sfs, hother.1]
    · rw [C.inodes, Function.update_of_ne C.dir_ne, Function.update_self, Option.map_map]
      rfl

end

section
variable {m : ℕ} {a : NewInode} {n : Name} {mode : ℕ}

/-- What a create returns alone, from the state in which it takes effect. -/
theorem Holding.serial (Q : Holding c m x) {new : Option NewInode} (M : c.Makes new n mode)
    {r : Except Errno Unit} {t : Fs} (hr : (createFsObject new c.dir n mode).exec x.2 = (r, t)) :
    Change.Serial x.2 (c, r) t := ⟨Q.ready.allowed, by rw [M.prog, hr]⟩

/-- The call takes effect in the pair `y`, and `p` is what is left of it. -/
def Effect (c : Change) (p : FsProg (Except Errno Unit)) (h : Set Mutex) (y : Fs × Fs) : Prop :=
  ∃ e t, Change.Serial y.2 (c, e) t ∧ Guar c h y (y.1, t) ∧ Linear c p h (some e) (y.1, t)

/-- A create that has a slot and a block takes effect. -/
theorem Holding.effect_created {s v t : Fs} {d k r : ℕ} {z : SimplefsInode}
    {p : FsProg (Except Errno Unit)} (Q : Holding c m (s, v)) (hb : c.Busy s) (M : c.Makes (some a) n mode)
    (ht : (createFsObject (some a) c.dir n mode).exec v = (.ok (), t)) (C : Created v t a c.dir d k r n z)
    (hp : Runs c a d k (v.store d).dataBlockNumber n t v p (insert .childrenUpdate ∅)) :
    Effect c p (insert .childrenUpdate ∅) (s, v) := by
  obtain ⟨hguar, hmid⟩ := C.effect Q hb M.new_eq (Set.mem_insert _ _)
  exact ⟨.ok (), t, Q.serial M ht, hguar, hp _ hmid⟩

/-- A create that finds no free block takes effect: it fails. -/
theorem Holding.effect_noBlock {s v : Fs} {f : ℕ → FsProg (Except Errno Unit)} (Q : Holding c m (s, v))
    (M : c.Makes (some a) n mode) (hf : findFreeBlock v.sb.freeBlocks = none)
    (hexec : (createFsObject (some a) c.dir n mode).exec v = (.error .enospc, v)) :
    Effect c (sbGetAFreeblock >>= fun
      | .error e => mutexUnlock .childrenUpdate >>= fun _ => ret (.error e)
      | .ok blk => f blk) (insert .childrenUpdate ∅) (s, v) := by
  have hh : Mutex.childrenUpdate ∈ insert Mutex.childrenUpdate (∅ : Set Mutex) := Set.mem_insert _ _
  have hh' : Mutex.childrenUpdate ∈ insert Mutex.sb (insert Mutex.childrenUpdate ∅) :=
    Set.mem_insert_of_mem _ hh
  refine ⟨.error .enospc, v, Q.serial M hexec, protocol.guar_refl (Rely.refl Q.ready.coupled), ?_⟩
  simp only [sbGetAFreeblock, Prog.bind_assoc]
  refine Protocol.lin_lock fun y R _ => ?_
  have hsb : y.1.sb = v.sb := ((R.sb hh).1).trans Q.sb
  replace Q := Q.stable hh R
  simp only [Bool.false_eq_true, if_false, Prog.bind_assoc]
  refine Protocol.lin_reads fun z S _ => ?_
  replace Q := Q.stable hh' S
  rw [show findFreeBlock z.1.sb.freeBlocks = none by rw [(S.sb hh').1, hsb, hf]]
  simp only [Prog.bind_assoc, pure_def, ret_bind]
  exact Protocol.lin_unlock (by simp) fun w R =>
    ⟨fun he => absurd he (by decide), (Q.stable hh' R).lin_fail⟩

/-- `simplefs_create_fs_object` from the allocation of the in-memory inode on. -/
theorem Holding.lin_createBody (Q : Holding c m x) (M : c.Makes (some a) n mode)
    (hm : m < SIMPLEFS_MAX_FILESYSTEM_OBJECTS_SUPPORTED) :
    Linear c (createBody a c.dir n mode (m + SIMPLEFS_START_INO - SIMPLEFS_RESERVED_INODES + 1))
      (insert .childrenUpdate ∅) none x := by
  have hh : Mutex.childrenUpdate ∈ insert Mutex.childrenUpdate (∅ : Set Mutex) := Set.mem_insert _ _
  have hh' : Mutex.childrenUpdate ∈ insert Mutex.sb (insert Mutex.childrenUpdate ∅) :=
    Set.mem_insert_of_mem _ hh
  refine Protocol.lin_reads fun y R _ => ?_
  replace Q := Q.stable hh R
  obtain ⟨d, hd, hdir⟩ := Q.ready.at_dir
  rw [Q.ready.sfs, hd.sfs]
  simp only [getDeadInodeNo, Prog.bind_assoc]
  refine Protocol.lin_reads_effect fun z S hb => Or.inr ?_
  replace Q := Q.stable hh S
  rw [← (S.slot _ d c.uses_dir hd).2]
  replace hd := (S.at_iff _ d c.uses_dir).2 hd
  clear R S hdir
  obtain ⟨s, v⟩ := z
  have H : FsInv v := Q.ready.coupled.inv
  obtain ⟨hok, hkind⟩ := M.ok Q.ready.allowed
  obtain ⟨d', hd', may⟩ := hok.may H
  obtain rfl := H.at_fun hd hd'
  have may := may a rfl
  have hexec : (createFsObject (some a) c.dir n mode).exec v = (createBody a c.dir n mode
      (m + SIMPLEFS_START_INO - SIMPLEFS_RESERVED_INODES + 1)).exec v := by
    have hmode : (!S_ISDIR mode && !S_ISREG mode) = false := by
      rcases hkind with h | h <;> simp [h]
    have hc := Q.count
    simp only at hc
    rw [exec_createFsObject, hc, if_neg (by omega), hmode, if_neg (by simp)]
  rw [exec_createBody, hd.sfs] at hexec
  have hscan : (firstDead s.toImage).map (fun i => ((s.store i).deadInodeNo, (s.store i).dataBlockNumber)) =
      (firstDead v.toImage).map (fun i => ((v.store i).deadInodeNo, (v.store i).dataBlockNumber)) := by
    rw [firstDead, firstDead, Q.sb, Q.store]
  simp only [hscan, pure_def, ret_bind]
  cases hdead : firstDead v.toImage with
  | some k =>
    simp only [hdead] at hexec
    simp only [Option.map_some]
    obtain ⟨hkc, hk0, -⟩ := firstDead_some.1 hdead
    have hfind := H.findDead hkc hk0
    set z : SimplefsInode := { a.junk with
      inodeNo := (v.store k).deadInodeNo, mode := mode, size := 0
      dataBlockNumber := (v.store k).dataBlockNumber } with hz
    cases hr : firstTombstone (v.block d) (v.store d).dirChildrenCount with
    | some r =>
      obtain ⟨t, ht, C⟩ := H.create_same may (z := z) hdead hr rfl rfl hkind rfl
      simp only [Image.block] at hr
      simp only [hr] at hexec
      refine Q.effect_created hb M (hexec.trans ht) C
        (Runs.mark (Runs.tombstone (o := some r) hh (by rwa [hd.sfs]) ?_))
      exact Runs.createFinish C.added.store_k C.at_new.live.1 hfind ht (by simp)
    | none =>
      obtain ⟨t, ht, C⟩ := H.create_reuse may (z := z) hdead hr rfl rfl hkind rfl
      simp only [Image.block] at hr
      simp only [hr] at hexec
      refine Q.effect_created hb M (hexec.trans ht) C
        (Runs.mark (Runs.tombstone (o := none) hh (by rwa [hd.sfs]) ?_))
      refine Runs.createFinish C.added.store_k C.at_new.live.1 hfind ht fun _ => ?_
      have hadd : addSlot z true v = v.setSlot k z := by simp [addSlot, hz, hfind]
      rw [hadd]
      exact H.append_save _ n z.inodeNo hd C.added.ne (C.added.ino_ne hd.live).symm rfl rfl le_rfl
  | none =>
    simp only [hdead] at hexec
    simp only [Option.map_none]
    cases hf : findFreeBlock v.sb.freeBlocks with
    | none =>
      simp only [hf] at hexec
      exact Q.effect_noBlock M hf hexec
    | some b =>
      simp only [hf] at hexec
      have hcount : v.sb.inodesCount = m := Q.count
      obtain ⟨t, ht, C⟩ := H.create_fresh may (z := { a.junk with
        inodeNo := m + SIMPLEFS_START_INO - SIMPLEFS_RESERVED_INODES + 1
        mode := mode, size := 0, dataBlockNumber := b }) (by rwa [hcount]) hf
        (by rw [hcount]; exact fresh_ino m) rfl hkind rfl
      refine Q.effect_created hb M (hexec.trans ht) C ?_
      simp only [sbGetAFreeblock, Prog.bind_assoc]
      refine Runs.mark (Runs.lock hh ?_)
      simp only [Bool.false_eq_true, if_false, Prog.bind_assoc]
      refine Runs.reads (w := some b) hh' (fun y M => by rw [M.agree.sb, hf]) ?_
      simp only [Prog.bind_assoc, sbSync, pure_def, ret_bind]
      have hfree : (takeBlock b v).sb.inodesCount = v.sb.inodesCount := rfl
      have hk := C.at_new.live.1
      have hcount_le : v.sb.inodesCount ≤ t.sb.inodesCount := by omega
      refine Runs.setSb (F := fun q => { q with freeBlocks := q.freeBlocks &&& ~~~ oneShl b }) hh' le_rfl
        hcount_le (fun h => absurd h (lt_irrefl _)) (Runs.mark (Runs.sync (Runs.unlock hh (by simp) ?_)))
      refine Runs.createFinish C.added.store_k hk rfl ht fun _ => ?_
      exact H.append_save _ n _ hd C.added.ne (C.added.ino_ne hd.live).symm rfl rfl (Nat.le_succ _)

/-- **create and mkdir.** -/
theorem lin_create {new : Option NewInode} (Y : Ready c x) (M : c.Makes new n mode) :
    Linear c c.prog ∅ none x := by
  rw [M.prog, createFsObject]
  have hh : Mutex.childrenUpdate ∈ insert Mutex.childrenUpdate (∅ : Set Mutex) := Set.mem_insert _ _
  have hh' : Mutex.childrenUpdate ∈ insert Mutex.inodesMgmt (insert Mutex.childrenUpdate ∅) :=
    Set.mem_insert_of_mem _ hh
  have hl : Mutex.inodesMgmt ∉ insert Mutex.childrenUpdate (∅ : Set Mutex) := by simp
  refine Protocol.lin_lock fun y R F => ?_
  have Q := (Y.stable R).holding F
  generalize y.2.sb.inodesCount = m at Q
  simp only [Bool.false_eq_true, if_false, sbGetObjectsCount, Prog.bind_assoc]
  refine Protocol.lin_lock fun z R _ => ?_
  replace Q := Q.stable hh R
  simp only [Bool.false_eq_true, if_false, Prog.bind_assoc]
  refine Protocol.lin_reads_effect fun w R _ => ?_
  replace Q := Q.stable hh' R
  rw [Q.sb, Q.count]
  obtain ⟨-, hkind⟩ := M.ok Q.ready.allowed
  have hmode : (!S_ISDIR mode && !S_ISREG mode) = false := by
    rcases hkind with h | h <;> simp [h]
  have hguar := protocol.guar_refl (h := insert Mutex.inodesMgmt (insert Mutex.childrenUpdate ∅))
    (Rely.refl (c := c) Q.ready.coupled)
  have hexec := exec_createFsObject new c.dir n mode w.2
  simp only [Q.count, hmode] at hexec
  simp only [pure_def, ret_bind, hmode]
  by_cases hm : SIMPLEFS_MAX_FILESYSTEM_OBJECTS_SUPPORTED ≤ m
  · rw [if_pos hm] at hexec
    rw [if_pos hm]
    exact Or.inr ⟨_, _, Q.serial M hexec, hguar, Protocol.lin_unlock hl fun u R =>
      ⟨fun he => absurd he (by decide), (Q.stable hh' R).lin_fail⟩⟩
  · rw [if_neg hm] at hexec
    rw [if_neg hm]
    cases new with
    | none =>
      exact Or.inr ⟨_, _, Q.serial M hexec, hguar, Protocol.lin_unlock hl fun u R =>
        ⟨fun he => absurd he (by decide), (Q.stable hh' R).lin_fail⟩⟩
    | some a =>
      exact Or.inl (Protocol.lin_unlock hl fun u R =>
        ⟨fun he => absurd he (by decide), (Q.stable hh' R).lin_createBody M (by omega)⟩)


end

/-! ## Runs of several calls -/

theorem Synced.refl {s : Fs} (H : FsInv s) : Synced ∅ (s, s) := by
  refine ⟨⟨H, le_rfl, fun j _ => Or.inl rfl, fun p j hj _ => hj.live.1, fun d n p hp => ?_,
    fun d n d' n' p hp hp' => ?_⟩, fun _ _ => rfl, fun _ _ => rfl, fun _ => Or.inl rfl, fun _ _ => rfl⟩
  · obtain ⟨e, r, k, ⟨v, hv, hb⟩, ⟨w, hw, -⟩, he, -⟩ := H.dentry d n p hp
    refine ⟨(Option.any_eq_true _ _).2 ⟨v, hv, hb.isDir.trans he.dir.2⟩, ?_⟩
    show s.inodes p ≠ none
    rw [hw]
    exact Option.some_ne_none w
  · obtain ⟨e, r, k, hd, hk, he, -⟩ := H.dentry d n p hp
    obtain ⟨e', r', k', hd', hk', he', -⟩ := H.dentry d' n' p hp'
    obtain rfl := H.at_fun hk hk'
    obtain ⟨rfl, -⟩ := H.entry_inj e r e' r' k he he'
    exact H.at_inj _ _ _ hd hd'

/-- A call that begins is compatible with the ones running, and linear. -/
theorem Change.Starts.lin {s v : Fs} (S : Synced W (s, v)) (hb : ∀ d ∈ W, d.Busy s)
    (H : c.Starts s W) : c.Busy s ∧ (∀ d ∈ W, c.Compat d) ∧ Linear c c.prog ∅ none (s, v) := by
  have hcompat : ∀ d ∈ W, c.Compat d := fun d hd => H.compat S.coupled hd (hb d hd)
  have Y := H.ready S hcompat
  refine ⟨H.busy S.coupled, hcompat, ?_⟩
  cases c with
  | create => exact lin_create Y .create
  | mkdir => exact lin_create Y .mkdir
  | unlink => exact lin_unlink Y

/-- When no call is running the states are the same. -/
theorem Synced.eq {s v : Fs} (S : Synced ∅ (s, v)) (F : Free .childrenUpdate (s, v)) : s = v := by
  have hnone : ∀ {P : Change → Prop}, ∀ d ∈ (∅ : Set Change), P d := fun d hd =>
    absurd hd (Set.notMem_empty d)
  have hinodes : s.inodes = v.inodes := funext fun p => S.inode p hnone
  have hdcache : s.dcache = v.dcache := funext fun p => S.row p hnone
  have hdata : s.data = v.data := funext fun b => S.data b hnone
  obtain ⟨hsb, hstore⟩ := F rfl
  obtain ⟨⟨_, _, _⟩, _, _⟩ := s
  obtain ⟨⟨_, _, _⟩, _, _⟩ := v
  simp only at hinodes hdcache hdata hsb hstore
  subst hinodes hdcache hdata hsb hstore
  rfl

/-- **create, mkdir and unlink are serializable**, from any reachable state: when all calls have
    returned, what they returned and the whole state are as if they had been run one at a time in
    some order. -/
theorem changes_serializable {dev : Image} {junk : ℕ} {m s₀ s : Fs} {os : List (Op × Outcome)}
    {ts : List (Caller Fs Site Mutex ℕ (Except Errno Unit) Change)}
    (hm : fillSuper (mkfs dev junk) = .ok m) (h₀ : Run Op.Step m os s₀)
    (h : Relation.ReflTransGen (Interleave Site.mutex Change.prog Change.Starts) (s₀, []) (s, ts))
    (hdone : ∀ t ∈ ts, t.rest.done = true) :
    ∃ ls, ls.Perm (ts.filterMap Caller.result) ∧ Run Change.Serial s₀ ls s ∧ StoreOk s.toImage := by
  obtain ⟨ls, v, hperm, hrun, S, F⟩ := protocol.serializable (fun c s v W S hb H => H.lin S hb)
    (Synced.refl (reach_inv hm h₀)) (fun l _ => ⟨rfl, rfl⟩) h hdone
  obtain rfl := S.eq (F .childrenUpdate)
  exact ⟨ls, hperm, hrun, S.coupled.inv.toStoreInv.ok⟩

end

/-! ## Two creates -/

section

attribute [local instance] x86

/-- `"d"` -/
def nameD : Name := ⟨[100], by decide, by decide, by decide⟩

def mkdirD : Op := .mkdir (some ⟨2, default⟩) rootAddr nameD 0

/-- The state after `mkdir d`. -/
def madeD : Fs := (mkdirD.exec blankFs).2

theorem mkdirD_step : Op.Step blankFs (mkdirD, (mkdirD.exec blankFs).1) madeD where
  allowed := by
    refine ⟨⟨rfl, by decide, rfl, ?_, fun a ha => ?_⟩, rfl⟩
    · unfold Fs.Has
      decide
    · obtain rfl := Option.some.inj ha
      rfl
  inUse := trivial
  exec := rfl

/-- A new file `"a"` in the root directory. -/
def callA : Change := .create (some ⟨1, default⟩) rootAddr nameA S_IFREG

/-- A new file `"a"` in the directory `"d"`. -/
def callD : Change := .create (some ⟨3, default⟩) 2 nameA S_IFREG

theorem callA_starts : callA.Starts madeD ∅ where
  allowed := by
    refine ⟨⟨⟨by decide, by decide, by decide, ?_, fun a ha => ?_⟩, rfl⟩, trivial⟩
    · unfold Fs.Has
      decide
    · obtain rfl := Option.some.inj ha
      decide
  parent d hd := absurd hd (Set.notMem_empty d)
  fresh _ _ d hd := absurd hd (Set.notMem_empty d)

/-- The directories are not the same. -/
theorem callD_starts : callD.Starts madeD {callA} where
  allowed := by
    refine ⟨⟨⟨by decide, by decide, by decide, ?_, fun a ha => ?_⟩, rfl⟩, trivial⟩
    · unfold Fs.Has
      decide
    · obtain rfl := Option.some.inj ha
      decide
  parent d hd := hd ▸ (by decide : rootAddr ≠ 2)
  fresh a ha d hd := by
    obtain rfl := Option.some.inj ha
    exact hd ▸ (by decide : some 1 ≠ some 3)

/-- What the calls return, and the state in the end. -/
def ranA : Except Errno Unit × Fs := callA.prog.exec madeD

def ranD : Except Errno Unit × Fs := callD.prog.exec ranA.2

theorem held_none : {l | held false false false l = true} = ∅ := by
  ext l
  cases l <;> simp

/-- A create that runs while the others stand still returns without a mutex. -/
theorem returns_create (new : Option NewInode) (dir : ℕ) (x : Name) (mode : ℕ) (s : Fs) :
    ∃ h, (createFsObject new dir x mode).run Site.mutex (fun _ => false) s (held false false false) =
        some (((createFsObject new dir x mode).exec s).1, ((createFsObject new dir x mode).exec s).2, h) ∧
      {l | h l = true} = ∅ := by
  obtain ⟨r, t, h, hrun, hreleased⟩ := Disciplined.returns
    ((nested_createFsObject (fun _ => false) new dir x mode s).2 (by simp [Leaks]))
  rw [← run_exec hrun]
  exact ⟨h, hrun, Set.eq_empty_of_forall_notMem fun l hl => by simp [hreleased l] at hl⟩

/-- A step of the calls. -/
abbrev CallStep := Interleave Site.mutex Change.prog Change.Starts

/-- `callD` begins while `callA` holds `simplefs_directory_children_update_lock`, and waits for it. -/
theorem callA_callD : ∃ hA hD, Relation.ReflTransGen CallStep (madeD, [])
    (ranD.2, [⟨callD, .ret ranD.1, hD⟩, ⟨callA, .ret ranA.1, hA⟩]) := by
  obtain ⟨k, hk, hrest⟩ : ∃ k, callA.prog = .lock .createChildren k ∧ (k false).done = false :=
    ⟨_, rfl, rfl⟩
  obtain ⟨h, hrun, hnone⟩ := returns_create (some ⟨1, default⟩) rootAddr nameA S_IFREG madeD
  obtain ⟨h', hrun', -⟩ := returns_create (some ⟨3, default⟩) 2 nameA S_IFREG ranA.2
  have hlocked : {l | held true false false l = true} = insert Mutex.childrenUpdate ∅ := by
    ext l
    cases l <;> simp
  have hrunA : (k false).run Site.mutex (fun _ => false) madeD (held true false false) =
      some (ranA.1, ranA.2, h) := by
    replace hrun : callA.prog.run Site.mutex (fun _ => false) madeD (held false false false) =
        some (ranA.1, ranA.2, h) := hrun
    simpa [hk, Prog.run, Site.mutex] using hrun
  have hbeginA : CallStep (madeD, []) (madeD, [] ++ ⟨callA, callA.prog, ∅⟩ :: []) :=
    .begin (by simpa [Caller.active] using callA_starts)
  have hlockA : CallStep (madeD, [] ++ ⟨callA, callA.prog, ∅⟩ :: [])
      (madeD, [] ++ ⟨callA, k false, {l | held true false false l = true}⟩ :: []) := by
    rw [hk, hlocked]
    exact .run (.lock (by simp [Caller.held]) (Set.notMem_empty _))
  have hbeginD : CallStep (madeD, [⟨callA, k false, {l | held true false false l = true}⟩])
      (madeD, [⟨callD, callD.prog, ∅⟩] ++ ⟨callA, k false, {l | held true false false l = true}⟩ :: []) := by
    refine .begin ?_
    rw [Caller.active_cons, hrest, if_neg Bool.false_ne_true]
    simpa [Caller.active] using callD_starts
  have hrestA : Relation.ReflTransGen CallStep
      (madeD, [⟨callD, callD.prog, ∅⟩] ++ ⟨callA, k false, {l | held true false false l = true}⟩ :: [])
      (ranA.2, [⟨callD, callD.prog, ∅⟩] ++ ⟨callA, .ret ranA.1, {l | h l = true}⟩ :: []) :=
    Interleave.alone (by simp [Caller.held]) callA hrunA
  have hrunD : Relation.ReflTransGen CallStep
      (ranA.2, [] ++ ⟨callD, callD.prog, {l | held false false false l = true}⟩ ::
        [⟨callA, .ret ranA.1, {l | h l = true}⟩])
      (ranD.2, [] ++ ⟨callD, .ret ranD.1, {l | h' l = true}⟩ :: [⟨callA, .ret ranA.1, {l | h l = true}⟩]) :=
    Interleave.alone (by simp [Caller.held, hnone]) callD hrun'
  rw [held_none] at hrunD
  exact ⟨_, _, .head hbeginA (.head hlockA (.head hbeginD (hrestA.trans hrunD)))⟩

theorem changes_serializable_callA_callD : ∃ ls : List (Change × Except Errno Unit),
    ls.Perm [(callD, .ok ()), (callA, .ok ())] ∧ Run Change.Serial madeD ls ranD.2 ∧
      StoreOk ranD.2.toImage := by
  obtain ⟨hA, hD, h⟩ := callA_callD
  exact changes_serializable blankFs_mount (.single mkdirD_step) h (by simp [Prog.done])

end

end Simplefs
