/-
  simplefs — operations with interrupted lock attempts.

  `run_createFsObject`, ...: the outcome of each function for every choice of
  interrupted attempts; `none` is a run that waits for a mutex it holds itself.
  The state is that of the atomic updates done before the interruption.
-/
import KernelLinux.Simplefs.Locks
import KernelLinux.Simplefs.Reach

namespace Simplefs

open Bytes Prog

section
variable (intr : Site → Bool)

theorem run_inodeSave (p : ℕ) (s : Fs) (c i : Bool) :
    (inodeSave p).run Site.mutex intr s (held c i false) =
      if intr .saveSb then some (.error .eintr, s, held c i false)
      else some ((match inodeSearch s.toImage (s.sfs p) with
        | some _ => .ok ()
        | none => .error .eio), saveSlot p s, held c i false) := by
  unfold inodeSave
  simp only [run_bind, run_mutexLockInterruptible]
  by_cases h : intr .saveSb = true
  · simp [h]
  · simp only [h, Bool.false_eq_true, if_false, Site.mutex, held_sb, update_sb, Option.bind_some,
      run_bind, run_step]
    cases inodeSearch s.toImage (s.sfs p) <;> simp [run_bind]

theorem run_inodeAdd (z : SimplefsInode) (exist : Bool) (s : Fs) (c : Bool) :
    (inodeAdd z exist).run Site.mutex intr s (held c false false) =
      if intr .addMgmt then some ((), s, held c false false)
      else if intr .addSb then some ((), s, held c true false)
      else some ((), addSlot z exist s, held c false false) := by
  unfold inodeAdd
  simp only [run_bind, run_mutexLockInterruptible]
  by_cases h1 : intr .addMgmt = true
  · simp [h1]
  by_cases h2 : intr .addSb = true
  · simp [h1, h2, run_bind, Site.mutex]
  · cases exist with
    | false => simp [h1, h2, run_bind, Site.mutex, sbSync, addSlot]
    | true =>
      cases hdead : findDead s.toImage z.inodeNo <;>
        simp [h1, h2, run_bind, Site.mutex, addSlot, hdead]

theorem run_sbGetAFreeblock [Target] (s : Fs) (c i : Bool) :
    sbGetAFreeblock.run Site.mutex intr s (held c i false) =
      if intr .freeblock then some (.error .eintr, s, held c i false)
      else some ((sbGetAFreeblock.exec s).1, (sbGetAFreeblock.exec s).2, held c i false) := by
  rw [exec_sbGetAFreeblock]
  unfold sbGetAFreeblock
  simp only [run_bind, run_mutexLockInterruptible]
  by_cases h : intr .freeblock = true
  · simp [h, run_bind]
  · simp only [h, Bool.false_eq_true, if_false, Site.mutex, held_sb, update_sb, Option.bind_some,
      run_bind, run_reads]
    cases findFreeBlock s.sb.freeBlocks <;> simp [run_bind, sbSync, takeBlock]

theorem run_createCommit_same (a : NewInode) (dir blk : ℕ) (x : Name) (z : SimplefsInode) (s : Fs)
    (m : Bool) : (createCommit a dir blk x z false).run Site.mutex intr s (held true m false) =
      if intr .createMgmt then some (.error .eintr, s, held false m false)
      else if m then none
      else some (.ok (), s.dAdd dir x a.addr ⟨z.inodeNo, z.mode, some z⟩,
        held false false false) := by
  unfold createCommit
  cases m <;> by_cases h : intr .createMgmt = true <;> simp [h, run_bind, Site.mutex]

theorem run_createCommit_append (a : NewInode) (dir blk : ℕ) (x : Name) (z : SimplefsInode) (s : Fs)
    (m : Bool) : (createCommit a dir blk x z true).run Site.mutex intr s (held true m false) =
      let u := s.setBlock blk fun b => appendRecord b (s.sfs dir).dirChildrenCount x z.inodeNo
      let t := appendName dir blk x z.inodeNo s
      if intr .createMgmt then some (.error .eintr, u, held false m false)
      else if m then none
      else if intr .saveSb then some (.error .eintr, t, held false false false)
      else match inodeSearch t.toImage (t.sfs dir) with
        | some _ => some (.ok (), (saveSlot dir t).dAdd dir x a.addr ⟨z.inodeNo, z.mode, some z⟩,
            held false false false)
        | none => some (.error .eio, saveSlot dir t, held false false false) := by
  have happ : (s.setBlock blk fun b => appendRecord b (s.sfs dir).dirChildrenCount x
      z.inodeNo).setSfs dir (fun y => { y with size := y.dirChildrenCount + 1 }) =
      appendName dir blk x z.inodeNo s := rfl
  unfold createCommit
  by_cases h : intr .createMgmt = true
  · cases m <;> simp [h, run_bind]
  cases m with
  | true => simp [h, run_bind, Site.mutex]
  | false =>
    by_cases h' : intr .saveSb = true
    · simp [h, h', run_bind, Site.mutex, run_inodeSave, happ]
    · simp only [h, h', run_bind, Site.mutex, run_inodeSave, happ, if_true, run_modify,
        Option.bind_some, run_markBufferDirty, run_syncDirtyBuffer, run_mutexLockInterruptible,
        Bool.false_eq_true, if_false, held_inodesMgmt, update_inodesMgmt]
      cases inodeSearch (appendName dir blk x z.inodeNo s).toImage _ <;> simp [run_bind]

/-- The outcomes of the rest of create: not added to the inode store if `simplefs_inode_add` is
    interrupted, and stuck if that happened on the second mutex. -/
theorem run_createFinish (a : NewInode) (dir blk : ℕ) (x : Name) (z : SimplefsInode)
    (exist samedir : Bool) (s : Fs) :
    (createFinish a dir blk x z exist samedir).run Site.mutex intr s (held true false false) =
      (createCommit a dir blk x z (!exist || !samedir)).run Site.mutex intr
        (if intr .addMgmt || intr .addSb then s else addSlot z exist s)
        (held true (!intr .addMgmt && intr .addSb) false) := by
  unfold createFinish
  rw [run_bind, run_inodeAdd]
  cases intr .addMgmt <;> cases intr .addSb <;> simp

end

/-! ## All or nothing -/

/-- The superblock, the inode store and the counted records of the parent are as before. -/
structure Unchanged (s s' : Fs) (dir d : ℕ) : Prop where
  sb : s'.sb = s.sb
  store : s'.store = s.store
  records : ∀ o < recSize * (s.store d).dirChildrenCount,
    s'.data (s.store d).dataBlockNumber o = s.data (s.store d).dataBlockNumber o
  count : (s'.sfs dir).dirChildrenCount = (s.sfs dir).dirChildrenCount

/-- The number of records of the directory `e`; that of the parent `d` is in its inode at `dir`. -/
def Fs.children (s : Fs) (dir d e : ℕ) : ℕ :=
  if e = d then (s.sfs dir).dirChildrenCount else (s.store e).dirChildrenCount

/-- Record `r` of the directory `e` names the live slot `k`. -/
structure Names (s : Fs) (dir d e r k : ℕ) : Prop where
  liveDir : s.LiveDir e
  counted : r < s.children dir d e
  live : s.Live k
  ino : recIno (s.block e) r = (s.store k).inodeNo

/-- Records with a number name live slots, and live slots but the root are named. -/
structure Matched (s : Fs) (dir d : ℕ) : Prop where
  record : ∀ e r, s.LiveDir e → r < s.children dir d e → recIno (s.block e) r ≠ 0 →
    ∃ k, Names s dir d e r k
  slot : ∀ k, s.Live k → k ≠ 0 → ∃ e r, Names s dir d e r k

theorem Unchanged.refl (s : Fs) (dir d : ℕ) : Unchanged s s dir d :=
  ⟨rfl, rfl, fun _ _ => rfl, rfl⟩

theorem Fs.children_at {s : Fs} {dir d : ℕ} (h : s.At dir d) (e : ℕ) :
    s.children dir d e = (s.store e).dirChildrenCount := by
  unfold children
  split_ifs with he
  · rw [h.sfs, he]
  · rfl

theorem names_iff {s : Fs} {dir d : ℕ} (h : s.At dir d) {e r k : ℕ} :
    Names s dir d e r k ↔ s.Entry e r k := by
  constructor
  · rintro ⟨h1, h2, h3, h4⟩
    rw [Fs.children_at h] at h2
    exact ⟨h1, h2, h3, h4⟩
  · rintro ⟨h1, h2, h3, h4⟩
    exact ⟨h1, by rw [Fs.children_at h]; exact h2, h3, h4⟩

theorem FsInv.matched [Target] {s : Fs} (H : FsInv s) {dir d : ℕ} (h : s.At dir d) :
    Matched s dir d where
  record e r he hr hne := by
    rw [Fs.children_at h] at hr
    obtain ⟨k, hk⟩ := H.names_live e r he hr hne
    exact ⟨k, (names_iff h).2 hk⟩
  slot k hk h0 := by
    obtain ⟨p, hp⟩ := H.walk k hk
    cases hp with
    | root => exact absurd rfl h0
    | step _ he _ => exact ⟨_, _, (names_iff h).2 he⟩

/-- A return of create or mkdir is all or nothing. -/
structure CreateReturn (s s' : Fs) (dir d : ℕ) (x : Name) (r : Except Errno Unit) : Prop where
  failed : ∀ e, r = .error e → Unchanged s s' dir d
  done : r = .ok () → ∃ i k, Names s' dir d d i k ∧ recIs (s'.block d) i x = true
  matched : Matched s' dir d

/-- A return of unlink of the file in slot `k` is all or nothing. -/
structure UnlinkReturn (s s' : Fs) (dir d k : ℕ) (r : Except Errno Unit) : Prop where
  done : r = .ok () → (s'.store k).inodeNo = 0 ∧ ∀ i, s.Entry d i k → recIno (s'.block d) i = 0
  matched : Matched s' dir d

section
variable [Target] {s s' : Fs} {dir d : ℕ} {a : NewInode} {x : Name}

/-- A call that changes nothing and fails. -/
theorem FsInv.return_same (H : FsInv s) (h : s.At dir d) (e : Errno) :
    CreateReturn s s dir d x (.error e) :=
  ⟨fun _ _ => Unchanged.refl s dir d, fun h => by simp at h, H.matched h⟩

/-- A call that does what create does when it is not interrupted. -/
theorem Created.return {k r : ℕ} {z : SimplefsInode} (C : Created s s' a dir d k r x z)
    (H : FsInv s) : CreateReturn s s' dir d x (.ok ()) := by
  have hat := C.at_mono H C.at_dir
  refine ⟨fun e h => by simp at h, fun _ => ⟨r, k, (names_iff hat).2 C.added.entry_new, ?_⟩,
    (C.inv H).matched hat⟩
  exact C.added.recIs_new.2 rfl

omit [Target] in
/-- A record with the new name whose number no live slot has: the call must not return 0. -/
theorem MayCreate.not_done (M : MayCreate s dir d a x) {r n : ℕ}
    (hrec : RecordSet (s.block d) (s'.block d) r x n) (hr : r ≤ (s.store d).dirChildrenCount)
    (hlive : ∀ k, s'.Live k → s.Live k ∧ (s'.store k).inodeNo = (s.store k).inodeNo)
    (hn : ∀ k, s.Live k → (s.store k).inodeNo ≠ n)
    (hcount : s'.children dir d d ≤ max (s.store d).dirChildrenCount (r + 1)) :
    ¬ CreateReturn s s' dir d x (.ok ()) := by
  intro h
  obtain ⟨i, k, hk, hx⟩ := h.done rfl
  obtain ⟨hl, hino⟩ := hlive k hk.live
  by_cases hi : i = r
  · subst hi
    exact hn k hl (hino.symm.trans (hk.ino.symm.trans hrec.ino))
  · have hlt := hk.counted
    have he : s.Entry d i k := by
      refine ⟨M.liveDir, by omega, hl, ?_⟩
      rw [← hrec.ino_ne i hi, hk.ino, hino]
    rw [hrec.name_ne i x hi M.short, M.new i k he] at hx
    simp at hx

omit [Target] in
theorem MayCreate.dir_ne (M : MayCreate s dir d a x) : dir ≠ a.addr := by
  rintro rfl
  obtain ⟨v, hv, -⟩ := M.at_dir
  rw [M.fresh] at hv
  simp at hv

/-- The number of a dead slot is not that of a live one. -/
theorem FsInv.dead_ino_ne (H : FsInv s) {k : ℕ} (hk : k < s.sb.inodesCount)
    (h0 : (s.store k).inodeNo = 0) : ∀ j, s.Live j → (s.store j).inodeNo ≠ (s.store k).deadInodeNo := by
  intro j hj h
  have hnum : (s.store j).number = (s.store k).number := by
    rw [hj.number, h, SimplefsInode.number_dead h0]
  exact hj.2 (H.number_inj j hj.1 k hk hnum ▸ h0)

variable (intr : Site → Bool)

/-- A tombstone of the directory is filled before anything can be interrupted. -/
theorem FsInv.create_same_iff (H : FsInv s) (M : MayCreate s dir d a x) {k r : ℕ}
    {z : SimplefsInode} (hk : firstDead s.toImage = some k)
    (hr : firstTombstone (s.block d) (s.store d).dirChildrenCount = some r)
    (hz : z.inodeNo = (s.store k).deadInodeNo)
    (hb : z.dataBlockNumber = (s.store k).dataBlockNumber)
    (hkind : S_ISDIR z.mode = true ∨ S_ISREG z.mode = true) (hsize : z.size = 0) :
    Returns (fun r s' => CreateReturn s s' dir d x r)
        ((createFinish a dir (s.store d).dataBlockNumber x z true true).run Site.mutex intr
          (s.setBlock (s.store d).dataBlockNumber fun c => reuseRecord c r x z.inodeNo)
          (held true false false)) ↔
      intr .addMgmt = false ∧ intr .createMgmt = false := by
  obtain ⟨hkc, hk0, -⟩ := firstDead_some.1 hk
  obtain ⟨hrlt, hr0⟩ := firstTombstone_some hr
  have hnum : (s.store k).number = z.inodeNo := (SimplefsInode.number_dead hk0).trans hz.symm
  have hspec := reuseRecord_spec (s.block d) r M.short (hnum ▸ H.number_lt_word hkc)
  have hdata : ∀ s' : Fs, s'.data = Function.update s.data (s.store d).dataBlockNumber
      (reuseRecord (s.block d) r x z.inodeNo) →
      RecordSet (s.block d) (s'.data (s.store d).dataBlockNumber) r x z.inodeNo := by
    rintro s' h
    rw [h, Function.update_self]
    exact hspec
  rw [run_createFinish]
  simp only [Bool.not_true, Bool.or_self, run_createCommit_same]
  set u := s.setBlock (s.store d).dataBlockNumber fun c => reuseRecord c r x z.inodeNo with hu
  cases hc : intr .createMgmt with
  | true =>
    -- the record is in use already
    simp only [if_true, returns_some, Bool.true_eq_false, and_false, iff_false]
    intro h
    have hblk : ∀ c : Bool, (if c = true then u else addSlot z true u).data = u.data := by
      intro c
      cases c
      · exact addSlot_data z true u
      · rfl
    have hino := (hdata _ (hblk (intr .addMgmt || intr .addSb))).ino
    refine H.number_ne k hkc (hnum.trans (hino.symm.trans ?_))
    rw [← hr0]
    refine congrArg leNat (Block.read_congr fun i hi => (h.failed _ rfl).records _ ?_)
    simp only [recInoOff, recSize]
    omega
  | false =>
    cases hm : intr .addMgmt with
    | true =>
      simp only [Bool.true_or, if_true, Bool.not_true, Bool.false_and, Bool.false_eq_true, if_false,
        returns_some, Bool.true_eq_false, false_and, iff_false]
      refine M.not_done (r := r) (n := z.inodeNo) (hdata _ rfl) hrlt.le (fun j hj => ⟨hj, rfl⟩) ?_ ?_
      · rw [hz]
        exact H.dead_ino_ne hkc hk0
      · rw [Fs.children, if_pos rfl, Fs.dAdd_sfs_ne _ _ _ _ M.dir_ne, hu, Fs.setBlock_sfs, M.at_dir.sfs]
        exact le_max_left _ _
    | false =>
      cases hs : intr .addSb with
      | true => simp
      | false =>
        obtain ⟨s', hs', C⟩ := H.create_same M hk hr hz hb hkind hsize
        rw [exec_createFinish_same] at hs'
        obtain ⟨-, rfl⟩ := Prod.mk.inj hs'
        simpa using C.return H

section
variable {n : ℕ} {u : Fs} (H : FsInv s) (M : MayCreate s dir d a x)
  (hsb : u.sb.inodesCount = s.sb.inodesCount) (hstore : u.store = s.store) (hinodes : u.inodes = s.inodes)
include M hinodes

omit [Target] in
/-- A failing `simplefs_inode_save` leaves the new count in the parent's inode. -/
theorem MayCreate.append_not_failed (blk : ℕ) :
    ¬ CreateReturn s (appendName dir blk x n u) dir d x (.error .eintr) := by
  intro h
  have hcount := (h.failed _ rfl).count
  rw [appendName_sfs blk x n M.at_dir hinodes, M.at_dir.sfs] at hcount
  simp only [SimplefsInode.dirChildrenCount] at hcount
  omega

include H hsb hstore

/-- The parent's inode is saved in its slot. -/
theorem FsInv.append_saved (blk : ℕ) :
    inodeSearch (appendName dir blk x n u).toImage ((appendName dir blk x n u).sfs dir) = some d ∧
      saveSlot dir (appendName dir blk x n u) = (appendName dir blk x n u).setSlot d
        { s.store d with size := (s.store d).dirChildrenCount + 1 } := by
  have hsfs := appendName_sfs blk x n M.at_dir hinodes
  have hnum : SimplefsInode.number { s.store d with size := (s.store d).dirChildrenCount + 1 } =
      (s.store d).inodeNo :=
    SimplefsInode.number_live (z := { s.store d with size := _ }) M.at_dir.live.2
  have hsearch : inodeSearch (appendName dir blk x n u).toImage
      ((appendName dir blk x n u).sfs dir) = some d := by
    have := H.search_live M.at_dir.live hnum
    rwa [hsfs, inodeSearch, show (appendName dir blk x n u).store = s.store from hstore,
      show (appendName dir blk x n u).sb.inodesCount = s.sb.inodesCount from hsb]
  refine ⟨hsearch, ?_⟩
  unfold saveSlot
  rw [hsearch, hsfs]

omit H [Target] in
/-- The name is there, but no object with its number. -/
theorem MayCreate.append_not_done (hdata : u.data = s.data) (hlt : n < 2 ^ 64)
    (hn : ∀ j, s.Live j → (s.store j).inodeNo ≠ n) (v : Inode) :
    ¬ CreateReturn s (((appendName dir (s.store d).dataBlockNumber x n u).setSlot d
      { s.store d with size := (s.store d).dirChildrenCount + 1 }).dAdd dir x a.addr v)
      dir d x (.ok ()) := by
  set blk := (s.store d).dataBlockNumber with hblk
  set w := ((appendName dir blk x n u).setSlot d
    { s.store d with size := (s.store d).dirChildrenCount + 1 }).dAdd dir x a.addr v with hw
  have hwd : w.store d = { s.store d with size := (s.store d).dirChildrenCount + 1 } :=
    Function.update_self _ _ _
  have hws : ∀ j, (w.store j).inodeNo = (s.store j).inodeNo := by
    intro j
    by_cases hj : j = d
    · rw [hj, hwd]
    · rw [← hstore]
      exact congrArg _ (Function.update_of_ne hj _ _)
  have hblock : w.block d = appendRecord (s.block d) (s.store d).dirChildrenCount x n := by
    have husfs : u.sfs dir = s.store d := by
      rw [← M.at_dir.sfs, Fs.sfs, hinodes, Fs.sfs]
    rw [Image.block, hwd]
    show Function.update u.data blk (appendRecord (u.data blk) (u.sfs dir).dirChildrenCount x n) blk = _
    rw [Function.update_self, husfs, hdata]
    rfl
  refine M.not_done (n := n) ?_ le_rfl (fun j hj => ⟨⟨hsb ▸ hj.1, hws j ▸ hj.2⟩, hws j⟩) hn ?_
  · rw [hblock]
    exact appendRecord_spec _ _ M.short hlt
  · rw [Fs.children, if_pos rfl, Fs.dAdd_sfs_ne _ _ _ _ M.dir_ne, Fs.setSlot_sfs,
      appendName_sfs blk x n M.at_dir hinodes]
    exact le_max_right _ _

end

/-- The two paths that append a record, if the parent's inode is reached. -/
theorem FsInv.create_append_iff (H : FsInv s) (M : MayCreate s dir d a x) {k : ℕ}
    {z : SimplefsInode} (exist : Bool) {u : Fs} (hsb : u.sb.inodesCount = s.sb.inodesCount)
    (hstore : u.store = s.store) (hdata : u.data = s.data) (hinodes : u.inodes = s.inodes)
    (hlt : z.inodeNo < 2 ^ 64) (hn : ∀ j, s.Live j → (s.store j).inodeNo ≠ z.inodeNo)
    (hC : ∃ s', (createFinish a dir (s.store d).dataBlockNumber x z exist false).exec u =
      (.ok (), s') ∧ Created s s' a dir d k (s.store d).size x z)
    (hc : intr .createMgmt = false) :
    Returns (fun r s' => CreateReturn s s' dir d x r)
        ((createFinish a dir (s.store d).dataBlockNumber x z exist false).run Site.mutex intr u
          (held true false false)) ↔
      intr .addMgmt = false ∧ (intr .addSb = true ∨ intr .saveSb = false) := by
  rw [run_createFinish]
  simp only [Bool.not_false, Bool.or_true, run_createCommit_append, hc, Bool.false_eq_true, if_false]
  cases hm : intr .addMgmt with
  | true =>
    simp only [Bool.true_or, if_true, Bool.not_true, Bool.false_and, Bool.false_eq_true, if_false,
      Bool.true_eq_false, false_and, iff_false]
    by_cases hs : intr .saveSb = true
    · simp only [hs, if_true, returns_some]
      exact M.append_not_failed hinodes _
    · obtain ⟨hsearch, hsaved⟩ := H.append_saved M hsb hstore hinodes (n := z.inodeNo)
        (s.store d).dataBlockNumber
      simp only [hs, hsearch, hsaved, returns_some, Bool.false_eq_true, if_false]
      exact M.append_not_done hsb hstore hinodes hdata hlt hn _
  | false =>
    cases hb : intr .addSb with
    | true => simp
    | false =>
      by_cases hs : intr .saveSb = true
      · simp only [hs, Bool.or_self, Bool.false_eq_true, if_false, Bool.not_false, Bool.and_false,
          if_true, returns_some, true_and, Bool.true_eq_false, or_self, iff_false]
        exact M.append_not_failed ((addSlot_inodes z exist u).trans hinodes) _
      · obtain ⟨s', hs', C⟩ := hC
        rw [exec_createFinish_append] at hs'
        dsimp only at hs'
        simp only [hs, Bool.or_self, Bool.false_eq_true, if_false, Bool.not_false, Bool.and_false,
          true_and, false_or, iff_true]
        generalize appendName dir (s.store d).dataBlockNumber x z.inodeNo (addSlot z exist u) = t at hs' ⊢
        -- the call returned, so the parent's inode was found
        obtain ⟨j, hj⟩ : ∃ j, inodeSearch t.toImage (t.sfs dir) = some j := by
          cases hj : inodeSearch t.toImage (t.sfs dir) with
          | some j => exact ⟨j, rfl⟩
          | none =>
            rw [hj] at hs'
            cases hs'
        rw [hj] at hs' ⊢
        cases hs'
        exact (returns_some _ _ _ _).2 (C.return H)

omit [Target] in
/-- A record past the counted ones does not matter. -/
theorem Matched.append {blk n : ℕ} (h : Matched s dir d) (hd : s.At dir d) (hx : x.Short)
    (hlt : n < 2 ^ 64) (hblk : ∀ e, s.LiveDir e → (s.store e).dataBlockNumber = blk → e = d) :
    Matched (s.setBlock blk fun b => appendRecord b (s.sfs dir).dirChildrenCount x n) dir d := by
  set u := s.setBlock blk fun b => appendRecord b (s.sfs dir).dirChildrenCount x n with hu
  have hino : ∀ e r, s.LiveDir e → r < s.children dir d e →
      recIno (u.block e) r = recIno (s.block e) r := by
    intro e r he hr
    by_cases hb : (s.store e).dataBlockNumber = blk
    · obtain rfl := hblk e he hb
      rw [Fs.children, if_pos rfl] at hr
      have : u.block e = appendRecord (s.block e) (s.sfs dir).dirChildrenCount x n := by
        rw [Image.block, Image.block, hb, show (u.store e).dataBlockNumber = blk from hb]
        exact Function.update_self (f := s.data) _ _
      rw [this]
      exact (appendRecord_spec _ _ hx hlt).ino_ne r hr.ne
    · exact congrArg (recIno · r) (Function.update_of_ne hb _ _)
  constructor
  · intro e r he hr hne
    obtain ⟨k, hk⟩ := h.record e r he hr (hino e r he hr ▸ hne)
    exact ⟨k, hk.liveDir, hk.counted, hk.live, (hino e r he hr).trans hk.ino⟩
  · intro k hk h0
    obtain ⟨e, r, he⟩ := h.slot k hk h0
    exact ⟨e, r, he.liveDir, he.counted, he.live, (hino e r he.liveDir he.counted).trans he.ino⟩

/-- A dead slot is reused, in a directory without tombstone. -/
theorem FsInv.create_reuse_iff (H : FsInv s) (M : MayCreate s dir d a x) {k : ℕ}
    {z : SimplefsInode} (hk : firstDead s.toImage = some k)
    (hr : firstTombstone (s.block d) (s.store d).dirChildrenCount = none)
    (hz : z.inodeNo = (s.store k).deadInodeNo)
    (hb : z.dataBlockNumber = (s.store k).dataBlockNumber)
    (hkind : S_ISDIR z.mode = true ∨ S_ISREG z.mode = true) (hsize : z.size = 0) :
    Returns (fun r s' => CreateReturn s s' dir d x r)
        ((createFinish a dir (s.store d).dataBlockNumber x z true false).run Site.mutex intr s
          (held true false false)) ↔
      if intr .createMgmt then intr .addMgmt = true ∨ intr .addSb = true
      else intr .addMgmt = false ∧ (intr .addSb = true ∨ intr .saveSb = false) := by
  obtain ⟨hkc, hk0, -⟩ := firstDead_some.1 hk
  have hnum : (s.store k).number = z.inodeNo := (SimplefsInode.number_dead hk0).trans hz.symm
  have hlt : z.inodeNo < 2 ^ 64 := hnum ▸ H.number_lt_word hkc
  cases hc : intr .createMgmt with
  | false =>
    simp only [Bool.false_eq_true, if_false]
    exact H.create_append_iff intr M true rfl rfl rfl rfl hlt (hz ▸ H.dead_ino_ne hkc hk0)
      (H.create_reuse M hk hr hz hb hkind hsize) hc
  | true =>
    rw [run_createFinish]
    simp only [Bool.not_true, Bool.false_or, Bool.not_false, run_createCommit_append, hc, if_true,
      returns_some, ← Bool.or_eq_true]
    cases hadd : intr .addMgmt || intr .addSb with
    | true =>
      refine iff_of_true ⟨fun _ _ => ⟨rfl, rfl, fun o ho => ?_, rfl⟩, fun h => by simp at h, ?_⟩ rfl
      · show Function.update s.data (s.store d).dataBlockNumber _ _ o = _
        rw [Function.update_self, if_pos rfl, M.at_dir.sfs]
        exact appendRecord_before ho
      · exact (H.matched M.at_dir).append M.at_dir M.short hlt fun e he h =>
          H.block_inj e he.1.1 d M.at_dir.live.1 h
    | false =>
      -- the slot is in use already
      refine iff_of_false (fun h => H.number_ne k hkc ?_) (by simp)
      have hs := congrFun (h.failed _ rfl).store k
      have hadd : addSlot z true s = s.setSlot k z := by
        have := H.findDead hkc hk0
        simp [addSlot, hz, this]
      simp only [Bool.false_eq_true, if_false, hadd, Fs.setBlock_store] at hs
      rw [hnum, ← hk0, ← hs]
      exact congrArg _ (Function.update_self (f := s.store) _ _).symm

/-- A new slot is used. -/
theorem FsInv.create_fresh_iff (H : FsInv s) (M : MayCreate s dir d a x) {b : ℕ}
    {z : SimplefsInode} (hlt : s.sb.inodesCount < SIMPLEFS_MAX_FILESYSTEM_OBJECTS_SUPPORTED)
    (hb : findFreeBlock s.sb.freeBlocks = some b) (hz : z.inodeNo = s.sb.inodesCount + 8)
    (hzb : z.dataBlockNumber = b) (hkind : S_ISDIR z.mode = true ∨ S_ISREG z.mode = true)
    (hsize : z.size = 0) :
    Returns (fun r s' => CreateReturn s s' dir d x r)
        ((createFinish a dir (s.store d).dataBlockNumber x z false false).run Site.mutex intr
          (takeBlock b s) (held true false false)) ↔
      intr .createMgmt = false ∧ intr .addMgmt = false ∧
        (intr .addSb = true ∨ intr .saveSb = false) := by
  cases hc : intr .createMgmt with
  | false =>
    simp only [true_and]
    refine H.create_append_iff intr M false rfl rfl rfl rfl ?_ (fun j hj => ?_)
      (H.create_fresh M hlt hb hz hzb hkind hsize) hc
    · simp only [SIMPLEFS_MAX_FILESYSTEM_OBJECTS_SUPPORTED] at hlt
      omega
    · have := H.number_lt j hj.1
      rw [hj.number] at this
      omega
  | true =>
    rw [run_createFinish]
    simp only [Bool.not_false, Bool.or_true, run_createCommit_append, hc, if_true, returns_some]
    -- the block stays allocated
    refine iff_of_false (fun h => (findFreeBlock_some hb).2.2 ?_) (by simp)
    have hfree := congrArg SuperBlock.freeBlocks (h.failed _ rfl).sb
    have : s.sb.freeBlocks &&& ~~~ oneShl b = s.sb.freeBlocks := by
      refine Eq.trans ?_ hfree
      split_ifs <;> rfl
    rw [← this, BitVec.and_assoc]
    simp

/-! ## create and mkdir -/

omit [Target] in
theorem getDeadInodeNo_run (s : Fs) (h : Mutex → Bool) : getDeadInodeNo.run Site.mutex intr s h =
    some ((firstDead s.toImage).map fun i =>
      ((s.store i).deadInodeNo, (s.store i).dataBlockNumber), s, h) := rfl

theorem run_createBody (a : NewInode) (dir : ℕ) (x : Name) (mode ino : ℕ) (s : Fs) :
    (createBody a dir x mode ino).run Site.mutex intr s (held true false false) =
      let z := { a.junk with inodeNo := ino, mode := mode, size := 0 }
      let blk := (s.sfs dir).dataBlockNumber
      match firstDead s.toImage with
      | some k =>
        let n := (s.store k).deadInodeNo
        let z := { z with inodeNo := n, dataBlockNumber := (s.store k).dataBlockNumber }
        match firstTombstone (s.data blk) (s.sfs dir).dirChildrenCount with
        | some i => (createFinish a dir blk x z true true).run Site.mutex intr
            (s.setBlock blk fun c => reuseRecord c i x n) (held true false false)
        | none => (createFinish a dir blk x z true false).run Site.mutex intr s
            (held true false false)
      | none =>
        if intr .freeblock then some (.error .eintr, s, held false false false)
        else match findFreeBlock s.sb.freeBlocks with
        | none => some (.error .enospc, s, held false false false)
        | some b => (createFinish a dir blk x { z with dataBlockNumber := b } false false).run
            Site.mutex intr (takeBlock b s) (held true false false) := by
  simp only [createBody, run_bind, run_reads, Option.bind_some, getDeadInodeNo_run]
  cases firstDead s.toImage with
  | none =>
    simp only [Option.map_none, run_bind, run_sbGetAFreeblock, exec_sbGetAFreeblock]
    cases intr .freeblock
    · cases findFreeBlock s.sb.freeBlocks <;> simp [run_bind]
    · simp [run_bind]
  | some k =>
    simp only [Option.map_some, run_bind, run_step, Option.bind_some]
    cases firstTombstone (s.data (s.sfs dir).dataBlockNumber) (s.sfs dir).dirChildrenCount <;> rfl

theorem run_createFsObject_starts {dir : ℕ} {x : Name} {mode : ℕ} (h : Starts intr s (some a) mode) :
    (createFsObject (some a) dir x mode).run Site.mutex intr s (held false false false) =
      (createBody a dir x mode (s.sb.inodesCount + 8)).run Site.mutex intr s
        (held true false false) := by
  obtain ⟨h1, h2, h3, h4, -⟩ := h
  have hmode : (!S_ISDIR mode && !S_ISREG mode) = false := by
    rcases h4 with h | h <;> simp [h]
  have hc : ¬ SIMPLEFS_MAX_FILESYSTEM_OBJECTS_SUPPORTED ≤ s.sb.inodesCount := by omega
  rw [← fresh_ino]
  simp [createFsObject, sbGetObjectsCount, run_bind, h1, h2, hmode, hc, Site.mutex]

theorem run_createFsObject_refused {new : Option NewInode} {mode : ℕ}
    (dir : ℕ) (x : Name) (h : ¬ Starts intr s new mode) : ∃ e l,
      (createFsObject new dir x mode).run Site.mutex intr s (held false false false) =
        some (.error e, s, l) := by
  unfold createFsObject sbGetObjectsCount
  simp only [run_bind, run_mutexLockInterruptible]
  by_cases h1 : intr .createChildren = true
  · simp [h1]
  by_cases h2 : intr .objectsCount = true
  · simp [h1, h2, run_bind, Site.mutex]
  by_cases h3 : SIMPLEFS_MAX_FILESYSTEM_OBJECTS_SUPPORTED ≤ s.sb.inodesCount
  · simp [h1, h2, h3, run_bind, Site.mutex]
  cases h4 : (!S_ISDIR mode && !S_ISREG mode) with
  | true => simp [h1, h2, h3, run_bind, Site.mutex]
  | false =>
    cases new with
    | none => simp [h1, h2, h3, run_bind, Site.mutex]
    | some a =>
      refine absurd ⟨by simpa using h1, by simpa using h2, by omega, ?_, rfl⟩ h
      cases hd : S_ISDIR mode
      · right
        simpa [hd] using h4
      · exact Or.inl rfl

/-- The interruptions that leave create and mkdir all or nothing.  A call whose second lock
    attempt in `simplefs_inode_add` alone fails waits for a mutex it holds, and never returns. -/
def CreateSafe (s : Fs) (new : Option NewInode) (dir mode : ℕ) : Prop :=
  Starts intr s new mode →
    match firstDead s.toImage with
    | some _ =>
      match firstTombstone (s.data (s.sfs dir).dataBlockNumber) (s.sfs dir).dirChildrenCount with
      | some _ => intr .addMgmt = false ∧ intr .createMgmt = false
      | none =>
        if intr .createMgmt then intr .addMgmt = true ∨ intr .addSb = true
        else intr .addMgmt = false ∧ (intr .addSb = true ∨ intr .saveSb = false)
    | none =>
      intr .freeblock = true ∨ findFreeBlock s.sb.freeBlocks = none ∨
        intr .createMgmt = false ∧ intr .addMgmt = false ∧
          (intr .addSb = true ∨ intr .saveSb = false)

theorem FsInv.createFsObject_iff (H : FsInv s) (hd : s.At dir d) {new : Option NewInode}
    (M : ∀ a, new = some a → MayCreate s dir d a x) {mode : ℕ} :
    Returns (fun r s' => CreateReturn s s' dir d x r)
        ((createFsObject new dir x mode).run Site.mutex intr s (held false false false)) ↔
      CreateSafe intr s new dir mode := by
  by_cases hs : Starts intr s new mode
  swap
  · obtain ⟨e, l, he⟩ := run_createFsObject_refused intr dir x hs
    rw [he, returns_some]
    exact iff_of_true (H.return_same hd e) fun h => absurd h hs
  obtain ⟨a, rfl⟩ := Option.isSome_iff_exists.1 hs.2.2.2.2
  have M := M a rfl
  obtain ⟨-, -, hlt, hkind, -⟩ := id hs
  rw [run_createFsObject_starts intr hs, run_createBody, CreateSafe, imp_iff_right hs]
  simp only [hd.sfs]
  cases hk : firstDead s.toImage with
  | some k =>
    cases hr : firstTombstone (s.block d) (s.store d).dirChildrenCount with
    | some r =>
      have := H.create_same_iff intr M (z := { a.junk with
        inodeNo := (s.store k).deadInodeNo, mode := mode, size := 0
        dataBlockNumber := (s.store k).dataBlockNumber }) hk hr rfl rfl hkind rfl
      simp only [Image.block] at hr
      simp only [hr]
      exact this
    | none =>
      have := H.create_reuse_iff intr M (z := { a.junk with
        inodeNo := (s.store k).deadInodeNo, mode := mode, size := 0
        dataBlockNumber := (s.store k).dataBlockNumber }) hk hr rfl rfl hkind rfl
      simp only [Image.block] at hr
      simp only [hr]
      exact this
  | none =>
    cases hf : intr .freeblock with
    | true =>
      simp only [if_true, returns_some]
      exact iff_of_true (H.return_same hd _) (Or.inl trivial)
    | false =>
      cases hb : findFreeBlock s.sb.freeBlocks with
      | none =>
        simp only [Bool.false_eq_true, if_false, returns_some]
        exact iff_of_true (H.return_same hd _) (Or.inr (Or.inl trivial))
      | some b =>
        have := H.create_fresh_iff intr M (z := { a.junk with
          inodeNo := s.sb.inodesCount + 8, mode := mode, size := 0, dataBlockNumber := b }) hlt hb
          rfl rfl hkind rfl
        simpa using this

/-! ## unlink -/

omit [Target] in
/-- The dentry cache does not matter. -/
theorem Matched.of_dDelete (h : Matched (s.dDelete dir x) dir d) : Matched s dir d := by
  constructor
  · intro e r he hr hne
    obtain ⟨k, hk⟩ := h.record e r he hr hne
    exact ⟨k, hk.liveDir, hk.counted, hk.live, hk.ino⟩
  · intro k hk h0
    obtain ⟨e, r, he⟩ := h.slot k hk h0
    exact ⟨e, r, he.liveDir, he.counted, he.live, he.ino⟩

/-- An interrupted `simplefs_inode_save` goes unnoticed, and the slot stays live. -/
theorem FsInv.unlink_iff (H : FsInv s) {p k : ℕ} (hd : s.At dir d) (hk : s.At p k)
    (hp : s.dcache dir x = some p) (hreg : ∀ v, s.inodes p = some v → S_ISREG v.iMode = true) :
    Returns (fun r s' => UnlinkReturn s s' dir d k r)
        ((unlink dir p).run Site.mutex intr s (held false false false)) ↔
      intr .saveSb = false := by
  obtain ⟨d', k', r, s', hs', U⟩ := H.unlink_spec hp hreg
  obtain rfl := H.at_fun U.at_dir hd
  obtain rfl := H.at_fun U.at_file hk
  have hfind : findIno (s.data (s.store d').dataBlockNumber) (s.store d').dirChildrenCount
      ((s.inodes p).map Inode.iIno |>.getD 0) = some r := by
    obtain ⟨v, hv, hb⟩ := U.at_file
    rw [hv, Option.map_some, Option.getD_some, hb.ino]
    exact H.findIno_entry U.removed.entry
  rw [exec_unlink] at hs'
  simp only [hd.sfs, hfind, Prod.mk.injEq, true_and] at hs'
  simp only [unlink, run_bind, run_reads, hd.sfs, hfind, Option.bind_some, run_modify, run_inodeSave]
  cases intr .saveSb with
  | true =>
    simp only [if_true, Option.bind_some, run_markBufferDirty, run_syncDirtyBuffer, pure_def, run_ret,
      returns_some, Bool.true_eq_false, iff_false]
    exact fun h => hk.live.2 (h.done rfl).1
  | false =>
    simp only [Bool.false_eq_true, if_false, Option.bind_some, run_markBufferDirty,
      run_syncDirtyBuffer, pure_def, run_ret, returns_some, iff_true, hs']
    refine ⟨fun _ => ⟨?_, fun i hi => ?_⟩, ?_⟩
    · rw [show s'.store k' = _ from U.removed.store_k]
    · obtain ⟨-, rfl⟩ := H.entry_inj _ _ _ _ _ hi U.removed.entry
      rw [show s'.block d' = _ from U.removed.block_d, recIno_clearRecord]
    · refine ((U.inv H).matched ((U.at_iff H).2 ⟨U.at_dir, ?_⟩)).of_dDelete
      exact U.removed.not_dir U.removed.entry.dir

/-! ## The calls -/

/-- The call is all or nothing when the attempts in `intr` are interrupted, if it returns. -/
def Op.AllOrNothing (s : Fs) : Op → Prop
  | create new dir x mode => ∀ d, s.At dir d → Returns (fun r s' => CreateReturn s s' dir d x r)
      ((Simplefs.create new dir x mode).run Site.mutex intr s (held false false false))
  | mkdir new dir x mode => ∀ d, s.At dir d → Returns (fun r s' => CreateReturn s s' dir d x r)
      ((Simplefs.mkdir new dir x mode).run Site.mutex intr s (held false false false))
  | unlink dir x => ∀ p d k, s.dcache dir x = some p → s.At dir d → s.At p k →
      Returns (fun r s' => UnlinkReturn s s' dir d k r)
        ((Simplefs.unlink dir p).run Site.mutex intr s (held false false false))
  | write _ _ _ | read _ _ _ _ | lookup _ _ _ | evict _ | remount => True

def Op.Safe (s : Fs) : Op → Prop
  | create new dir _ mode => CreateSafe intr s new dir mode
  | mkdir new dir _ mode => CreateSafe intr s new dir (S_IFDIR ||| mode)
  | unlink _ _ => intr .saveSb = false
  | write _ _ _ | read _ _ _ _ | lookup _ _ _ | evict _ | remount => True

/-- **The interruptions under which create, mkdir and unlink are all or nothing.** -/
theorem all_or_nothing_iff (H : FsInv s) {op : Op} (h : op.Allowed s) :
    op.AllOrNothing intr s ↔ op.Safe intr s := by
  cases op with
  | create new dir x mode =>
    obtain ⟨d, hd, M⟩ := h.1.may H
    rw [Op.Safe, ← H.createFsObject_iff intr hd M]
    exact ⟨fun hr => hr d hd, fun hr d' hd' => H.at_fun hd hd' ▸ hr⟩
  | mkdir new dir x mode =>
    obtain ⟨d, hd, M⟩ := h.1.may H
    rw [Op.Safe, ← H.createFsObject_iff intr hd M]
    exact ⟨fun hr => hr d hd, fun hr d' hd' => H.at_fun hd hd' ▸ hr⟩
  | unlink dir x =>
    obtain ⟨p, hp, hreg⟩ := h
    have hreg' : ∀ v, s.inodes p = some v → S_ISREG v.iMode = true := by
      intro v hv
      rw [Fs.isReg, hv] at hreg
      exact hreg
    obtain ⟨d, -, k, hd, hk, -⟩ := H.dentry dir x p hp
    rw [Op.Safe, ← H.unlink_iff intr hd hk hp hreg']
    constructor
    · intro hr
      exact hr p d k hp hd hk
    · rintro hr q e j hq he hj
      obtain rfl := Option.some.inj (hp.symm.trans hq)
      obtain rfl := H.at_fun hd he
      obtain rfl := H.at_fun hk hj
      exact hr
  | write | read | lookup | evict | remount => exact Iff.rfl

end

section

attribute [local instance] x86

theorem all_or_nothing_createA : createA.AllOrNothing (fun c => c == .freeblock) blankFs :=
  (all_or_nothing_iff _ blankFs_inv createA_step.allowed).2 fun _ => Or.inl rfl

/-- The first create after `mkfs-simplefs`, the first lock attempt of `simplefs_inode_add` being
    interrupted, returns 0 without a slot for the new record. -/
theorem createA_torn : FsInv blankFs ∧ createA.Allowed blankFs ∧
    ¬ createA.AllOrNothing (fun c => c == .addMgmt) blankFs := by
  refine ⟨blankFs_inv, createA_step.allowed, fun h => ?_⟩
  obtain ⟨d, hd, M⟩ := createA_step.allowed.1.may blankFs_inv
  have hsafe := (blankFs_inv.createFsObject_iff _ hd M).1 (h d hd)
    ⟨rfl, rfl, by decide, Or.inr rfl, rfl⟩
  have hdead : firstDead blankFs.toImage = none := by decide
  simp only [hdead] at hsafe
  rcases hsafe with h | h | ⟨-, h, -⟩
  · exact absurd h (by decide)
  · exact absurd h (by decide)
  · exact absurd h (by decide)

end

end Simplefs
