/-
  simplefs — room after an unlink.

  An unlink leaves a dead slot, which create takes before any block of the bitmap, and
  a tombstone, without which create appends a record.  But the count of objects, which
  an unlink does not lower, is checked first: `room_iff` says that after an unlink a create
  succeeds, in every directory, exactly if `inodes_count` is below the limit.
-/
import KernelLinux.Simplefs.Reach

namespace Simplefs

open Bytes Prog

/-- A search finds a slot if there is one, also just behind the counted ones. -/
theorem search_isSome {g : Image} {y : SimplefsInode} {i : ℕ} (hi : i ≤ g.sb.inodesCount)
    (h : (g.store i).inodeNo = y.number) :
    ∃ j ≤ i, inodeSearch g y = some j ∧ (g.store j).inodeNo = y.number := by
  classical
  have hex : ∃ j, (g.store j).inodeNo = y.number := ⟨i, h⟩
  have hle : Nat.find hex ≤ i := Nat.find_min' hex h
  refine ⟨Nat.find hex, hle, inodeSearch_some.2 ⟨hle.trans hi, Nat.find_spec hex, ?_⟩,
    Nat.find_spec hex⟩
  exact fun l hl => Nat.find_min hex hl

/-! ## The unlink -/

/-- An unlink of the file with slot `k` has left a dead slot, and the directories as they were. -/
structure Freed (s s' : Fs) (k : ℕ) : Prop where
  sb : s'.sb = s.sb
  dead : (s'.store k).inodeNo = 0
  store_ne : ∀ i, i ≠ k → s'.store i = s.store i
  dir : ∀ q e, s.At q e → e ≠ k → s'.inodes q = s.inodes q

/-- The file with slot `k`, of which the inode is at `p`, is the one a dentry below the directory at
    `dir` is bound to, and the directory has a record of it. -/
structure Named (s : Fs) (dir : ℕ) (y : Name) (p k : ℕ) : Prop where
  dentry : s.dcache dir y = some p
  file : s.At p k
  isReg : S_ISREG (s.store k).mode = true
  record : ∃ d r, s.At dir d ∧ s.Entry d r k

section
variable [Target] {s : Fs} {dir p k : ℕ} {y : Name}

/-- The unlink finds its record, and the slot of the file. -/
theorem Named.unlink (H : StoreOk s.toImage) (N : Named s dir y p k) :
    ((Op.unlink dir y).exec s).1 = .done (.ok ()) ∧ Freed s ((Op.unlink dir y).exec s).2 k := by
  obtain ⟨d, r, hd, he⟩ := N.record
  obtain ⟨v, hv, hb⟩ := N.file
  have hno : ((s.inodes p).map Inode.iIno |>.getD 0) = (s.store k).inodeNo := by
    rw [hv]
    exact hb.ino
  obtain ⟨i, hi, hrec⟩ : ∃ i, findIno (s.block d) (s.store d).dirChildrenCount
      (s.store k).inodeNo = some i ∧ recIno (s.block d) i = (s.store k).inodeNo := by
    cases hfind : findIno (s.block d) (s.store d).dirChildrenCount (s.store k).inodeNo with
    | none => exact absurd he.ino (by simpa using find_range_none.1 hfind r he.counted)
    | some i => exact ⟨i, rfl, by simpa using (find_range.1 hfind).2.1⟩
  -- the private inode with the number given up, and the slot that has that number
  let f : SimplefsInode → SimplefsInode := fun z =>
    { z with deadInodeNo := recIno (s.block d) i, inodeNo := 0 }
  have hsfs : (s.setSfs p f).sfs p = f (s.store k) := Fs.setSfs_sfs f hv hb.priv
  have hsave : saveSlot p (s.setSfs p f) = (s.setSfs p f).setSlot k (f (s.store k)) := by
    obtain ⟨j, hj, hsearch, hjno⟩ := search_isSome (g := (s.setSfs p f).toImage)
      (y := f (s.store k)) hb.live.1.le hrec.symm
    have hjk : j = k := by
      refine H.number_inj j (hj.trans_lt hb.live.1) k hb.live.1 ?_
      have hjno' : (s.store j).inodeNo = (s.store k).inodeNo := hjno.trans hrec
      rw [SimplefsInode.number_live (by rw [hjno']; exact hb.live.2), hb.live.number, hjno']
    rw [saveSlot, hsfs, hsearch, hjk]
  have hexec := exec_unlink dir p s
  rw [hd.sfs, hno] at hexec
  dsimp only at hexec
  rw [show s.data (s.store d).dataBlockNumber = s.block d from rfl, hi] at hexec
  dsimp only at hexec
  rw [show (s.setSfs p fun z => { z with deadInodeNo := recIno (s.block d) i, inodeNo := 0 }) =
    s.setSfs p f from rfl, hsave] at hexec
  simp only [Op.exec, N.dentry, hexec]
  refine ⟨trivial, rfl, ?_, fun j hj => ?_, fun q e hq hek => ?_⟩
  · show (Function.update s.store k (f (s.store k)) k).inodeNo = 0
    rw [Function.update_self]
  · exact Function.update_of_ne hj _ _
  · have hqp : q ≠ p := by
      rintro rfl
      refine hek (H.number_inj e hq.live.1 k hb.live.1 ?_)
      rw [← hq.sfs, ← N.file.sfs]
    exact Function.update_of_ne hqp _ _

/-! ## The create -/

omit [Target] in
/-- Storing an inode to a dead slot leaves the live ones. -/
theorem addSlot_live {g : Fs} {z : SimplefsInode} {d : ℕ} (hd : g.Live d) :
    (addSlot z true g).store d = g.store d ∧ (addSlot z true g).sb = g.sb := by
  unfold addSlot
  rw [if_pos rfl]
  cases hfind : findDead g.toImage z.inodeNo with
  | none => exact ⟨rfl, rfl⟩
  | some j =>
    have hj := (find_range.1 hfind).2.1
    simp only [Bool.and_eq_true, beq_iff_eq] at hj
    refine ⟨Function.update_of_ne ?_ _ _, rfl⟩
    rintro rfl
    exact hd.2 hj.1

omit [Target] in
/-- The directory's inode can be saved after a name was appended. -/
theorem search_appendName {g : Fs} {z : SimplefsInode} {d blk n : ℕ} {x : Name} (hd : g.At dir d) :
    ∃ j, inodeSearch (appendName dir blk x n (addSlot z true g)).toImage
      ((appendName dir blk x n (addSlot z true g)).sfs dir) = some j := by
  obtain ⟨v, hv, hb⟩ := hd
  obtain ⟨hstore, hsb⟩ := addSlot_live (z := z) hb.live
  have hsfs : (appendName dir blk x n (addSlot z true g)).sfs dir =
      { g.store d with size := (g.store d).dirChildrenCount + 1 } :=
    Fs.setSfs_sfs _ (by rw [Fs.setBlock_inodes, addSlot_inodes]; exact hv) hb.priv
  obtain ⟨j, -, hj, -⟩ := search_isSome (i := d)
    (g := (appendName dir blk x n (addSlot z true g)).toImage)
    (y := { g.store d with size := (g.store d).dirChildrenCount + 1 })
    (by show d ≤ (addSlot z true g).sb.inodesCount
        rw [hsb]
        exact hb.live.1.le)
    (by show ((addSlot z true g).store d).inodeNo = _
        rw [hstore]
        exact (SimplefsInode.number_live hb.live.2).symm)
  exact ⟨j, by rw [hsfs, hj]⟩

/-- With a dead slot, a create succeeds below the limit, whatever the bitmap is. -/
theorem createBody_dead {g : Fs} {d : ℕ} {a : NewInode} {x : Name} {mode ino k : ℕ}
    (hk : k < g.sb.inodesCount) (hdead : (g.store k).inodeNo = 0) (hd : g.At dir d) :
    ((createBody a dir x mode ino).exec g).1 = .ok () := by
  rw [exec_createBody]
  cases hfirst : firstDead g.toImage with
  | none =>
    rw [firstDead, find_range_none] at hfirst
    simpa [hdead] using hfirst k hk
  | some j =>
    dsimp only
    cases htomb : firstTombstone (g.data (g.sfs dir).dataBlockNumber)
        (g.sfs dir).dirChildrenCount with
    | some i =>
      dsimp only
      rw [exec_createFinish_same]
    | none =>
      dsimp only
      rw [exec_createFinish_append]
      dsimp only
      obtain ⟨i, hi⟩ := search_appendName hd
      rw [hi]

/-- Whether a create after the unlink succeeds. -/
theorem Freed.create {s' : Fs} (F : Freed s s' k) (hk : k < s.sb.inodesCount) {e : ℕ}
    (hd : s.At dir e) (he : e ≠ k) {a : NewInode} {x : Name} {mode : ℕ}
    (hmode : S_ISDIR mode = true ∨ S_ISREG mode = true) :
    ((createFsObject (some a) dir x mode).exec s').1 = .ok () ↔
      s.sb.inodesCount < SIMPLEFS_MAX_FILESYSTEM_OBJECTS_SUPPORTED := by
  have hd' : s'.At dir e := by
    obtain ⟨v, hv, hb⟩ := hd
    refine ⟨v, (F.dir dir e ⟨v, hv, hb⟩ he).trans hv, hb.congr ⟨?_, ?_⟩ (F.store_ne e he)⟩
    · rw [F.sb]
      exact hb.live.1
    · rw [F.store_ne e he]
      exact hb.live.2
  have hkind : ¬ (!S_ISDIR mode && !S_ISREG mode) = true := by
    rcases hmode with h | h <;> simp [h]
  rw [exec_createFsObject, F.sb, if_neg hkind]
  split_ifs with hfull
  · exact iff_of_false (by simp) (Nat.not_lt.2 hfull)
  · refine iff_of_true (createBody_dead (k := k) ?_ F.dead hd') (Nat.lt_of_not_le hfull)
    rwa [F.sb]

end

/-- **When an unlink makes room**: a create or mkdir after it, in any directory, succeeds if and only
    if the count of objects, dead ones included, is below the limit. -/
theorem room_iff [Target] {s : Fs} (H : StoreOk s.toImage) {dir p k : ℕ} {y : Name}
    (N : Named s dir y p k) {dir' e : ℕ} (hd : s.At dir' e) (hdir : S_ISDIR (s.store e).mode = true)
    (a : NewInode) (x : Name) :
    ((Op.unlink dir y).exec s).1 = .done (.ok ()) ∧
    (∀ mode, S_ISREG mode = true →
      (((Op.create (some a) dir' x mode).exec ((Op.unlink dir y).exec s).2).1 = .done (.ok ()) ↔
        s.sb.inodesCount < SIMPLEFS_MAX_FILESYSTEM_OBJECTS_SUPPORTED)) ∧
    ∀ mode, mode &&& S_IFMT = 0 →
      (((Op.mkdir (some a) dir' x mode).exec ((Op.unlink dir y).exec s).2).1 = .done (.ok ()) ↔
        s.sb.inodesCount < SIMPLEFS_MAX_FILESYSTEM_OBJECTS_SUPPORTED) := by
  obtain ⟨hok, F⟩ := N.unlink H
  have hek : e ≠ k := by
    rintro rfl
    rw [not_dir_of_reg N.isReg] at hdir
    simp at hdir
  refine ⟨hok, fun mode hmode => ?_, fun mode hmode => ?_⟩
  · rw [← F.create N.file.live.1 hd hek (a := a) (x := x) (Or.inr hmode)]
    simp only [Op.exec, create, Outcome.done.injEq]
  · rw [← F.create N.file.live.1 hd hek (a := a) (x := x) (Or.inl (isDir_mkdir hmode))]
    simp only [Op.exec, mkdir, Outcome.done.injEq]

/-! ## A full store -/

/-- The image `g'` is `g` with more slots counted, which are dead. -/
structure Padded (g g' : Image) : Prop where
  count : g.sb.inodesCount ≤ g'.sb.inodesCount
  store : ∀ i < g.sb.inodesCount, g'.store i = g.store i
  dead : ∀ i, g.sb.inodesCount ≤ i → (g'.store i).inodeNo = 0
  data : g'.data = g.data

namespace Padded
variable {g g' : Image} (P : Padded g g')
include P

theorem live {k : ℕ} : g'.Live k ↔ g.Live k := by
  constructor
  · rintro ⟨-, hno⟩
    have hk : k < g.sb.inodesCount := by
      by_contra hk
      exact hno (P.dead k (Nat.le_of_not_lt hk))
    exact ⟨hk, by rwa [← P.store k hk]⟩
  · rintro ⟨hk, hno⟩
    exact ⟨hk.trans_le P.count, by rwa [P.store k hk]⟩

theorem store_live {k : ℕ} (h : g.Live k) : g'.store k = g.store k := P.store k h.1

theorem block {k : ℕ} (h : g.Live k) : g'.block k = g.block k := by
  rw [Image.block, P.store_live h, P.data]
  rfl

theorem liveDir {k : ℕ} : g'.LiveDir k ↔ g.LiveDir k := by
  constructor
  · rintro ⟨hk, hdir⟩
    rw [P.live] at hk
    exact ⟨hk, by rwa [← P.store_live hk]⟩
  · rintro ⟨hk, hdir⟩
    exact ⟨P.live.2 hk, by rwa [P.store_live hk]⟩

theorem entry {d r k : ℕ} : g'.Entry d r k ↔ g.Entry d r k := by
  constructor
  · rintro ⟨hd, hr, hk, hino⟩
    rw [P.liveDir] at hd
    rw [P.live] at hk
    rw [P.store_live hd.1] at hr
    rw [P.block hd.1, P.store_live hk] at hino
    exact ⟨hd, hr, hk, hino⟩
  · rintro ⟨hd, hr, hk, hino⟩
    refine ⟨P.liveDir.2 hd, ?_, P.live.2 hk, ?_⟩
    · rwa [P.store_live hd.1]
    · rwa [P.block hd.1, P.store_live hk]

theorem walk {p : List Name} {k : ℕ} : g'.Walk p k ↔ g.Walk p k := by
  constructor
  · intro h
    induction h with
    | root => exact .root
    | step _ he hx ih =>
      rw [P.entry] at he
      rw [P.block he.dir.1] at hx
      exact .step ih he hx
  · intro h
    induction h with
    | root => exact .root
    | step _ he hx ih => exact .step ih (P.entry.2 he) (by rwa [P.block he.dir.1])

/-- A record names a live slot, in both images. -/
theorem names {d r k : ℕ} (hd : g.LiveDir d) : (g'.Live k ∧ (g'.store k).inodeNo = recIno (g'.block d) r) ↔
    g.Live k ∧ (g.store k).inodeNo = recIno (g.block d) r := by
  rw [P.live, P.block hd.1]
  refine and_congr_right fun hk => ?_
  rw [P.store_live hk]

/-- **More dead slots keep the store consistent**, if their numbers and blocks are new. -/
theorem ok (H : StoreOk g) (hle : g'.sb.inodesCount ≤ SIMPLEFS_MAX_FILESYSTEM_OBJECTS_SUPPORTED)
    (hne : ∀ i < g'.sb.inodesCount, (g'.store i).number ≠ 0)
    (hnum : ∀ i < g'.sb.inodesCount, ∀ j < g'.sb.inodesCount,
      (g'.store i).number = (g'.store j).number → i = j)
    (hge : ∀ i < g'.sb.inodesCount, 2 ≤ (g'.store i).dataBlockNumber)
    (hblock : ∀ i < g'.sb.inodesCount, ∀ j < g'.sb.inodesCount,
      (g'.store i).dataBlockNumber = (g'.store j).dataBlockNumber → i = j) : StoreOk g' where
  count_le := hle
  number_ne := hne
  number_inj := hnum
  block_ge := hge
  block_inj := hblock
  record d hd r hr hno := by
    rw [P.liveDir] at hd
    rw [P.store_live hd.1] at hr
    rw [P.block hd.1] at hno
    simp only [P.names hd]
    exact H.record d hd r hr hno
  slot k hk h0 := by
    rw [P.live] at hk
    have heq : ∀ e : ℕ × ℕ, (g'.LiveDir e.1 ∧ e.2 < (g'.store e.1).dirChildrenCount ∧
        recIno (g'.block e.1) e.2 = (g'.store k).inodeNo) ↔
        g.LiveDir e.1 ∧ e.2 < (g.store e.1).dirChildrenCount ∧
          recIno (g.block e.1) e.2 = (g.store k).inodeNo := by
      intro e
      rw [P.liveDir]
      refine and_congr_right fun hd => ?_
      rw [P.store_live hd.1, P.block hd.1, P.store_live hk]
    simp only [heq]
    exact H.slot k hk h0
  root := by
    rw [P.liveDir, P.store_live H.root.1.1]
    exact H.root
  root_unnamed d hd r hr := by
    rw [P.liveDir] at hd
    rw [P.store_live hd.1] at hr
    rw [P.block hd.1, P.store_live H.root.1.1]
    exact H.root_unnamed d hd r hr
  tree k hk := by
    rw [P.live] at hk
    simp only [P.walk]
    exact H.tree k hk
  children_lt d hd := by
    rw [P.liveDir] at hd
    rw [P.store_live hd.1]
    exact (H.children_lt d hd).trans_le P.count

end Padded

/-- The image of `mkfs-simplefs` with `n` slots counted and an empty bitmap. -/
def paddedImage (n : ℕ) : Image :=
  { mkfs blankDisk 0 with
    sb := { (mkfs blankDisk 0).sb with inodesCount := n, freeBlocks := 0 }
    store := fun i => if i < 2 then (mkfs blankDisk 0).store i else ⟨S_IFREG, 0, i + 1, i + 2, 0⟩ }

theorem paddedImage_padded {n : ℕ} (h : 2 ≤ n) : Padded (mkfs blankDisk 0) (paddedImage n) where
  count := h
  store _ hi := if_pos hi
  dead i hi := by
    show (if i < 2 then _ else _ : SimplefsInode).inodeNo = 0
    rw [if_neg (show ¬ i < 2 from Nat.not_lt.2 hi)]
  data := rfl

theorem paddedImage_slot (n i : ℕ) : ((paddedImage n).store i).number = i + 1 ∧
    ((paddedImage n).store i).dataBlockNumber = i + 2 := by
  match i with
  | 0 => exact ⟨rfl, rfl⟩
  | 1 => exact ⟨rfl, rfl⟩
  | i + 2 => exact ⟨rfl, rfl⟩

section

attribute [local instance] x86

theorem paddedImage_ok {n : ℕ} (h : 2 ≤ n) (hn : n ≤ SIMPLEFS_MAX_FILESYSTEM_OBJECTS_SUPPORTED) :
    StoreOk (paddedImage n) := by
  have hslot := paddedImage_slot n
  refine (paddedImage_padded h).ok mkfs_inv.ok hn (fun i _ => ?_)
    (fun i _ j _ hij => ?_) (fun i _ => ?_) fun i _ j _ hij => ?_
  · rw [(hslot i).1]
    omega
  · rw [(hslot i).1, (hslot j).1] at hij
    omega
  · rw [(hslot i).2]
    omega
  · rw [(hslot i).2, (hslot j).2] at hij
    omega

/-- The padded image mounted, with the file `vanakkam` looked up: its inode is at address 1. -/
def paddedFs (n : ℕ) : Fs :=
  let root : Inode := ⟨SIMPLEFS_ROOTDIR_INODE_NUMBER, S_IFDIR, some ((paddedImage n).store 0)⟩
  let s : Fs := ⟨paddedImage n, Function.update (fun _ => none) rootAddr (some root), fun _ _ => none⟩
  s.dAdd rootAddr welcomeName 1 ⟨2, S_IFREG, some ((paddedImage n).store 1)⟩

theorem paddedFs_root {n : ℕ} (h : 2 ≤ n) : (paddedFs n).At rootAddr 0 :=
  ⟨_, rfl, ⟨by show 0 < n; omega, by show 1 ≠ 0; omega⟩, rfl, rfl, rfl, rfl⟩

theorem paddedFs_named {n : ℕ} (h : 2 ≤ n) : Named (paddedFs n) rootAddr welcomeName 1 1 where
  dentry := rfl
  file := ⟨_, rfl, ⟨by show 1 < n; omega, by show 2 ≠ 0; omega⟩, rfl, rfl, rfl, rfl⟩
  isReg := by show S_ISREG S_IFREG = true; decide
  record := ⟨0, 0, paddedFs_root h, (paddedImage_padded h).entry.2 (mkfs_entry.2 ⟨rfl, rfl, rfl⟩)⟩

/-- `room_iff` for the new file system. -/
theorem room_iff_two :
    ((Op.unlink rootAddr welcomeName).exec (paddedFs 2)).1 = .done (.ok ()) ∧
    (∀ mode, S_ISREG mode = true → (((Op.create (some ⟨2, default⟩) rootAddr nameA mode).exec
      ((Op.unlink rootAddr welcomeName).exec (paddedFs 2)).2).1 = .done (.ok ()) ↔
        (paddedFs 2).sb.inodesCount < SIMPLEFS_MAX_FILESYSTEM_OBJECTS_SUPPORTED)) ∧
    ∀ mode, mode &&& S_IFMT = 0 → (((Op.mkdir (some ⟨2, default⟩) rootAddr nameA mode).exec
      ((Op.unlink rootAddr welcomeName).exec (paddedFs 2)).2).1 = .done (.ok ()) ↔
        (paddedFs 2).sb.inodesCount < SIMPLEFS_MAX_FILESYSTEM_OBJECTS_SUPPORTED) :=
  room_iff (paddedImage_ok le_rfl (by decide)) (paddedFs_named le_rfl) (paddedFs_root le_rfl)
    (by decide) ⟨2, default⟩ nameA

/-- With 64 slots counted, no file can be created after `vanakkam` is unlinked. -/
theorem paddedFs_full : StoreOk (paddedFs 64).toImage ∧
    Named (paddedFs 64) rootAddr welcomeName 1 1 ∧
    ((Op.unlink rootAddr welcomeName).exec (paddedFs 64)).1 = .done (.ok ()) ∧
    ((Op.create (some ⟨2, default⟩) rootAddr nameA S_IFREG).exec
      ((Op.unlink rootAddr welcomeName).exec (paddedFs 64)).2).1 = .done (.error .enospc) := by
  have hok := paddedImage_ok (n := 64) (by decide) le_rfl
  have hnamed := paddedFs_named (n := 64) (by decide)
  obtain ⟨hdone, F⟩ := hnamed.unlink hok
  refine ⟨hok, hnamed, hdone, ?_⟩
  have hfull : SIMPLEFS_MAX_FILESYSTEM_OBJECTS_SUPPORTED ≤
      ((Op.unlink rootAddr welcomeName).exec (paddedFs 64)).2.sb.inodesCount := by
    rw [F.sb]
    exact le_rfl
  simp only [Op.exec, create] at hfull ⊢
  rw [exec_createFsObject, if_pos hfull]

end

end Simplefs
