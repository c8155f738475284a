/-
  simplefs — which images it is safe to mount.

  `simplefs_fill_super` checks the magic number and the block size and nothing else.  The counts that
  bound the loops, the numbers that `simplefs_get_inode` looks for and the records that a name is
  copied to are whatever the image holds; only `simplefs_create_fs_object` compares a count with a
  limit before it uses it.

  * `visits_below` of the library tells when a loop stays in a block (`slots_inside`);
  * `LookupInside`, `IterateInside`, `CreateInside`: what has to hold before a call so that it touches
    nothing outside of a block and uses no `NULL`, and no more than that (`Step.safe_iff`);
  * `inside_iff`: the same of mounts and runs.

  A create counts fewer than 64 inodes, so the slots that it looks at are in the block whatever else
  the image holds, but for one case: the record may lie on the superblock, where a name of 24 bytes
  reaches `inodes_count`.
-/
import KernelLinux.Simplefs.Buffers
import KernelLinux.Simplefs.OneRecord

namespace Simplefs.Buffers

open Bytes Prog

/-! ## What lies in a block -/

/-- The whole slots of the inode store. -/
def SLOTS_PER_BLOCK : ℕ := SIMPLEFS_DEFAULT_BLOCK_SIZE / inodeSize

theorem slot_inside {i : ℕ} : (Access.slot i).Inside ↔ i < SLOTS_PER_BLOCK := by
  show 40 * i + 40 ≤ 4096 ↔ i < 102
  omega

theorem record_inside {i : ℕ} : (Access.record i).Inside ↔ i < RECORDS_PER_BLOCK := by
  show 40 * i + 40 ≤ 4096 ↔ i < 102
  omega

theorem inode_inside {found : Bool} : (Access.inode found).Inside ↔ found = true := Iff.rfl

/-- The slots of a loop are in the block if it has no more counts than they are, or ends at one of
    them. -/
theorem slots_inside {g : Image} {p : SimplefsInode → Bool} {n : ℕ} :
    (∀ a ∈ slots g p n, a.Inside) ↔ n ≤ SLOTS_PER_BLOCK ∨ ∃ i < SLOTS_PER_BLOCK, p (g.store i) = true := by
  rw [slots, List.forall_mem_map]
  simp only [slot_inside]
  exact visits_below

namespace Traced

/-- Everything touched so far is in its block, and no `NULL` was used. -/
def Safe (s : Traced) : Prop := ∀ a ∈ s.touched, a.Inside

theorem safe_append {m : Mem} {l as : List Access} :
    (Traced.mk m (l ++ as)).Safe ↔ (∀ a ∈ l, a.Inside) ∧ ∀ a ∈ as, a.Inside := List.forall_mem_append

end Traced

/-! ## The memory along a create -/

/-- The memory after `simplefs_inode_add`, if it gets its mutexes. -/
def addSlot (z : Block) (exist : Bool) (m : Mem) : Mem :=
  if exist then fillSlot z m else countInode (m.setSlot m.image.sb.inodesCount z)

/-- The slots it looks at. -/
def addTouches (z : Block) (exist : Bool) (m : Mem) : List Access :=
  if exist then slots m.image (fun y => y.inodeNo == 0 && y.deadInodeNo == (inodeAt z 0).inodeNo)
    m.image.sb.inodesCount
  else [.slot m.image.sb.inodesCount]

/-- The memory with the record appended. -/
def appendName (dir blk : ℕ) (x : Name) (z : Block) (m : Mem) : Mem :=
  m.setBlock blk fun b => appendRecord b (m.sfs dir).dirChildrenCount x (inodeAt z 0).inodeNo

section
variable (intr : Site → Bool)

/-- `simplefs_inode_add`, which leaves everything alone if an attempt is interrupted. -/
def afterAdd (z : Block) (exist : Bool) (m : Mem) : Mem :=
  if intr .addMgmt || intr .addSb then m else addSlot z exist m

/-- With which attempts interrupted create still gets to save the parent. -/
def saves : Bool := !intr .createMgmt && (intr .addMgmt || !intr .addSb) && !intr .saveSb

variable (s : Traced)
variable (a : NewInode) (dir blk : ℕ) (x : Name) (z : Block)

theorem run_pass {α : Type} (as : Mem → List Access) (f : Mem → Mem) (g : Mem → α) (h : Mutex → Bool) :
    (pass as f g).run Site.mutex intr s h = some (g s.mem, ⟨f s.mem, s.touched ++ as s.mem⟩, h) := rfl

theorem run_look {α : Type} (g : Mem → α) (h : Mutex → Bool) :
    (look g).run Site.mutex intr s h = some (g s.mem, s, h) := rfl

theorem run_update (f : Mem → Mem) (h : Mutex → Bool) :
    (update f).run Site.mutex intr s h = some ((), ⟨f s.mem, s.touched⟩, h) := rfl

theorem run_inodeAdd (exist : Bool) : (inodeAdd z exist).run Site.mutex intr s (held true false false) =
    some ((), ⟨afterAdd intr z exist s.mem, s.touched ++
        if intr .addMgmt || intr .addSb then [] else addTouches z exist s.mem⟩,
      held true (!intr .addMgmt && intr .addSb) false) := by
  unfold inodeAdd afterAdd addSlot addTouches
  cases h1 : intr .addMgmt <;> cases h2 : intr .addSb <;> cases exist <;>
    simp [run_bind, run_pass, run_update, Site.mutex, h1, h2, sbSync]

theorem run_inodeSave (p : ℕ) (c i : Bool) : (inodeSave p).run Site.mutex intr s (held c i false) =
    if intr .saveSb then some (.error .eintr, s, held c i false)
    else some ((match inodeSearch s.mem.image (s.mem.sfs p) with
      | some _ => .ok ()
      | none => .error .eio),
      ⟨saveSlot p s.mem, s.touched ++ searched s.mem.image (s.mem.sfs p)⟩, held c i false) := by
  unfold inodeSave
  simp only [run_bind, run_mutexLockInterruptible]
  cases h1 : intr .saveSb with
  | true => simp
  | false =>
    simp only [Bool.false_eq_true, if_false, Site.mutex, held_sb, update_sb, Option.bind_some, run_bind,
      run_pass]
    cases inodeSearch s.mem.image (s.mem.sfs p) <;> simp [run_bind]

theorem ends_createCommit_same (m : Bool) : ((createCommit a dir blk x z false).ends Site.mutex intr s
    (held true m false)).2.touched = s.touched := by
  cases h1 : intr .createMgmt <;> cases m <;>
    simp [createCommit, ends, update, Prog.modify, markBufferDirty, syncDirtyBuffer,
      mutexLockInterruptible, mutexUnlock, h1, Site.mutex, held]

/-- What create touches after `simplefs_inode_add` when it appends a record: the record, and the slots
    that it looks at to save the parent. -/
theorem ends_createCommit_append (m : Bool) :
    ((createCommit a dir blk x z true).ends Site.mutex intr s (held true m false)).2.touched =
      s.touched ++ filling (s.mem.sfs dir).dirChildrenCount x ++
        if intr .createMgmt || m || intr .saveSb then []
        else searched (countChild dir (appendName dir blk x z s.mem)).image
          ((countChild dir (appendName dir blk x z s.mem)).sfs dir) := by
  unfold createCommit
  rw [if_pos rfl, ends_bind _ _ _ (run_pass _ _ _ _ _ _)]
  change (ends _ _ _ (⟨appendName dir blk x z s.mem, _⟩ : Traced) _).2.touched = _
  generalize appendName dir blk x z s.mem = u
  generalize s.touched ++ filling (s.mem.sfs dir).dirChildrenCount x = l
  by_cases h : intr .createMgmt = true
  · cases m <;> simp [ends, markBufferDirty, syncDirtyBuffer, mutexLockInterruptible, mutexUnlock, h]
  cases m with
  | true =>
    simp [ends, markBufferDirty, syncDirtyBuffer, mutexLockInterruptible, h, Site.mutex, held]
  | false =>
    have hsave := run_inodeSave intr ⟨countChild dir u, l⟩ dir true true
    simp only [markBufferDirty, syncDirtyBuffer, mutexLockInterruptible, update, Prog.modify, step_bind,
      mark_bind, sync_bind, lock_bind, ret_bind, ends, h, Site.mutex, held_inodesMgmt, update_inodesMgmt,
      Bool.false_eq_true, if_false, if_true]
    cases h' : intr .saveSb with
    | true =>
      rw [h', if_pos rfl] at hsave
      rw [ends_bind _ _ _ hsave]
      simp [mutexUnlock, ends]
    | false =>
      rw [h', if_neg (by simp)] at hsave
      rw [ends_bind _ _ _ hsave]
      dsimp only
      cases inodeSearch (countChild dir u).image ((countChild dir u).sfs dir) <;>
        simp [mutexUnlock, ends]

theorem afterAdd_sfs (exist : Bool) (m : Mem) : (afterAdd intr z exist m).sfs = m.sfs := by
  unfold afterAdd addSlot fillSlot
  split_ifs
  · rfl
  · split <;> rfl
  · rfl

theorem touched_createFinish_same :
    ((createFinish a dir blk x z true true).ends Site.mutex intr s (held true false false)).2.touched =
      s.touched ++ if intr .addMgmt || intr .addSb then [] else addTouches z true s.mem := by
  unfold createFinish
  rw [ends_bind _ _ _ (run_inodeAdd intr s z true)]
  exact ends_createCommit_same intr _ a dir blk x z _

theorem touched_createFinish_append (exist : Bool) :
    ((createFinish a dir blk x z exist false).ends Site.mutex intr s (held true false false)).2.touched =
      (s.touched ++ if intr .addMgmt || intr .addSb then [] else addTouches z exist s.mem) ++
        filling (s.mem.sfs dir).dirChildrenCount x ++
        if saves intr then
          searched (countChild dir (appendName dir blk x z (afterAdd intr z exist s.mem))).image
            ((countChild dir (appendName dir blk x z (afterAdd intr z exist s.mem))).sfs dir)
        else [] := by
  unfold createFinish
  rw [ends_bind _ _ _ (run_inodeAdd intr s z exist), Bool.not_false, Bool.or_true,
    ends_createCommit_append]
  dsimp only
  rw [afterAdd_sfs]
  cases h1 : intr .createMgmt <;> cases h2 : intr .addMgmt <;> cases h3 : intr .addSb <;>
    cases h4 : intr .saveSb <;> simp [saves, h1, h2, h3, h4]

end

/-! ## Which slots are counted -/

section
variable {intr : Site → Bool} {m : Mem} {dir blk : ℕ} {x : Name} {z : Block}

theorem count_takeBlock [Target] (i : ℕ) :
    (takeBlock i m).image.sb.inodesCount = m.image.sb.inodesCount := by
  show (Function.update m.blocks 0 _ 0).getLE 8 24 = _
  rw [Function.update_self]
  exact Block.getLE_putLE_disjoint (Or.inl (by norm_num))

theorem count_countInode (h : m.image.sb.inodesCount + 1 < 2 ^ 64) :
    (countInode m).image.sb.inodesCount = m.image.sb.inodesCount + 1 := by
  show (Function.update m.blocks 0 _ 0).getLE 8 24 = _
  rw [Function.update_self]
  exact Block.getLE_putLE (h.trans_le (by norm_num))

theorem sb_fillSlot : (fillSlot z m).image.sb = m.image.sb := by
  unfold fillSlot
  split
  · exact sb_setBlock (by decide)
  · rfl

/-- At most one slot more is counted. -/
theorem count_afterAdd (intr : Site → Bool) (z : Block) (exist : Bool) (h : m.image.sb.inodesCount + 1 < 2 ^ 64) :
    (afterAdd intr z exist m).image.sb.inodesCount ≤ m.image.sb.inodesCount + 1 := by
  unfold afterAdd addSlot
  split_ifs
  · exact Nat.le_succ _
  · rw [sb_fillSlot]
    exact Nat.le_succ _
  · have hsb : (m.setSlot m.image.sb.inodesCount z).image.sb = m.image.sb := sb_setBlock (by decide)
    rw [count_countInode (by rwa [hsb]), hsb]

/-- Only the first record of block 0 is where the count is. -/
theorem count_append (h : blk ≠ SIMPLEFS_SUPERBLOCK_BLOCK_NUMBER ∨ (m.sfs dir).dirChildrenCount ≠ 0) :
    (countChild dir (appendName dir blk x z m)).image.sb.inodesCount = m.image.sb.inodesCount := by
  show (Function.update m.blocks blk _ 0).getLE 8 24 = _
  by_cases hblk : blk = 0
  · subst hblk
    rw [Function.update_self]
    refine congrArg leNat (Block.read_congr fun i hi => appendRecord_before ?_)
    have hpos : (m.sfs dir).dirChildrenCount ≠ 0 := h.resolve_left fun h => h rfl
    simp only [recName, recSize]
    omega
  · rw [Function.update_of_ne (Ne.symm hblk)]
    rfl

end

/-! ## Create -/

section
variable (intr : Site → Bool) (m : Mem) (dir : ℕ)

/-- The records of the directory whose inode is at `dir`. -/
def dirBlock : Block := m.blocks (m.sfs dir).dataBlockNumber

/-- create gets past its checks and the allocation of the inode. -/
def Begins (new : Option NewInode) (mode : ℕ) : Prop :=
  intr .createChildren = false ∧ intr .objectsCount = false ∧
    m.image.sb.inodesCount < SIMPLEFS_MAX_FILESYSTEM_OBJECTS_SUPPORTED ∧
    (S_ISDIR mode = true ∨ S_ISREG mode = true) ∧ new.isSome = true

/-- It has a slot and a block for the inode. -/
def Places [Target] : Prop :=
  firstDead m.image = none →
    intr .freeblock = false ∧ (findFreeBlock m.image.sb.freeBlocks).isSome = true

/-- The tombstone that create fills, if it does not append a record. -/
def reusable : Option ℕ :=
  match firstDead m.image with
  | some _ => firstTombstone (dirBlock m dir) (m.sfs dir).dirChildrenCount
  | none => none

/-- The record that create fills. -/
def recordOf : ℕ := (reusable m dir).getD (m.sfs dir).dirChildrenCount

/-- The memory when create looks for the slot of the parent, whose record was appended. -/
def appended [Target] (a : NewInode) (x : Name) (mode : ℕ) : Mem :=
  let blk := (m.sfs dir).dataBlockNumber
  let z := newInode a.junk
    (m.image.sb.inodesCount + SIMPLEFS_START_INO - SIMPLEFS_RESERVED_INODES + 1) mode
  match firstDead m.image with
  | some k =>
    let z := (z.putLE 8 24 (m.image.store k).dataBlockNumber).putLE 8 8 (m.image.store k).deadInodeNo
    countChild dir (appendName dir blk x z (afterAdd intr z true m))
  | none =>
    match findFreeBlock m.image.sb.freeBlocks with
    | some b =>
      let z := z.putLE 8 24 b
      countChild dir (appendName dir blk x z (afterAdd intr z false (takeBlock b m)))
    | none => m

/-- The parent's slot is found among the whole slots, or no more are counted. -/
def ParentInside (v : Mem) : Prop :=
  v.image.sb.inodesCount < SLOTS_PER_BLOCK ∨
    ∃ i < SLOTS_PER_BLOCK, (v.image.store i).inodeNo = (v.sfs dir).number

/-- **When a create is safe.** -/
structure CreateInside [Target] (a : NewInode) (x : Name) (mode : ℕ) : Prop where
  /-- the parent has a private inode -/
  parent : (m.priv dir).isSome = true
  /-- a tombstone is only looked for in the block -/
  tombstones : (firstDead m.image).isSome = true →
    (m.sfs dir).dirChildrenCount ≤ RECORDS_PER_BLOCK ∨
      ∃ i < RECORDS_PER_BLOCK, recIno (dirBlock m dir) i = 0
  /-- the record and the name lie in the block -/
  record : Places intr m → recordOf m dir < RECORDS_PER_BLOCK ∧
    recName (recordOf m dir) + x.bytes.length < SIMPLEFS_DEFAULT_BLOCK_SIZE
  /-- The first record of a directory in block 0 is where the superblock has its fields, so the count
      of inodes and the slots that are searched for the parent are those after it was appended. -/
  superblock : Places intr m → reusable m dir = none → saves intr = true →
    (m.sfs dir).dataBlockNumber = SIMPLEFS_SUPERBLOCK_BLOCK_NUMBER →
    (m.sfs dir).dirChildrenCount = 0 → ParentInside dir (appended intr m dir a x mode)

variable {intr m dir}

theorem filling_inside {i : ℕ} {x : Name} : (∀ b ∈ filling i x, b.Inside) ↔
    i < RECORDS_PER_BLOCK ∧ recName i + x.bytes.length < SIMPLEFS_DEFAULT_BLOCK_SIZE := by
  rw [filling, List.forall_mem_cons, List.forall_mem_singleton, record_inside]
  rfl

theorem searched_inside {v : Mem} :
    (∀ b ∈ searched v.image (v.sfs dir), b.Inside) ↔ ParentInside dir v := by
  rw [searched, slots_inside, ParentInside]
  simp only [beq_iff_eq, Nat.succ_le_iff]

theorem tombstone_inside {blk : ℕ} {x : Name} : (∀ b ∈ tombstone dir blk x m, b.Inside) ↔
    ((m.sfs dir).dirChildrenCount ≤ RECORDS_PER_BLOCK ∨
      ∃ i < RECORDS_PER_BLOCK, recIno (m.blocks blk) i = 0) ∧
    ∀ i, firstTombstone (m.blocks blk) (m.sfs dir).dirChildrenCount = some i →
      ∀ b ∈ filling i x, b.Inside := by
  rw [tombstone, List.forall_mem_append, List.forall_mem_map]
  simp only [record_inside, visits_below, beq_iff_eq]
  refine and_congr_right fun _ => ?_
  cases firstTombstone (m.blocks blk) (m.sfs dir).dirChildrenCount with
  | none => simp
  | some i => simp

/-- A slot that `simplefs_inode_add` is to fill was found before, among fewer than are in the block. -/
theorem addTouches_inside {t : Mem} {z : Block} {k : ℕ}
    (hcount : m.image.sb.inodesCount < SIMPLEFS_MAX_FILESYSTEM_OBJECTS_SUPPORTED)
    (hk : firstDead m.image = some k) (hz : (inodeAt z 0).inodeNo = (m.image.store k).deadInodeNo)
    (ht : t.image.sb = m.image.sb ∨ t.image.store = m.image.store) :
    ∀ b ∈ addTouches z true t, b.Inside := by
  have hmax : SIMPLEFS_MAX_FILESYSTEM_OBJECTS_SUPPORTED < SLOTS_PER_BLOCK := by decide
  obtain ⟨hlt, hdead, -⟩ := firstDead_some.1 hk
  rw [addTouches, if_pos rfl, slots_inside]
  rcases ht with ht | ht
  · left
    rw [ht]
    omega
  · right
    refine ⟨k, by omega, ?_⟩
    rw [ht, hz, hdead]
    simp

/-- The parent is found among the whole slots, unless its record is on the superblock. -/
theorem parent_inside {blk : ℕ} {x : Name} {z : Block} {exist : Bool} {t : Mem}
    (hcount : t.image.sb.inodesCount < SIMPLEFS_MAX_FILESYSTEM_OBJECTS_SUPPORTED)
    (h : blk ≠ SIMPLEFS_SUPERBLOCK_BLOCK_NUMBER ∨ (t.sfs dir).dirChildrenCount ≠ 0) :
    ParentInside dir (countChild dir (appendName dir blk x z (afterAdd intr z exist t))) := by
  have hmax : SIMPLEFS_MAX_FILESYSTEM_OBJECTS_SUPPORTED = 64 := rfl
  have hslots : SLOTS_PER_BLOCK = 102 := rfl
  left
  rw [count_append (by rwa [afterAdd_sfs])]
  have := count_afterAdd intr z exist (show t.image.sb.inodesCount + 1 < 2 ^ 64 by omega)
  omega

theorem getDeadInodeNo_run (s : Traced) (h : Mutex → Bool) : getDeadInodeNo.run Site.mutex intr s h =
    some ((firstDead s.mem.image).map fun i =>
        ((s.mem.image.store i).deadInodeNo, (s.mem.image.store i).dataBlockNumber),
      ⟨s.mem, s.touched ++ slots s.mem.image (fun z => z.inodeNo == 0) s.mem.image.sb.inodesCount⟩,
      h) := rfl

theorem run_sbGetAFreeblock [Target] (intr : Site → Bool) (s : Traced) :
    sbGetAFreeblock.run Site.mutex intr s (held true false false) =
      if intr .freeblock then some (.error .eintr, s, held true false false)
      else match findFreeBlock s.mem.image.sb.freeBlocks with
        | none => some (.error .enospc, s, held true false false)
        | some b => some (.ok b, ⟨takeBlock b s.mem, s.touched⟩, held true false false) := by
  unfold sbGetAFreeblock
  cases h : intr .freeblock with
  | true => simp [run_bind, h]
  | false =>
    cases hb : findFreeBlock s.mem.image.sb.freeBlocks <;>
      simp [run_bind, run_look, run_update, h, hb, Site.mutex, sbSync]

theorem ends_createBody_null [Target] {a : NewInode} {x : Name} {mode ino : ℕ} {l : List Access}
    (h : m.priv dir = none) : ¬ ((createBody a dir x mode ino).ends Site.mutex intr ⟨m, l⟩
      (held true false false)).2.Safe := by
  have hderef := run_pass intr ⟨m, l⟩ (fun s => [.inode (s.priv dir).isSome]) id
    (fun s => (s.priv dir).map fun z => (inodeAt z 0).dataBlockNumber) (held true false false)
  simp only [createBody, deref]
  rw [ends_bind _ _ _ hderef]
  dsimp only
  rw [h]
  intro hsafe
  have := hsafe (.inode false) (by simp [ends])
  exact Bool.false_ne_true this

/-- The end of a create that has filled a tombstone. -/
theorem createFinish_same_safe {s : Traced} {a : NewInode} {blk : ℕ} {x : Name} {z : Block}
    (hadd : ∀ b ∈ addTouches z true s.mem, b.Inside) :
    ((createFinish a dir blk x z true true).ends Site.mutex intr s (held true false false)).2.Safe ↔
      s.Safe := by
  rw [Traced.Safe, touched_createFinish_same, List.forall_mem_append, ← Traced.Safe]
  refine and_iff_left ?_
  split_ifs
  · exact fun _ h => absurd h List.not_mem_nil
  · exact hadd

/-- The end of a create that appends a record. -/
theorem createFinish_append_safe {s : Traced} {a : NewInode} {blk : ℕ} {x : Name} {z : Block}
    {exist : Bool} (hadd : ∀ b ∈ addTouches z exist s.mem, b.Inside) :
    ((createFinish a dir blk x z exist false).ends Site.mutex intr s (held true false false)).2.Safe ↔
      s.Safe ∧ (∀ b ∈ filling (s.mem.sfs dir).dirChildrenCount x, b.Inside) ∧
        (saves intr = true → ParentInside dir
          (countChild dir (appendName dir blk x z (afterAdd intr z exist s.mem)))) := by
  rw [Traced.Safe, touched_createFinish_append, List.forall_mem_append, List.forall_mem_append,
    List.forall_mem_append, ← Traced.Safe, and_assoc, and_assoc, ← searched_inside]
  refine and_congr_right fun _ => ?_
  rw [and_iff_right]
  · refine and_congr_right fun _ => ?_
    cases saves intr <;> simp
  · split_ifs
    · exact fun _ h => absurd h List.not_mem_nil
    · exact hadd

theorem inodeNo_putLE {z : Block} {k : ℕ} :
    (inodeAt (z.putLE 8 8 (m.image.store k).deadInodeNo) 0).inodeNo = (m.image.store k).deadInodeNo :=
  Block.getLE_putLE (Block.getLE_lt _ _ _)

/-- A create that has found a dead slot. -/
theorem createDead_safe_iff [Target] (a : NewInode) (x : Name) (mode : ℕ) (l : List Access) {k : ℕ}
    {z : Block}
    (hcount : m.image.sb.inodesCount < SIMPLEFS_MAX_FILESYSTEM_OBJECTS_SUPPORTED)
    (hk : firstDead m.image = some k) (hparent : (m.priv dir).isSome = true)
    (hz : z = ((newInode a.junk (m.image.sb.inodesCount + SIMPLEFS_START_INO - SIMPLEFS_RESERVED_INODES + 1)
      mode).putLE 8 24 (m.image.store k).dataBlockNumber).putLE 8 8 (m.image.store k).deadInodeNo) :
    ((createFinish a dir (m.sfs dir).dataBlockNumber x z true
        (firstTombstone (dirBlock m dir) (m.sfs dir).dirChildrenCount).isSome).ends Site.mutex intr
      ⟨fillTombstone dir (m.sfs dir).dataBlockNumber x (m.image.store k).deadInodeNo m,
        l ++ tombstone dir (m.sfs dir).dataBlockNumber x m⟩ (held true false false)).2.Safe ↔
      (∀ b ∈ l, b.Inside) ∧ CreateInside intr m dir a x mode := by
  have hino : (inodeAt z 0).inodeNo = (m.image.store k).deadInodeNo := hz ▸ inodeNo_putLE
  have hplaces : Places intr m := fun h => by simp [hk] at h
  unfold fillTombstone
  cases htomb : firstTombstone (m.blocks (m.sfs dir).dataBlockNumber) (m.sfs dir).dirChildrenCount with
  | some i =>
    have hreuse : reusable m dir = some i := by
      rw [reusable, hk]
      exact htomb
    rw [show firstTombstone (dirBlock m dir) (m.sfs dir).dirChildrenCount = some i from htomb,
      Option.isSome_some, createFinish_same_safe, Traced.safe_append, tombstone_inside, htomb]
    · refine and_congr_right fun _ => ?_
      constructor
      · rintro ⟨hscan, hfill⟩
        refine ⟨hparent, fun _ => hscan, fun _ => ?_, fun _ h => by simp [hreuse] at h⟩
        rw [recordOf, hreuse]
        exact filling_inside.1 (hfill i rfl)
      · intro h
        refine ⟨h.tombstones (by rw [hk]; rfl), ?_⟩
        rintro _ ⟨⟩
        have := h.record hplaces
        rw [recordOf, hreuse] at this
        exact filling_inside.2 this
    · dsimp only
      refine addTouches_inside hcount hk hino ?_
      -- the record is in the superblock, or elsewhere
      by_cases hblk : (m.sfs dir).dataBlockNumber = SIMPLEFS_SUPERBLOCK_BLOCK_NUMBER
      · right
        refine store_setBlock ?_
        rw [hblk]
        decide
      · left
        exact sb_setBlock hblk
  | none =>
    have hreuse : reusable m dir = none := by
      rw [reusable, hk]
      exact htomb
    have happended : appended intr m dir a x mode = countChild dir
        (appendName dir (m.sfs dir).dataBlockNumber x z (afterAdd intr z true m)) := by
      rw [appended, hk, hz]
    rw [show firstTombstone (dirBlock m dir) (m.sfs dir).dirChildrenCount = none from htomb,
      Option.isSome_none, createFinish_append_safe, Traced.safe_append, tombstone_inside, htomb,
      filling_inside, and_assoc]
    · dsimp only
      refine and_congr_right fun _ => ?_
      have hrecord : recordOf m dir = (m.sfs dir).dirChildrenCount := by rw [recordOf, hreuse]; rfl
      constructor
      · rintro ⟨⟨hscan, -⟩, hfill, hsave⟩
        refine ⟨hparent, fun _ => hscan, fun _ => hrecord ▸ hfill, fun _ _ hs _ _ => ?_⟩
        rw [happended]
        exact hsave hs
      · intro h
        refine ⟨⟨h.tombstones (by rw [hk]; rfl), fun _ h => by cases h⟩, hrecord ▸ h.record hplaces,
          fun hs => ?_⟩
        by_cases hfirst : (m.sfs dir).dataBlockNumber = SIMPLEFS_SUPERBLOCK_BLOCK_NUMBER ∧
            (m.sfs dir).dirChildrenCount = 0
        · rw [← happended]
          exact h.superblock hplaces hreuse hs hfirst.1 hfirst.2
        · exact parent_inside hcount (not_and_or.1 hfirst)
    · exact addTouches_inside hcount hk hino (Or.inl rfl)

/-- A create that has taken a free block. -/
theorem createFresh_safe_iff [Target] (a : NewInode) (x : Name) (mode : ℕ) (l : List Access) {b : ℕ}
    {z : Block}
    (hcount : m.image.sb.inodesCount < SIMPLEFS_MAX_FILESYSTEM_OBJECTS_SUPPORTED)
    (hk : firstDead m.image = none) (hf : intr .freeblock = false)
    (hb : findFreeBlock m.image.sb.freeBlocks = some b) (hparent : (m.priv dir).isSome = true)
    (hz : z = (newInode a.junk (m.image.sb.inodesCount + SIMPLEFS_START_INO - SIMPLEFS_RESERVED_INODES + 1)
      mode).putLE 8 24 b) :
    ((createFinish a dir (m.sfs dir).dataBlockNumber x z false false).ends Site.mutex intr
      ⟨takeBlock b m, l⟩ (held true false false)).2.Safe ↔
      (∀ b ∈ l, b.Inside) ∧ CreateInside intr m dir a x mode := by
  have hplaces : Places intr m := fun _ => ⟨hf, by rw [hb]; rfl⟩
  have hreuse : reusable m dir = none := by rw [reusable, hk]
  have hrecord : recordOf m dir = (m.sfs dir).dirChildrenCount := by rw [recordOf, hreuse]; rfl
  have happended : appended intr m dir a x mode = countChild dir
      (appendName dir (m.sfs dir).dataBlockNumber x z (afterAdd intr z false (takeBlock b m))) := by
    rw [appended, hk, hb, hz]
  have hadd : ∀ c ∈ addTouches z false (takeBlock b m), c.Inside := by
    have hmax : SIMPLEFS_MAX_FILESYSTEM_OBJECTS_SUPPORTED < SLOTS_PER_BLOCK := by decide
    rw [addTouches, if_neg (by simp), List.forall_mem_singleton, slot_inside, count_takeBlock]
    omega
  rw [createFinish_append_safe, filling_inside]
  · refine and_congr_right fun _ => ?_
    constructor
    · rintro ⟨hfill, hsave⟩
      refine ⟨hparent, fun h => by simp [hk] at h, fun _ => hrecord ▸ hfill, fun _ _ hs _ _ => ?_⟩
      rw [happended]
      exact hsave hs
    · intro h
      refine ⟨hrecord ▸ h.record hplaces, fun hs => ?_⟩
      by_cases hfirst : (m.sfs dir).dataBlockNumber = SIMPLEFS_SUPERBLOCK_BLOCK_NUMBER ∧
          (m.sfs dir).dirChildrenCount = 0
      · rw [← happended]
        exact h.superblock hplaces hreuse hs hfirst.1 hfirst.2
      · exact parent_inside (by rwa [count_takeBlock]) (not_and_or.1 hfirst)
  · exact hadd

/-- **What a create touches**, from the allocation of the inode on. -/
theorem createBody_safe_iff [Target] {a : NewInode} {x : Name} {mode : ℕ} {l : List Access}
    (hcount : m.image.sb.inodesCount < SIMPLEFS_MAX_FILESYSTEM_OBJECTS_SUPPORTED) :
    ((createBody a dir x mode
        (m.image.sb.inodesCount + SIMPLEFS_START_INO - SIMPLEFS_RESERVED_INODES + 1)).ends Site.mutex intr
      ⟨m, l⟩ (held true false false)).2.Safe ↔
      (∀ b ∈ l, b.Inside) ∧ CreateInside intr m dir a x mode := by
  cases hp : m.priv dir with
  | none =>
    refine iff_of_false (ends_createBody_null hp) fun h => ?_
    have := h.2.parent
    simp [hp] at this
  | some y =>
    have hparent : (m.priv dir).isSome = true := by rw [hp]; rfl
    have hmax : SIMPLEFS_MAX_FILESYSTEM_OBJECTS_SUPPORTED < SLOTS_PER_BLOCK := by decide
    -- what was touched so far
    have hl : (∀ b ∈ (l ++ [.inode (m.priv dir).isSome]) ++
        slots m.image (fun z => z.inodeNo == 0) m.image.sb.inodesCount, b.Inside) ↔
        ∀ b ∈ l, b.Inside := by
      rw [List.forall_mem_append, List.forall_mem_append, List.forall_mem_singleton, slots_inside,
        and_assoc]
      exact and_iff_left ⟨hparent, Or.inl (by omega)⟩
    have hderef := run_pass intr ⟨m, l⟩ (fun s => [.inode (s.priv dir).isSome]) id
      (fun s => (s.priv dir).map fun z => (inodeAt z 0).dataBlockNumber) (held true false false)
    simp only [createBody, deref]
    rw [ends_bind _ _ _ hderef]
    have hblk : (m.priv dir).map (fun z => (inodeAt z 0).dataBlockNumber) =
        some (m.sfs dir).dataBlockNumber := by
      rw [sfs_of_priv hp, hp, Option.map_some]
    dsimp only [id]
    rw [hblk]
    dsimp only
    rw [ends_bind _ _ _ (getDeadInodeNo_run _ _)]
    dsimp only
    rw [← hl]
    generalize (l ++ [.inode (m.priv dir).isSome]) ++
        slots m.image (fun z => z.inodeNo == 0) m.image.sb.inodesCount = l'
    cases hk : firstDead m.image with
    | some k =>
      dsimp only [Option.map_some]
      rw [ends_bind _ _ _ (run_pass _ _ _ _ _ _), ends_map]
      dsimp only
      exact createDead_safe_iff a x mode l' hcount hk hparent rfl
    | none =>
      dsimp only [Option.map_none]
      have hfree := run_sbGetAFreeblock intr ⟨m, l'⟩
      have hunplaced : ¬ Places intr m → CreateInside intr m dir a x mode := fun h =>
        ⟨hparent, fun h' => by simp [hk] at h', fun h' => absurd h' h, fun h' => absurd h' h⟩
      cases hf : intr .freeblock with
      | true =>
        rw [hf, if_pos rfl] at hfree
        rw [ends_bind _ _ _ hfree]
        exact (and_iff_left (hunplaced fun h => by simpa [hf] using h hk)).symm
      | false =>
        rw [hf, if_neg (by simp)] at hfree
        cases hb : findFreeBlock m.image.sb.freeBlocks with
        | none =>
          rw [hb] at hfree
          rw [ends_bind _ _ _ hfree]
          exact (and_iff_left (hunplaced fun h => by simpa [hb] using h hk)).symm
        | some b =>
          rw [hb] at hfree
          rw [ends_bind _ _ _ hfree]
          dsimp only
          rw [ends_map]
          exact createFresh_safe_iff a x mode l' hcount hk hf hb hparent rfl

/-- A create that does not get past its checks touches nothing. -/
theorem createFsObject_refused [Target] {s : Traced} {new : Option NewInode} (x : Name) {mode : ℕ}
    (h : ¬ Begins intr s.mem new mode) :
    ((createFsObject new dir x mode).ends Site.mutex intr s (held false false false)).2 = s := by
  unfold createFsObject sbGetObjectsCount
  by_cases h1 : intr .createChildren = true
  · simp [ends, mutexLockInterruptible, h1]
  by_cases h2 : intr .objectsCount = true
  · simp [ends, mutexLockInterruptible, mutexUnlock, h1, h2, Site.mutex]
  by_cases h3 : SIMPLEFS_MAX_FILESYSTEM_OBJECTS_SUPPORTED ≤ s.mem.image.sb.inodesCount
  · simp [ends, mutexLockInterruptible, mutexUnlock, look, reads, h1, h2, h3, Site.mutex]
  cases h4 : (!S_ISDIR mode && !S_ISREG mode) with
  | true => simp [ends, mutexLockInterruptible, mutexUnlock, look, reads, h1, h2, h3, Site.mutex]
  | false =>
    cases new with
    | none => simp [ends, mutexLockInterruptible, mutexUnlock, look, reads, h1, h2, h3, Site.mutex]
    | some a =>
      refine absurd ⟨by simpa using h1, by simpa using h2, by omega, ?_, rfl⟩ h
      cases hd : S_ISDIR mode
      · right
        simpa [hd] using h4
      · exact Or.inl rfl

theorem ends_createFsObject_begins [Target] {s : Traced} {a : NewInode} (x : Name) {mode : ℕ}
    (h : Begins intr s.mem (some a) mode) :
    (createFsObject (some a) dir x mode).ends Site.mutex intr s (held false false false) =
      (createBody a dir x mode (s.mem.image.sb.inodesCount + SIMPLEFS_START_INO -
        SIMPLEFS_RESERVED_INODES + 1)).ends Site.mutex intr s (held true false false) := by
  obtain ⟨h1, h2, h3, h4, -⟩ := h
  have hmode : (!S_ISDIR mode && !S_ISREG mode) = false := by
    rcases h4 with h | h <;> simp [h]
  have hc : ¬ SIMPLEFS_MAX_FILESYSTEM_OBJECTS_SUPPORTED ≤ s.mem.image.sb.inodesCount := by omega
  simp [createFsObject, sbGetObjectsCount, ends, mutexLockInterruptible, look, reads, mutexUnlock,
    h1, h2, hmode, hc, Site.mutex]

/-- **When a create is safe.** -/
theorem createFsObject_safe_iff [Target] {s : Traced} {new : Option NewInode} {x : Name} {mode : ℕ} :
    ((createFsObject new dir x mode).ends Site.mutex intr s (held false false false)).2.Safe ↔
      s.Safe ∧ (Begins intr s.mem new mode → ∀ a, new = some a → CreateInside intr s.mem dir a x mode) := by
  by_cases hb : Begins intr s.mem new mode
  · obtain ⟨a, rfl⟩ := Option.isSome_iff_exists.1 hb.2.2.2.2
    rw [ends_createFsObject_begins x hb, createBody_safe_iff hb.2.2.1, imp_iff_right hb]
    refine and_congr_right fun _ => ⟨?_, fun h => h a rfl⟩
    rintro h _ ⟨⟩
    exact h
  · rw [createFsObject_refused x hb]
    exact (and_iff_left fun h => absurd h hb).symm

end

/-! ## Lookup and listing -/

/-- **When a lookup is safe.** -/
structure LookupInside (m : Mem) (dir : ℕ) (x : Name) : Prop where
  /-- the parent has a private inode -/
  parent : (m.priv dir).isSome = true
  /-- no record is looked at behind the block -/
  records : (m.sfs dir).dirChildrenCount ≤ RECORDS_PER_BLOCK ∨
    ∃ i < RECORDS_PER_BLOCK, matchesName (dirBlock m dir) x i = true
  /-- nor does `strcmp` go there, of the names that are compared -/
  names : ∀ i < (m.sfs dir).dirChildrenCount, (∀ k < i, matchesName (dirBlock m dir) x k = false) →
    recName i + strcmpLen (dirBlock m dir) (recName i) x.bytes ≤ SIMPLEFS_DEFAULT_BLOCK_SIZE
  /-- the number of the record that is found has a counted slot in the inode store's block -/
  inode : ∀ r, findName (dirBlock m dir) (m.sfs dir).dirChildrenCount x = some r →
    ∃ j < SLOTS_PER_BLOCK, j < m.image.sb.inodesCount ∧
      (m.image.store j).inodeNo = recIno (dirBlock m dir) r

section
variable {m : Mem} {dir : ℕ} {x : Name}

theorem looked_inside {b : Block} {n : ℕ} : (∀ a ∈ looked b n x, a.Inside) ↔
    (n ≤ RECORDS_PER_BLOCK ∨ ∃ i < RECORDS_PER_BLOCK, matchesName b x i = true) ∧
    ∀ i < n, (∀ k < i, matchesName b x k = false) →
      recName i + strcmpLen b (recName i) x.bytes ≤ SIMPLEFS_DEFAULT_BLOCK_SIZE := by
  have hmem : (∀ a ∈ looked b n x, a.Inside) ↔ ∀ i ∈ visits (matchesName b x) n 0,
      i < RECORDS_PER_BLOCK ∧
        recName i + strcmpLen b (recName i) x.bytes ≤ SIMPLEFS_DEFAULT_BLOCK_SIZE := by
    rw [looked, List.forall_mem_flatMap]
    refine forall₂_congr fun i _ => ?_
    rw [List.forall_mem_cons, List.forall_mem_singleton, record_inside]
    rfl
  rw [hmem, ← visits_below]
  constructor
  · intro h
    exact ⟨fun i hi => (h i hi).1, fun i hi hk => (h i (mem_visits_zero.2 ⟨hi, hk⟩)).2⟩
  · intro h i hi
    exact ⟨h.1 i hi, h.2 i (mem_visits_zero.1 hi).1 (mem_visits_zero.1 hi).2⟩

/-- `simplefs_get_inode` looks only at slots of the block, and finds the number. -/
theorem getInode_inside {g : Image} {ino : ℕ} :
    (∀ a ∈ slots g (fun z => z.inodeNo == ino) g.sb.inodesCount, a.Inside) ∧
      ((List.range g.sb.inodesCount).find? fun i => (g.store i).inodeNo == ino).isSome = true ↔
    ∃ j < SLOTS_PER_BLOCK, j < g.sb.inodesCount ∧ (g.store j).inodeNo = ino := by
  rw [slots_inside]
  constructor
  · rintro ⟨hscan, hfound⟩
    obtain ⟨j, hj⟩ := Option.isSome_iff_exists.1 hfound
    obtain ⟨hlt, hno, hfirst⟩ := find_range.1 hj
    refine ⟨j, ?_, hlt, by simpa using hno⟩
    rcases hscan with hle | ⟨i, hi, hp⟩
    · omega
    · by_contra hj
      rw [hfirst i (by omega)] at hp
      exact Bool.false_ne_true hp
  · rintro ⟨j, hj, hlt, hno⟩
    refine ⟨Or.inr ⟨j, hj, by simpa using hno⟩, ?_⟩
    rw [List.find?_isSome]
    exact ⟨j, List.mem_range.2 hlt, by simpa using hno⟩

/-- What a lookup touches. -/
theorem lookup_touched (s : Traced) (p : ℕ) : ((lookup dir x p).exec s).2.touched =
    s.touched ++ [.inode (s.mem.priv dir).isSome] ++
      if (s.mem.priv dir).isSome then
        looked (dirBlock s.mem dir) (s.mem.sfs dir).dirChildrenCount x ++
          match findName (dirBlock s.mem dir) (s.mem.sfs dir).dirChildrenCount x with
          | none => []
          | some r =>
            let ino := recIno (dirBlock s.mem dir) r
            slots s.mem.image (fun z => z.inodeNo == ino) s.mem.image.sb.inodesCount ++
              [.inode ((List.range s.mem.image.sb.inodesCount).find? fun i =>
                (s.mem.image.store i).inodeNo == ino).isSome]
      else [] := by
  unfold lookup deref
  rw [exec_bind, exec_pass]
  dsimp only [id]
  cases hp : s.mem.priv dir with
  | none => simp
  | some y =>
    have hblk : (inodeAt y 0).dataBlockNumber = (s.mem.sfs dir).dataBlockNumber := by
      rw [sfs_of_priv hp]
    simp only [Option.map_some, hblk, exec_bind, exec_pass, id, Option.isSome_some, if_true, dirBlock]
    cases hr : findName (s.mem.blocks (s.mem.sfs dir).dataBlockNumber)
      (s.mem.sfs dir).dirChildrenCount x with
    | none => simp
    | some r =>
      simp only [Option.map_some, exec_bind, getInode, exec_pass, id]
      cases hj : (List.range s.mem.image.sb.inodesCount).find? fun i =>
        (s.mem.image.store i).inodeNo == recIno (s.mem.blocks (s.mem.sfs dir).dataBlockNumber) r with
      | none => simp
      | some j => simp [exec_bind, exec_update]

theorem lookup_safe_iff {s : Traced} {p : ℕ} :
    ((lookup dir x p).exec s).2.Safe ↔ s.Safe ∧ LookupInside s.mem dir x := by
  rw [Traced.Safe, lookup_touched, List.forall_mem_append, List.forall_mem_append,
    List.forall_mem_singleton, inode_inside, ← Traced.Safe, and_assoc]
  refine and_congr_right fun _ => ?_
  constructor
  · rintro ⟨hparent, h⟩
    rw [if_pos hparent, List.forall_mem_append, looked_inside] at h
    refine ⟨hparent, h.1.1, h.1.2, fun r hr => ?_⟩
    have hino := h.2
    rw [hr] at hino
    dsimp only at hino
    rw [List.forall_mem_append, List.forall_mem_singleton] at hino
    exact getInode_inside.1 hino
  · intro h
    refine ⟨h.parent, ?_⟩
    rw [if_pos h.parent, List.forall_mem_append, looked_inside]
    refine ⟨⟨h.records, h.names⟩, ?_⟩
    cases hr : findName (dirBlock s.mem dir) (s.mem.sfs dir).dirChildrenCount x with
    | none => exact fun _ h => absurd h List.not_mem_nil
    | some r =>
      dsimp only
      rw [List.forall_mem_append, List.forall_mem_singleton]
      exact getInode_inside.2 (h.inode r hr)

/-- **When a listing is safe.** -/
def IterateInside (m : Mem) (p pos : ℕ) : Prop :=
  pos = 0 → (m.priv p).isSome = true ∧
    (S_ISDIR (m.sfs p).mode = true → (m.sfs p).dirChildrenCount ≤ RECORDS_PER_BLOCK)

theorem records_inside {n : ℕ} :
    (∀ a ∈ (List.range n).map Access.record, a.Inside) ↔ n ≤ RECORDS_PER_BLOCK := by
  rw [List.forall_mem_map]
  simp only [record_inside, List.mem_range]
  constructor
  · intro h
    by_contra hlt
    exact (h RECORDS_PER_BLOCK (by omega)).false
  · intro h i hi
    omega

theorem iterate_safe_iff {s : Traced} {p pos : ℕ} {room : ℕ → Bool} :
    ((iterate p pos room).exec s).2.Safe ↔ s.Safe ∧ IterateInside s.mem p pos := by
  unfold iterate deref
  by_cases hpos : pos = 0
  swap
  · rw [if_pos hpos]
    exact (and_iff_left fun h => absurd h hpos).symm
  rw [if_neg (not_not.2 hpos), exec_bind, exec_pass, IterateInside, imp_iff_right hpos]
  dsimp only [id]
  cases hp : s.mem.priv p with
  | none =>
    refine iff_of_false (fun h => ?_) (by simp)
    exact Bool.false_ne_true (h (.inode false) (by simp))
  | some y =>
    have hy : inodeAt y 0 = s.mem.sfs p := (sfs_of_priv hp).symm
    simp only [Option.map_some, Option.isSome_some, hy, true_and]
    have hinode : (∀ a ∈ s.touched ++ [.inode true], a.Inside) ↔ s.Safe := by
      rw [List.forall_mem_append, List.forall_mem_singleton, inode_inside, ← Traced.Safe]
      exact and_iff_left rfl
    cases hdir : S_ISDIR (s.mem.sfs p).mode with
    | false =>
      simp only [Bool.not_false, if_true, Bool.false_eq_true, false_imp_iff, and_true]
      exact hinode
    | true =>
      simp only [Bool.not_true, Bool.false_eq_true, if_false, true_imp_iff]
      rw [exec_pass, Traced.safe_append, records_inside]
      exact and_congr_left fun _ => hinode

end

/-! ## Mount -/

/-- **When a mount is safe**: the inode of the root directory is found in the inode store's block, or
    no more slots are counted than it has. -/
def MountInside (blocks : ℕ → Block) : Prop :=
  (imageOf blocks).sb.inodesCount ≤ SLOTS_PER_BLOCK ∨
    ∃ i < SLOTS_PER_BLOCK, ((imageOf blocks).store i).inodeNo = SIMPLEFS_ROOTDIR_INODE_NUMBER

theorem fillSuper_safe_iff {blocks : ℕ → Block} {s : Traced} (h : fillSuper blocks = .ok s) :
    s.Safe ↔ MountInside blocks := by
  unfold fillSuper at h
  dsimp only at h
  split_ifs at h
  cases h
  show (∀ a ∈ [] ++ slots (imageOf blocks) (fun z => z.inodeNo == SIMPLEFS_ROOTDIR_INODE_NUMBER)
    (imageOf blocks).sb.inodesCount, a.Inside) ↔ _
  rw [List.nil_append, slots_inside, MountInside]
  simp only [beq_iff_eq]

/-! ## Runs -/

section
variable [Target]

/-- When a call is safe. -/
def Call.Inside (m : Mem) : Call → Prop
  | lookup dir x _ => LookupInside m dir x
  | iterate p pos _ => IterateInside m p pos
  | create intr new dir x mode =>
    Begins intr m new mode → ∀ a, new = some a → CreateInside intr m dir a x mode

theorem Step.safe_iff {s t : Traced} {c : Call} (h : Step s c t) : t.Safe ↔ s.Safe ∧ c.Inside s.mem := by
  obtain ⟨-, rfl⟩ := h
  cases c with
  | lookup dir x p => exact lookup_safe_iff
  | iterate p pos room => exact iterate_safe_iff
  | create intr new dir x mode => exact createFsObject_safe_iff

/-- **Which runs are safe**: those after a safe mount in which every call is safe. -/
theorem inside_iff {blocks : ℕ → Block} {s t : Traced} {cs : List Call}
    (hmount : fillSuper blocks = .ok s) (h : Run Step s cs t) :
    t.Safe ↔ MountInside blocks ∧ Run (fun s c t => Step s c t ∧ c.Inside s.mem) s cs t := by
  rw [← fillSuper_safe_iff hmount]
  by_cases hs : s.Safe
  · rw [and_iff_right hs]
    exact Run.good_iff (I := fun _ t => t.Safe) (P := fun _ t => t.Safe) hs (fun _ _ h => h)
      (fun _ _ _ _ ht hstep hc => hstep.safe_iff.2 ⟨ht, hc⟩)
      (fun _ _ _ _ _ hstep hc hu => hc (hstep.safe_iff.1 hu).2)
      (fun _ _ _ _ ht hstep hu => ht (hstep.safe_iff.1 hu).1) h
  · -- what was touched stays touched
    refine iff_of_false (Run.inv (I := fun t => ¬ t.Safe) ?_ hs h) fun h => hs h.1
    exact fun _ _ _ ht hstep hu => ht (hstep.safe_iff.1 hu).1

end

section

attribute [local instance] x86

/-- A device with the right magic number and block size, `n` inodes counted, and nothing else. -/
def bareDisk (n : ℕ) : ℕ → Block := fun b =>
  if b = SIMPLEFS_SUPERBLOCK_BLOCK_NUMBER then
    ((Block.putLE (fun _ => 0) 8 8 SIMPLEFS_MAGIC).putLE 8 16 SIMPLEFS_DEFAULT_BLOCK_SIZE).putLE 8 24 n
  else fun _ => 0

theorem bareDisk_count {n : ℕ} (h : n < 2 ^ 64) : (imageOf (bareDisk n)).sb.inodesCount = n :=
  Block.getLE_putLE (h.trans_le (by norm_num))

theorem bareDisk_no_inode (n i : ℕ) : ((imageOf (bareDisk n)).store i).inodeNo = 0 := by
  have hblock : bareDisk n SIMPLEFS_INODESTORE_BLOCK_NUMBER = fun _ => 0 := rfl
  rw [imageOf]
  dsimp only [inodeAt]
  rw [hblock]
  generalize slotOff i + 8 = o
  simp [Block.getLE, Block.read, leNat]

/-- It can be mounted, and its root directory has no private inode. -/
theorem bareDisk_mount (n : ℕ) : ∃ s, fillSuper (bareDisk n) = .ok s ∧
    s.mem.inodes rootAddr = some ⟨SIMPLEFS_ROOTDIR_INODE_NUMBER, S_IFDIR, none⟩ := by
  have hmagic : (superAt (bareDisk n SIMPLEFS_SUPERBLOCK_BLOCK_NUMBER)).magic = SIMPLEFS_MAGIC := by
    refine (Block.getLE_putLE_disjoint (Or.inl (by omega))).trans ?_
    exact (Block.getLE_putLE_disjoint (Or.inl (by omega))).trans (Block.getLE_putLE (by decide))
  have hsize : (superAt (bareDisk n SIMPLEFS_SUPERBLOCK_BLOCK_NUMBER)).blockSize =
      SIMPLEFS_DEFAULT_BLOCK_SIZE :=
    (Block.getLE_putLE_disjoint (Or.inl (by omega))).trans (Block.getLE_putLE (by decide))
  have hfind : ((List.range (imageOf (bareDisk n)).sb.inodesCount).find? fun i =>
      ((imageOf (bareDisk n)).store i).inodeNo == SIMPLEFS_ROOTDIR_INODE_NUMBER) = none :=
    find_range_none.2 fun i _ => by rw [bareDisk_no_inode]; rfl
  refine ⟨mountRoot (bareDisk n), ?_, ?_⟩
  · rw [fillSuper, if_neg (not_not.2 hmagic), if_neg (not_not.2 hsize)]
  · rw [mountRoot_inodes, Function.update_self, hfind, Option.map_none]

/-- The lookup of a file in the root directory of the device without inodes. -/
theorem inside_iff_bareDisk : ∃ s, fillSuper (bareDisk 0) = .ok s ∧
    (((Call.lookup rootAddr nameA 1).after s).Safe ↔ MountInside (bareDisk 0) ∧
      Run (fun s c t => Step s c t ∧ c.Inside s.mem) s [.lookup rootAddr nameA 1]
        ((Call.lookup rootAddr nameA 1).after s)) := by
  obtain ⟨s, hmount, hroot⟩ := bareDisk_mount 0
  refine ⟨s, hmount, inside_iff hmount (.single ⟨?_, rfl⟩)⟩
  show (s.mem.inodes rootAddr).isSome = true
  rw [hroot]
  rfl

/-- **Two mounts that are not safe.**  With 103 inodes counted the mount itself looks behind the inode
    store's block; with none, the first lookup uses the `NULL` that it got for the root directory. -/
theorem bareDisk_unsafe : (∃ s, fillSuper (bareDisk 103) = .ok s ∧ ¬ s.Safe) ∧
    ∃ s, fillSuper (bareDisk 0) = .ok s ∧ ∃ t, Run Step s [.lookup rootAddr nameA 1] t ∧ ¬ t.Safe := by
  constructor
  · obtain ⟨s, hmount, -⟩ := bareDisk_mount 103
    refine ⟨s, hmount, fun hs => ?_⟩
    rcases (fillSuper_safe_iff hmount).1 hs with hle | ⟨i, -, hi⟩
    · rw [bareDisk_count (by decide)] at hle
      exact absurd hle (by decide)
    · rw [bareDisk_no_inode] at hi
      exact absurd hi (by decide)
  · obtain ⟨s, hmount, hroot⟩ := bareDisk_mount 0
    have hstep : Step s (.lookup rootAddr nameA 1) ((Call.lookup rootAddr nameA 1).after s) :=
      ⟨by show (s.mem.inodes rootAddr).isSome = true; rw [hroot]; rfl, rfl⟩
    refine ⟨s, hmount, _, .single hstep, fun ht => ?_⟩
    have hparent := (hstep.safe_iff.1 ht).2.parent
    rw [Mem.priv, hroot] at hparent
    exact Bool.false_ne_true hparent

end

end Simplefs.Buffers
