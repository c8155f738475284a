/-
  simplefs — the lock discipline.

  An operation takes and releases `simplefs_directory_children_update_lock`,
  `simplefs_inodes_mgmt_lock` and `simplefs_sb_lock` in properly nested order,
  and holds none when it returns.  `locks_iff` says in which runs: in all but
  those of create and mkdir in which the allocation of a block is interrupted (its
  error exit releases a mutex it did not take) or the second lock attempt of
  `simplefs_inode_add` is (its error exit keeps the first mutex).
-/
import KernelLinux.Simplefs.Mount

namespace Simplefs

open Bytes Prog

/-- The lock order. -/
def Mutex.rank : Mutex → ℕ
  | .childrenUpdate => 0
  | .inodesMgmt => 1
  | .sb => 2

/-- The set of mutexes an operation holds. -/
def held (c i b : Bool) : Mutex → Bool
  | .childrenUpdate => c
  | .inodesMgmt => i
  | .sb => b

theorem forall_mutex {P : Mutex → Prop} :
    (∀ l, P l) ↔ P .childrenUpdate ∧ P .inodesMgmt ∧ P .sb :=
  ⟨fun h => ⟨h _, h _, h _⟩, fun h l => by cases l; exacts [h.1, h.2.1, h.2.2]⟩

section
variable (c i b x : Bool)

@[simp] theorem held_childrenUpdate : held c i b .childrenUpdate = c := rfl
@[simp] theorem held_inodesMgmt : held c i b .inodesMgmt = i := rfl
@[simp] theorem held_sb : held c i b .sb = b := rfl

@[simp] theorem update_childrenUpdate :
    Function.update (held c i b) .childrenUpdate x = held x i b := by
  funext l; cases l <;> rfl

@[simp] theorem update_inodesMgmt : Function.update (held c i b) .inodesMgmt x = held c x b := by
  funext l; cases l <;> rfl

@[simp] theorem update_sb : Function.update (held c i b) .sb x = held c i x := by
  funext l; cases l <;> rfl

end

/-- No mutex is held. -/
def Released (h : Mutex → Bool) : Prop := ∀ l, h l = false

theorem released_held {c i b : Bool} :
    Released (held c i b) ↔ c = false ∧ i = false ∧ b = false := forall_mutex

section
variable (intr : Site → Bool)

/-- The mutex operations of a run of `p` from `s`, holding `h`, are properly nested. -/
abbrev Nested {α : Type} (Q : α → Fs → (Mutex → Bool) → Prop) (p : FsProg α) (s : Fs)
    (h : Mutex → Bool) : Prop := p.Disciplined Site.mutex intr Mutex.rank Q s h

/-! ## The helpers -/

theorem nested_inodeSave (Q : Except Errno Unit → Fs → (Mutex → Bool) → Prop) (p : ℕ) (s : Fs)
    (c i : Bool) : Nested intr Q (inodeSave p) s (held c i false) ↔
      if intr .saveSb then Q (.error .eintr) s (held c i false)
      else match inodeSearch s.toImage (s.sfs p) with
        | some _ => Q (.ok ()) (saveSlot p s) (held c i false)
        | none => Q (.error .eio) (saveSlot p s) (held c i false) := by
  unfold inodeSave Nested
  simp only [disciplined_bind, disciplined_mutexLockInterruptible]
  by_cases hs : intr .saveSb = true
  · simp [hs]
  · simp only [hs, Bool.false_eq_true, if_false, disciplined_bind, disciplined_step]
    cases inodeSearch s.toImage (s.sfs p) <;>
      simp [Site.mutex, forall_mutex, Mutex.rank, disciplined_bind]

theorem nested_inodeAdd (Q : Unit → Fs → (Mutex → Bool) → Prop) (z : SimplefsInode) (exist : Bool)
    (s : Fs) (c : Bool) : Nested intr Q (inodeAdd z exist) s (held c false false) ↔
      if intr .addMgmt then Q () s (held c false false)
      else if intr .addSb then Q () s (held c true false)
      else Q () (addSlot z exist s) (held c false false) := by
  unfold inodeAdd Nested
  simp only [disciplined_bind, disciplined_mutexLockInterruptible]
  by_cases h1 : intr .addMgmt = true
  · simp [h1]
  by_cases h2 : intr .addSb = true
  · simp [h1, h2, disciplined_bind, Site.mutex, forall_mutex, Mutex.rank]
  cases exist with
  | false => simp [h1, h2, disciplined_bind, Site.mutex, forall_mutex, Mutex.rank, sbSync, addSlot]
  | true =>
    cases hdead : findDead s.toImage z.inodeNo <;>
      simp [h1, h2, disciplined_bind, Site.mutex, forall_mutex, Mutex.rank, addSlot, hdead]

theorem nested_sbGetAFreeblock [Target] (Q : Except Errno ℕ → Fs → (Mutex → Bool) → Prop) (s : Fs)
    (c i : Bool) : Nested intr Q sbGetAFreeblock s (held c i false) ↔
      intr .freeblock = false ∧
        Q (sbGetAFreeblock.exec s).1 (sbGetAFreeblock.exec s).2 (held c i false) := by
  rw [exec_sbGetAFreeblock]
  unfold sbGetAFreeblock Nested
  simp only [disciplined_bind, disciplined_mutexLockInterruptible]
  by_cases h : intr .freeblock = true
  · simp [h, disciplined_bind]
  · simp only [h, Bool.false_eq_true, if_false, disciplined_bind, disciplined_reads]
    cases findFreeBlock s.sb.freeBlocks <;>
      simp [disciplined_bind, Site.mutex, forall_mutex, Mutex.rank, sbSync, takeBlock]

/-! ## create and mkdir -/

theorem nested_createCommit (a : NewInode) (dir blk : ℕ) (x : Name) (z : SimplefsInode)
    (append : Bool) (s : Fs) (m : Bool) :
    Nested intr (fun _ _ h => Released h) (createCommit a dir blk x z append) s
      (held true m false) ↔ m = false := by
  unfold createCommit Nested
  cases m with
  | true =>
    by_cases h : intr .createMgmt = true <;> cases append <;>
      simp [h, disciplined_bind, Site.mutex, released_held]
  | false =>
    by_cases h : intr .createMgmt = true
    · cases append <;> simp [h, disciplined_bind, released_held]
    · cases append with
      | false =>
        simp [h, disciplined_bind, Site.mutex, forall_mutex, Mutex.rank, released_held]
      | true =>
        simp [h, disciplined_bind, Site.mutex, forall_mutex, Mutex.rank, released_held,
          nested_inodeSave]
        intro _
        split <;> simp

/-- The rest of create keeps the discipline unless `simplefs_inode_add` is interrupted between its
    two mutexes. -/
theorem nested_createFinish (a : NewInode) (dir blk : ℕ) (x : Name) (z : SimplefsInode)
    (exist samedir : Bool) (s : Fs) :
    Nested intr (fun _ _ h => Released h) (createFinish a dir blk x z exist samedir) s
        (held true false false) ↔
      ¬ (intr .addMgmt = false ∧ intr .addSb = true) := by
  unfold createFinish
  simp only [disciplined_bind, nested_inodeAdd, nested_createCommit]
  by_cases h1 : intr .addMgmt = true <;> by_cases h2 : intr .addSb = true <;> simp [h1, h2]

/-- create gets past its checks and the allocation of the inode. -/
def Starts (s : Fs) (new : Option NewInode) (mode : ℕ) : Prop :=
  intr .createChildren = false ∧ intr .objectsCount = false ∧
    s.sb.inodesCount < SIMPLEFS_MAX_FILESYSTEM_OBJECTS_SUPPORTED ∧
    (S_ISDIR mode = true ∨ S_ISREG mode = true) ∧ new.isSome = true

section
variable [Target]

/-- The interruptions after which create leaves a mutex in the wrong state: that of the block
    allocation, and that of the second lock attempt of `simplefs_inode_add`. -/
def Leaks (s : Fs) (new : Option NewInode) (mode : ℕ) : Prop :=
  Starts intr s new mode ∧
    (firstDead s.toImage = none ∧ intr .freeblock = true ∨
      (firstDead s.toImage = none →
        intr .freeblock = false ∧ (findFreeBlock s.sb.freeBlocks).isSome = true) ∧
      intr .addMgmt = false ∧ intr .addSb = true)

theorem nested_createBody (a : NewInode) (dir : ℕ) (x : Name) (mode ino : ℕ) (s : Fs) :
    Nested intr (fun _ _ h => Released h) (createBody a dir x mode ino) s (held true false false) ↔
      ¬ (firstDead s.toImage = none ∧ intr .freeblock = true ∨
        (firstDead s.toImage = none →
          intr .freeblock = false ∧ (findFreeBlock s.sb.freeBlocks).isSome = true) ∧
        intr .addMgmt = false ∧ intr .addSb = true) := by
  unfold createBody getDeadInodeNo
  simp only [disciplined_bind, disciplined_reads, disciplined_markBufferDirty, pure_def,
    disciplined_ret]
  cases hd : firstDead s.toImage with
  | some k =>
    simp only [Option.map_some, disciplined_bind, disciplined_step, nested_createFinish]
    simp
  | none =>
    simp only [Option.map_none, disciplined_bind, nested_sbGetAFreeblock, exec_sbGetAFreeblock]
    cases hf : findFreeBlock s.sb.freeBlocks with
    | none => simp [disciplined_bind, released_held]
    | some b =>
      simp only [nested_createFinish]
      by_cases h : intr .freeblock = true <;> simp [h]

theorem nested_createFsObject (new : Option NewInode) (dir : ℕ) (x : Name) (mode : ℕ) (s : Fs) :
    Nested intr (fun _ _ h => Released h) (createFsObject new dir x mode) s
      (held false false false) ↔ ¬ Leaks intr s new mode := by
  unfold createFsObject sbGetObjectsCount Leaks Starts
  simp only [disciplined_bind, disciplined_mutexLockInterruptible]
  by_cases h1 : intr .createChildren = true
  · simp [h1, released_held]
  by_cases h2 : intr .objectsCount = true
  · simp [h1, h2, disciplined_bind, released_held, Site.mutex, forall_mutex, Mutex.rank]
  by_cases h3 : SIMPLEFS_MAX_FILESYSTEM_OBJECTS_SUPPORTED ≤ s.sb.inodesCount
  · simp [h1, h2, h3, disciplined_bind, released_held, Site.mutex, forall_mutex, Mutex.rank]
  by_cases h4 : S_ISDIR mode = true ∨ S_ISREG mode = true
  · have h4' : (!S_ISDIR mode && !S_ISREG mode) = false := by
      rcases h4 with h | h <;> simp [h]
    cases new with
    | none =>
      simp [h1, h2, h3, h4', disciplined_bind, released_held, Site.mutex, forall_mutex, Mutex.rank]
    | some a =>
      have h3' : s.sb.inodesCount < SIMPLEFS_MAX_FILESYSTEM_OBJECTS_SUPPORTED := by omega
      simp [h1, h2, h3, h3', h4', h4, disciplined_bind, Site.mutex, forall_mutex, Mutex.rank,
        nested_createBody]
  · have h4' : (!S_ISDIR mode && !S_ISREG mode) = true := by simpa using h4
    simp [h1, h2, h3, h4', h4, disciplined_bind, released_held, Site.mutex, forall_mutex, Mutex.rank]

end

/-! ## unlink and write -/

theorem nested_unlink (dir p : ℕ) (s : Fs) :
    Nested intr (fun _ _ h => Released h) (unlink dir p) s (held false false false) := by
  unfold unlink Nested
  simp only [disciplined_bind, disciplined_reads]
  split
  · simp [released_held]
  · simp only [disciplined_bind, disciplined_modify, nested_inodeSave]
    split_ifs
    · simp [released_held]
    · split <;> simp [released_held]

theorem nested_write (wc : Except Errno (ℕ × ℕ)) (p : ℕ) (user : List UInt8) (s : Fs) :
    Nested intr (fun _ _ h => Released h) (write wc p user) s (held false false false) := by
  unfold write Nested
  obtain e | ⟨pos, len⟩ := wc
  · simp [released_held]
  · simp only [disciplined_bind, disciplined_reads, disciplined_modify]
    split_ifs with h
    · simp [released_held]
    by_cases hw : intr .writeMgmt = true
    · simp [hw, disciplined_bind, released_held]
    · simp only [disciplined_bind, disciplined_markBufferDirty, disciplined_syncDirtyBuffer,
        disciplined_mutexLockInterruptible, hw, Bool.false_eq_true, if_false, Site.mutex,
        held_inodesMgmt, update_inodesMgmt, disciplined_modify, nested_inodeSave]
      refine ⟨trivial, by simp [forall_mutex], ?_⟩
      split_ifs
      · simp [released_held]
      · split <;> simp [released_held]

/-! ## The operations -/

/-- An operation with its arguments. -/
inductive Call where
  | create (new : Option NewInode) (dir : ℕ) (x : Name) (mode : ℕ)
  | mkdir (new : Option NewInode) (dir : ℕ) (x : Name) (mode : ℕ)
  | unlink (dir p : ℕ)
  | write (wc : Except Errno (ℕ × ℕ)) (p : ℕ) (user : List UInt8)

section
variable [Target]

/-- The operation's mutex operations are properly nested and it returns holding none. -/
def Call.Locks (s : Fs) : Call → Prop
  | create new dir x mode => Nested intr (fun _ _ h => Released h)
      (Simplefs.create new dir x mode) s (held false false false)
  | mkdir new dir x mode => Nested intr (fun _ _ h => Released h)
      (Simplefs.mkdir new dir x mode) s (held false false false)
  | unlink dir p => Nested intr (fun _ _ h => Released h)
      (Simplefs.unlink dir p) s (held false false false)
  | write wc p user => Nested intr (fun _ _ h => Released h)
      (Simplefs.write wc p user) s (held false false false)

/-- The operation is a create or mkdir with one of the two bad interruptions. -/
def Call.Leaks (s : Fs) : Call → Prop
  | create new _ _ mode => Simplefs.Leaks intr s new mode
  | mkdir new _ _ mode => Simplefs.Leaks intr s new (S_IFDIR ||| mode)
  | unlink _ _ => False
  | write _ _ _ => False

/-- **The runs that keep the lock discipline.** -/
theorem locks_iff (s : Fs) (c : Call) : c.Locks intr s ↔ ¬ c.Leaks intr s := by
  cases c with
  | create new dir x mode => exact nested_createFsObject intr new dir x mode s
  | mkdir new dir x mode => exact nested_createFsObject intr new dir x (S_IFDIR ||| mode) s
  | unlink dir p => exact iff_of_true (nested_unlink intr dir p s) not_false
  | write wc p user => exact iff_of_true (nested_write intr wc p user s) not_false

end

end

/-- The first create after `mkfs-simplefs`, its block allocation interrupted, releases
    `simplefs_sb_lock` without holding it. -/
theorem createA_leaks : ¬ @Call.Locks (fun c => c == .freeblock) x86 blankFs
    (.create (some ⟨1, default⟩) rootAddr nameA S_IFREG) := by
  intro h
  have hleak : @Leaks (fun c => c == .freeblock) x86 blankFs (some ⟨1, default⟩) S_IFREG :=
    ⟨⟨rfl, rfl, by decide, Or.inr rfl, rfl⟩, Or.inl ⟨by decide, rfl⟩⟩
  exact (@nested_createFsObject (fun c => c == .freeblock) x86 (some ⟨1, default⟩) rootAddr nameA
    S_IFREG blankFs).1 h hleak

end Simplefs
