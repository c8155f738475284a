/-
  simplefs — what each function does when run alone with no lock attempt
  interrupted, as an update of the state.

  `exec_createFsObject`, `exec_unlink`, `exec_write`, `exec_lookup` hold in every
  state; the branches are those of the scans.
-/
import KernelLinux.Simplefs.Scan

namespace Simplefs

open Bytes Prog

/-! ## Updates of the state -/

namespace Fs
variable (s : Fs) (p : ℕ) (f : SimplefsInode → SimplefsInode)

@[simp] theorem setSfs_image : (s.setSfs p f).toImage = s.toImage := rfl
@[simp] theorem setSfs_dcache : (s.setSfs p f).dcache = s.dcache := rfl
@[simp] theorem setBlock_sb (b : ℕ) (h : Block → Block) : (s.setBlock b h).sb = s.sb := rfl
@[simp] theorem setBlock_store (b : ℕ) (h : Block → Block) : (s.setBlock b h).store = s.store := rfl
@[simp] theorem setBlock_inodes (b : ℕ) (h : Block → Block) :
    (s.setBlock b h).inodes = s.inodes := rfl
@[simp] theorem setBlock_sfs (b : ℕ) (h : Block → Block) : (s.setBlock b h).sfs = s.sfs := rfl
@[simp] theorem setSlot_sb (i : ℕ) (z : SimplefsInode) : (s.setSlot i z).sb = s.sb := rfl
@[simp] theorem setSlot_data (i : ℕ) (z : SimplefsInode) : (s.setSlot i z).data = s.data := rfl
@[simp] theorem setSlot_inodes (i : ℕ) (z : SimplefsInode) :
    (s.setSlot i z).inodes = s.inodes := rfl
@[simp] theorem setSlot_sfs (i : ℕ) (z : SimplefsInode) : (s.setSlot i z).sfs = s.sfs := rfl
@[simp] theorem dAdd_image (d : ℕ) (x : Name) (v : Inode) :
    (s.dAdd d x p v).toImage = s.toImage := rfl
@[simp] theorem dDelete_image (d : ℕ) (x : Name) : (s.dDelete d x).toImage = s.toImage := rfl
@[simp] theorem dDelete_inodes (d : ℕ) (x : Name) : (s.dDelete d x).inodes = s.inodes := rfl

variable {p} in
theorem dAdd_sfs_ne {q : ℕ} (d : ℕ) (x : Name) (v : Inode) (h : q ≠ p) :
    (s.dAdd d x p v).sfs q = s.sfs q := by
  simp [sfs, dAdd, Function.update_of_ne h]

variable {s p} in
theorem sfs_eq {v : Inode} {z : SimplefsInode} (hv : s.inodes p = some v) (hz : v.priv = some z) :
    s.sfs p = z := by
  simp [sfs, hv, hz]

variable {s p} in
theorem setSfs_inodes {v : Inode} {z : SimplefsInode} (hv : s.inodes p = some v)
    (hz : v.priv = some z) :
    (s.setSfs p f).inodes = Function.update s.inodes p (some { v with priv := some (f z) }) := by
  simp [setSfs, hv, hz]

variable {s p} in
theorem setSfs_sfs {v : Inode} {z : SimplefsInode} (hv : s.inodes p = some v)
    (hz : v.priv = some z) : (s.setSfs p f).sfs p = f z := by
  have := setSfs_inodes f hv hz
  exact sfs_eq (v := { v with priv := some (f z) }) (by rw [this, Function.update_self]) rfl

/-- An update of a private inode keeps the kinds of the inodes. -/
theorem setSfs_mode (q : ℕ) :
    ((s.setSfs p f).inodes q).map Inode.iMode = (s.inodes q).map Inode.iMode := by
  by_cases hq : q = p
  · subst hq
    simp only [setSfs, Function.update_self, Option.map_map]
    rfl
  · simp only [setSfs, Function.update_of_ne hq]

theorem setSfs_inodeNo (hf : ∀ z, (f z).inodeNo = z.inodeNo) :
    ((s.setSfs p f).sfs p).inodeNo = (s.sfs p).inodeNo := by
  simp only [Fs.sfs, Fs.setSfs, Function.update_self]
  cases s.inodes p with
  | none => rfl
  | some v =>
    simp only [Option.map_some, Option.bind_some]
    cases v.priv with
    | none => rfl
    | some z => exact hf z

end Fs

/-- `memcpy` of `z` to its slot, as `simplefs_inode_add` does it. -/
def addSlot (z : SimplefsInode) (exist : Bool) (s : Fs) : Fs :=
  if exist then
    match findDead s.toImage z.inodeNo with
    | some i => s.setSlot i z
    | none => s
  else
    { s.setSlot s.sb.inodesCount z with sb := { s.sb with inodesCount := s.sb.inodesCount + 1 } }

theorem addSlot_data (z : SimplefsInode) (exist : Bool) (s : Fs) :
    (addSlot z exist s).data = s.data := by
  unfold addSlot
  split_ifs
  · split <;> rfl
  · rfl

theorem addSlot_inodes (z : SimplefsInode) (exist : Bool) (s : Fs) :
    (addSlot z exist s).inodes = s.inodes := by
  unfold addSlot
  split_ifs
  · split <;> rfl
  · rfl

theorem addSlot_dcache (z : SimplefsInode) (exist : Bool) (s : Fs) :
    (addSlot z exist s).dcache = s.dcache := by
  unfold addSlot
  split_ifs
  · split <;> rfl
  · rfl

theorem addSlot_sfs (z : SimplefsInode) (exist : Bool) (s : Fs) :
    (addSlot z exist s).sfs = s.sfs := by
  funext p; rw [Fs.sfs, addSlot_inodes]; rfl

theorem saveSlot_sb (p : ℕ) (s : Fs) : (saveSlot p s).sb = s.sb := by
  unfold saveSlot
  split <;> rfl

theorem saveSlot_data (p : ℕ) (s : Fs) : (saveSlot p s).data = s.data := by
  unfold saveSlot
  split <;> rfl

theorem saveSlot_inodes (p : ℕ) (s : Fs) : (saveSlot p s).inodes = s.inodes := by
  unfold saveSlot
  split <;> rfl

theorem saveSlot_dcache (p : ℕ) (s : Fs) : (saveSlot p s).dcache = s.dcache := by
  unfold saveSlot
  split <;> rfl

/-- The state after a free block was taken from the map. -/
def takeBlock [Target] (i : ℕ) (s : Fs) : Fs :=
  { s with sb := { s.sb with freeBlocks := s.sb.freeBlocks &&& ~~~ oneShl i } }

/-- The update of the parent's record and in-memory inode when a name is appended. -/
def appendName (dir blk : ℕ) (x : Name) (ino : ℕ) (s : Fs) : Fs :=
  (s.setBlock blk fun b => appendRecord b (s.sfs dir).dirChildrenCount x ino).setSfs dir
    fun y => { y with size := y.dirChildrenCount + 1 }

/-! ## Runs -/

theorem exec_inodeAdd (z : SimplefsInode) (exist : Bool) (s : Fs) :
    (inodeAdd z exist).exec s = ((), addSlot z exist s) := by
  cases exist <;> rfl

theorem exec_inodeSave (p : ℕ) (s : Fs) : (inodeSave p).exec s =
    (match inodeSearch s.toImage (s.sfs p) with | some _ => .ok () | none => .error .eio,
      saveSlot p s) := by
  simp only [inodeSave, exec_bind, exec_mutexLockInterruptible, Bool.false_eq_true, if_false]
  rw [show (step (saveSlot p) fun s => ret (inodeSearch s.toImage (s.sfs p)) : FsProg _).exec s =
    (inodeSearch s.toImage (s.sfs p), saveSlot p s) from rfl]
  cases inodeSearch s.toImage (s.sfs p) <;> rfl

theorem exec_sbGetAFreeblock [Target] (s : Fs) : sbGetAFreeblock.exec s =
    match findFreeBlock s.sb.freeBlocks with
    | none => (.error .enospc, s)
    | some i => (.ok i, takeBlock i s) := by
  simp only [sbGetAFreeblock, exec_bind, exec_mutexLockInterruptible, Bool.false_eq_true, if_false,
    exec_reads]
  cases findFreeBlock s.sb.freeBlocks <;> rfl

theorem exec_createFinish_same (a : NewInode) (dir blk : ℕ) (x : Name) (z : SimplefsInode) (s : Fs) :
    (createFinish a dir blk x z true true).exec s =
      (.ok (), (addSlot z true s).dAdd dir x a.addr ⟨z.inodeNo, z.mode, some z⟩) := by
  simp [createFinish, createCommit, exec_bind, exec_inodeAdd]

theorem exec_createFinish_append (a : NewInode) (dir blk : ℕ) (x : Name) (z : SimplefsInode)
    (exist : Bool) (s : Fs) : (createFinish a dir blk x z exist false).exec s =
      let t := appendName dir blk x z.inodeNo (addSlot z exist s)
      match inodeSearch t.toImage (t.sfs dir) with
      | some _ => (.ok (), (saveSlot dir t).dAdd dir x a.addr ⟨z.inodeNo, z.mode, some z⟩)
      | none => (.error .eio, saveSlot dir t) := by
  have happ : ∀ t : Fs, (t.setBlock blk fun b => appendRecord b (t.sfs dir).dirChildrenCount x
      z.inodeNo).setSfs dir (fun y => { y with size := y.dirChildrenCount + 1 }) =
      appendName dir blk x z.inodeNo t := fun t => rfl
  simp only [createFinish, createCommit, exec_bind, exec_inodeAdd, Bool.not_false, Bool.or_true, if_true,
    exec_modify, exec_markBufferDirty, exec_syncDirtyBuffer, exec_mutexLockInterruptible,
    Bool.false_eq_true, if_false, exec_inodeSave, happ]
  generalize inodeSearch (appendName dir blk x z.inodeNo (addSlot z exist s)).toImage _ = o
  cases o <;> rfl

section
variable [Target]

theorem exec_createBody (a : NewInode) (dir : ℕ) (x : Name) (mode ino : ℕ) (s : Fs) :
    (createBody a dir x mode ino).exec s =
      let z := { a.junk with inodeNo := ino, mode := mode, size := 0 }
      let blk := (s.sfs dir).dataBlockNumber
      match firstDead s.toImage with
      | some k =>
        let n := (s.store k).deadInodeNo
        let z := { z with inodeNo := n, dataBlockNumber := (s.store k).dataBlockNumber }
        match firstTombstone (s.data blk) (s.sfs dir).dirChildrenCount with
        | some i => (createFinish a dir blk x z true true).exec
            (s.setBlock blk fun c => reuseRecord c i x n)
        | none => (createFinish a dir blk x z true false).exec s
      | none =>
        match findFreeBlock s.sb.freeBlocks with
        | none => (.error .enospc, s)
        | some b => (createFinish a dir blk x { z with dataBlockNumber := b } false false).exec
            (takeBlock b s) := by
  have hdead : (getDeadInodeNo).exec s = ((firstDead s.toImage).map fun i =>
      ((s.store i).deadInodeNo, (s.store i).dataBlockNumber), s) := rfl
  simp only [createBody, exec_bind, exec_reads, hdead]
  cases firstDead s.toImage with
  | none =>
    simp only [Option.map_none, exec_bind, exec_sbGetAFreeblock]
    cases findFreeBlock s.sb.freeBlocks <;> rfl
  | some k =>
    simp only [Option.map_some, exec_bind, exec]
    cases firstTombstone (s.data (s.sfs dir).dataBlockNumber) (s.sfs dir).dirChildrenCount <;> rfl

theorem exec_createFsObject (new : Option NewInode) (dir : ℕ) (x : Name) (mode : ℕ) (s : Fs) :
    (createFsObject new dir x mode).exec s =
      if SIMPLEFS_MAX_FILESYSTEM_OBJECTS_SUPPORTED ≤ s.sb.inodesCount then (.error .enospc, s)
      else if !S_ISDIR mode && !S_ISREG mode then (.error .einval, s)
      else match new with
        | none => (.error .enomem, s)
        | some a => (createBody a dir x mode (s.sb.inodesCount + SIMPLEFS_START_INO -
            SIMPLEFS_RESERVED_INODES + 1)).exec s := by
  have hcount : (sbGetObjectsCount).exec s = (.ok s.sb.inodesCount, s) := rfl
  simp only [createFsObject, exec_bind, exec_mutexLockInterruptible, Bool.false_eq_true, if_false,
    hcount]
  split_ifs
  · rfl
  · rfl
  · cases new <;> rfl

end

theorem exec_unlink (dir p : ℕ) (s : Fs) : (unlink dir p).exec s =
    let blk := (s.sfs dir).dataBlockNumber
    match findIno (s.data blk) (s.sfs dir).dirChildrenCount
      ((s.inodes p).map Inode.iIno |>.getD 0) with
    | none => (.ok (), s)
    | some i => (.ok (), (saveSlot p (s.setSfs p fun z =>
        { z with deadInodeNo := recIno (s.data blk) i, inodeNo := 0 })).setBlock blk
          fun b => clearRecord b i) := by
  simp only [unlink, exec_bind, exec_reads]
  cases findIno (s.data (s.sfs dir).dataBlockNumber) (s.sfs dir).dirChildrenCount
      ((s.inodes p).map Inode.iIno |>.getD 0) with
  | none => rfl
  | some i => simp [exec_bind, exec_inodeSave]

theorem exec_write (wc : Except Errno (ℕ × ℕ)) (p : ℕ) (user : List UInt8) (s : Fs) :
    (write wc p user).exec s =
      match wc with
      | .error e => (.error e, s)
      | .ok (pos, len) =>
        let t := s.setBlock (s.sfs p).dataBlockNumber fun b => b.write pos (copyFromUser user len)
        if user.length < len then (.error .efault, t)
        else
          let t := t.setSfs p fun z => { z with size := pos + len }
          (match inodeSearch t.toImage (t.sfs p) with | some _ => .ok len | none => .error .eio,
            saveSlot p t) := by
  obtain e | ⟨pos, len⟩ := wc
  · rfl
  · simp only [write, exec_bind, exec_reads, exec_modify]
    split_ifs
    · rfl
    · simp only [exec_bind, exec_markBufferDirty, exec_syncDirtyBuffer, exec_mutexLockInterruptible,
        Bool.false_eq_true, if_false, exec_modify, exec_inodeSave, exec_mutexUnlock, pure_def,
        exec_ret]
      split <;> rfl

theorem exec_lookup (dir : ℕ) (x : Name) (p : ℕ) (s : Fs) : (lookup dir x p).exec s =
    let b := s.data (s.sfs dir).dataBlockNumber
    match findName b (s.sfs dir).dirChildrenCount x with
    | none => (.negative, s)
    | some r =>
      match getInode s.toImage (recIno b r) with
      | none => (.nullDeref, s)
      | some z => (.bound ⟨recIno b r, z.mode, some z⟩,
          s.dAdd dir x p ⟨recIno b r, z.mode, some z⟩) := by
  simp only [lookup, exec_bind, exec_reads]
  cases findName (s.data (s.sfs dir).dataBlockNumber) (s.sfs dir).dirChildrenCount x with
  | none => rfl
  | some r =>
    simp only [Option.map_some, exec_bind, exec_reads]
    cases getInode s.toImage (recIno (s.data (s.sfs dir).dataBlockNumber) r) <;> rfl

end Simplefs
