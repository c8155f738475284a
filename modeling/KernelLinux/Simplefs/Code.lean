/-
  simplefs — the functions of `simple.c`.

  The state is what the functions see: the cached blocks (the superblock is used
  in place, as `s_fs_info` points into its buffer) and the in-memory inodes with
  their private `struct simplefs_inode` (`i_private`).  The dentry cache belongs to
  the VFS; only `d_add` and `d_delete` touch it.

  Each function is a `Prog` over that state.  One `reads`/`modify` is one scan or
  update of a block or of an in-memory structure; the mutex and buffer calls stand
  where the C code makes them.

  What the code takes from the rest of the kernel are parameters: the address
  returned by `new_inode` and the uninitialized memory of `kmem_cache_alloc`
  (`NewInode`), the outcome of `generic_write_checks`, and how much of a user
  buffer is accessible.
-/
import KernelLinux.Lib.Prog
import KernelLinux.Simplefs.Disk
import Mathlib.Data.List.Range

namespace Simplefs

open Bytes Prog

/-! ## State -/

/-- An in-memory inode (`struct inode`); `priv` is `i_private`, `none` for `NULL`. -/
structure Inode where
  iIno : ℕ
  iMode : ℕ
  priv : Option SimplefsInode

/-- The cached blocks, the in-memory inodes by address, and the dentry cache: the inode bound to
    a name below the directory at an address. -/
structure Fs extends Image where
  inodes : ℕ → Option Inode
  dcache : ℕ → Name → Option ℕ

namespace Fs

/-- `SIMPLEFS_INODE(inode)`, for the inode at address `p`. -/
def sfs (s : Fs) (p : ℕ) : SimplefsInode := ((s.inodes p).bind Inode.priv).getD default

/-- Update the private inode at address `p`. -/
def setSfs (s : Fs) (p : ℕ) (f : SimplefsInode → SimplefsInode) : Fs :=
  { s with
    inodes := Function.update s.inodes p
      ((s.inodes p).map fun v => { v with priv := v.priv.map f }) }

/-- Update a data block. -/
def setBlock (s : Fs) (b : ℕ) (f : Block → Block) : Fs :=
  { s with data := Function.update s.data b (f (s.data b)) }

/-- Update an inode-store slot. -/
def setSlot (s : Fs) (i : ℕ) (z : SimplefsInode) : Fs :=
  { s with store := Function.update s.store i z }

/-- `d_add(dentry, inode)` -/
def dAdd (s : Fs) (dir : ℕ) (x : Name) (p : ℕ) (v : Inode) : Fs :=
  { s with
    inodes := Function.update s.inodes p (some v)
    dcache := Function.update s.dcache dir (Function.update (s.dcache dir) x (some p)) }

/-- `d_delete(dentry)` -/
def dDelete (s : Fs) (dir : ℕ) (x : Name) : Fs :=
  { s with dcache := Function.update s.dcache dir (Function.update (s.dcache dir) x none) }

end Fs

/-- The mutexes of `simple.c`. -/
inductive Mutex where
  /-- `simplefs_directory_children_update_lock` -/
  | childrenUpdate
  /-- `simplefs_inodes_mgmt_lock` -/
  | inodesMgmt
  /-- `simplefs_sb_lock` -/
  | sb
  deriving DecidableEq

/-- The calls of `mutex_lock_interruptible` in `simple.c`. -/
inductive Site where
  /-- `simplefs_create_fs_object`, on entry -/
  | createChildren
  /-- `simplefs_sb_get_objects_count` -/
  | objectsCount
  /-- `simplefs_sb_get_a_freeblock` -/
  | freeblock
  /-- `simplefs_inode_add`, first -/
  | addMgmt
  /-- `simplefs_inode_add`, second -/
  | addSb
  /-- `simplefs_create_fs_object`, before the parent's inode is updated -/
  | createMgmt
  /-- `simplefs_inode_save` -/
  | saveSb
  /-- `simplefs_write` -/
  | writeMgmt
  deriving DecidableEq

/-- The mutex a call takes. -/
def Site.mutex : Site → Mutex
  | createChildren => .childrenUpdate
  | objectsCount | addMgmt | createMgmt | writeMgmt => .inodesMgmt
  | freeblock | addSb | saveSb => .sb

/-- Error codes (`EPERM`, ...), returned negated in C. -/
inductive Errno where
  | eperm | eintr | eio | eagain | enomem | efault | einval | efbig | enospc | erestartsys
  deriving DecidableEq

/-- The programs of `simple.c`. -/
abbrev FsProg := Prog Fs Site Mutex ℕ

/-! ## Superblock -/

/-- What the target makes of `1 << i` on a 32-bit `int` for the shift counts the C standard
    leaves undefined. -/
class Target where
  shl : ℕ → BitVec 32

/-- x86 masks the shift count of a 32-bit shift to five bits. -/
abbrev x86 : Target := ⟨fun i => 1#32 <<< (i % 32)⟩

section
variable [Target]

/-- `(uint64_t)(1 << i)` -/
def oneShl (i : ℕ) : BitVec 64 := (if i < 32 then 1#32 <<< i else Target.shl i).signExtend 64

/-- The scan of `simplefs_sb_get_a_freeblock`. -/
def findFreeBlock (free : BitVec 64) : Option ℕ :=
  (List.range SIMPLEFS_MAX_FILESYSTEM_OBJECTS_SUPPORTED).find? fun i =>
    3 ≤ i && free &&& oneShl i != 0

end

/-- `simplefs_sb_sync` -/
def sbSync : FsProg Unit := do
  markBufferDirty SIMPLEFS_SUPERBLOCK_BLOCK_NUMBER
  syncDirtyBuffer SIMPLEFS_SUPERBLOCK_BLOCK_NUMBER

/-- `simplefs_sb_get_a_freeblock`.  An interrupted attempt jumps to `end`, which unlocks. -/
def sbGetAFreeblock [Target] : FsProg (Except Errno ℕ) := do
  if ← mutexLockInterruptible .freeblock then
    mutexUnlock .sb
    pure (.error .eintr)
  else
    match ← reads fun s => findFreeBlock s.sb.freeBlocks with
    | none =>
      mutexUnlock .sb
      pure (.error .enospc)
    | some i =>
      modify fun s => { s with sb := { s.sb with freeBlocks := s.sb.freeBlocks &&& ~~~ oneShl i } }
      sbSync
      mutexUnlock .sb
      pure (.ok i)

/-- `simplefs_sb_get_objects_count` -/
def sbGetObjectsCount : FsProg (Except Errno ℕ) := do
  if ← mutexLockInterruptible .objectsCount then
    pure (.error .eintr)
  else
    let count ← reads fun s => s.sb.inodesCount
    mutexUnlock .inodesMgmt
    pure (.ok count)

/-! ## Inode store -/

/-- The loop of `simplefs_inode_search` at slot `i`, with `n` counts left. -/
def searchLoop (store : ℕ → SimplefsInode) (tmp : ℕ) : ℕ → ℕ → Option ℕ
  | 0, i => if (store i).inodeNo = tmp then some i else none
  | n + 1, i => if (store i).inodeNo = tmp then some i else searchLoop store tmp n (i + 1)

/-- `simplefs_inode_search`: the index of the slot found. -/
def inodeSearch (g : Image) (search : SimplefsInode) : Option ℕ :=
  let tmp := if search.inodeNo = 0 then search.deadInodeNo else search.inodeNo
  searchLoop g.store tmp g.sb.inodesCount 0

/-- The first counted slot with `inode_no == 0`. -/
def firstDead (g : Image) : Option ℕ :=
  (List.range g.sb.inodesCount).find? fun i => (g.store i).inodeNo == 0

/-- `simplefs_get_dead_inode_no`: the number and data block of a dead slot. -/
def getDeadInodeNo : FsProg (Option (ℕ × ℕ)) := do
  let dead ← reads fun s => (firstDead s.toImage).map fun i =>
    ((s.store i).deadInodeNo, (s.store i).dataBlockNumber)
  markBufferDirty SIMPLEFS_INODESTORE_BLOCK_NUMBER
  pure dead

/-- The dead slot `simplefs_inode_add` looks for. -/
def findDead (g : Image) (ino : ℕ) : Option ℕ :=
  (List.range g.sb.inodesCount).find? fun i =>
    (g.store i).inodeNo == 0 && (g.store i).deadInodeNo == ino

/-- `simplefs_inode_add` -/
def inodeAdd (z : SimplefsInode) (exist : Bool) : FsProg Unit := do
  if ← mutexLockInterruptible .addMgmt then
    pure ()
  else if ← mutexLockInterruptible .addSb then
    pure ()
  else
    if exist then
      modify fun s => match findDead s.toImage z.inodeNo with
        | some i => s.setSlot i z
        | none => s
    else
      modify fun s => s.setSlot s.sb.inodesCount z
      modify fun s => { s with sb := { s.sb with inodesCount := s.sb.inodesCount + 1 } }
      sbSync
    markBufferDirty SIMPLEFS_INODESTORE_BLOCK_NUMBER
    mutexUnlock .sb
    mutexUnlock .inodesMgmt

/-- The `memcpy` of `simplefs_inode_save`, to the slot found. -/
def saveSlot (p : ℕ) (s : Fs) : Fs :=
  match inodeSearch s.toImage (s.sfs p) with
  | some i => s.setSlot i (s.sfs p)
  | none => s

/-- `simplefs_inode_save`, for the private inode at address `p`. -/
def inodeSave (p : ℕ) : FsProg (Except Errno Unit) := do
  if ← mutexLockInterruptible .saveSb then
    pure (.error .eintr)
  else
    match ← step (saveSlot p) fun s => ret (inodeSearch s.toImage (s.sfs p)) with
    | some _ =>
      markBufferDirty SIMPLEFS_INODESTORE_BLOCK_NUMBER
      syncDirtyBuffer SIMPLEFS_INODESTORE_BLOCK_NUMBER
      mutexUnlock .sb
      pure (.ok ())
    | none =>
      mutexUnlock .sb
      pure (.error .eio)

/-- `simplefs_get_inode`: a copy of the slot with the given number. -/
def getInode (g : Image) (ino : ℕ) : Option SimplefsInode :=
  ((List.range g.sb.inodesCount).find? fun i => (g.store i).inodeNo == ino).map g.store

/-! ## Directories -/

/-- What `new_inode` and `kmem_cache_alloc` return: the address of the new inode and the
    uninitialized private inode. -/
structure NewInode where
  addr : ℕ
  junk : SimplefsInode

/-- The first tombstone among the counted records of a directory. -/
def firstTombstone (b : Block) (count : ℕ) : Option ℕ :=
  (List.range count).find? fun i => recIno b i == 0

/-- `simplefs_create_fs_object` after the call of `simplefs_inode_add`; `append` is the condition
    `!exist || (exist && !samedir)`. -/
def createCommit (a : NewInode) (dir blk : ℕ) (x : Name) (z : SimplefsInode) (append : Bool) :
    FsProg (Except Errno Unit) := do
  if append then
    modify fun s => s.setBlock blk fun b =>
      appendRecord b (s.sfs dir).dirChildrenCount x z.inodeNo
  markBufferDirty blk
  syncDirtyBuffer blk
  if ← mutexLockInterruptible .createMgmt then
    mutexUnlock .childrenUpdate
    pure (.error .eintr)
  else
    let saved ← if append then do
        modify fun s => s.setSfs dir fun y => { y with size := y.dirChildrenCount + 1 }
        inodeSave dir
      else pure (.ok ())
    match saved with
    | .error e =>
      mutexUnlock .inodesMgmt
      mutexUnlock .childrenUpdate
      pure (.error e)
    | .ok _ =>
      mutexUnlock .inodesMgmt
      mutexUnlock .childrenUpdate
      modify fun s => s.dAdd dir x a.addr ⟨z.inodeNo, z.mode, some z⟩
      pure (.ok ())

/-- `simplefs_create_fs_object` from the call of `simplefs_inode_add` on. -/
def createFinish (a : NewInode) (dir blk : ℕ) (x : Name) (z : SimplefsInode)
    (exist samedir : Bool) : FsProg (Except Errno Unit) := do
  inodeAdd z exist
  createCommit a dir blk x z (!exist || !samedir)

/-- `simplefs_create_fs_object` from the allocation of the in-memory inode on; `ino` is its
    `i_ino`. -/
def createBody [Target] (a : NewInode) (dir : ℕ) (x : Name) (mode ino : ℕ) :
    FsProg (Except Errno Unit) := do
  let z := { a.junk with inodeNo := ino, mode := mode, size := 0 }
  let blk ← reads fun s => (s.sfs dir).dataBlockNumber
  match ← getDeadInodeNo with
  | some (n, b) =>
    let samedir ← step (fun s => match firstTombstone (s.data blk) (s.sfs dir).dirChildrenCount with
        | some i => s.setBlock blk fun c => reuseRecord c i x n
        | none => s)
      fun s => ret (firstTombstone (s.data blk) (s.sfs dir).dirChildrenCount).isSome
    createFinish a dir blk x { z with inodeNo := n, dataBlockNumber := b } true samedir
  | none =>
    match ← sbGetAFreeblock with
    | .error e =>
      mutexUnlock .childrenUpdate
      pure (.error e)
    | .ok b => createFinish a dir blk x { z with dataBlockNumber := b } false false

/-- `simplefs_create_fs_object`, in the directory whose inode is at address `dir`. -/
def createFsObject [Target] (new : Option NewInode) (dir : ℕ) (x : Name) (mode : ℕ) :
    FsProg (Except Errno Unit) := do
  if ← mutexLockInterruptible .createChildren then
    pure (.error .eintr)
  else
    match ← sbGetObjectsCount with
    | .error e =>
      mutexUnlock .childrenUpdate
      pure (.error e)
    | .ok count =>
      if SIMPLEFS_MAX_FILESYSTEM_OBJECTS_SUPPORTED ≤ count then
        mutexUnlock .childrenUpdate
        pure (.error .enospc)
      else if !S_ISDIR mode && !S_ISREG mode then
        mutexUnlock .childrenUpdate
        pure (.error .einval)
      else
        match new with
        | none =>
          mutexUnlock .childrenUpdate
          pure (.error .enomem)
        | some a =>
          createBody a dir x mode (count + SIMPLEFS_START_INO - SIMPLEFS_RESERVED_INODES + 1)

/-- `simplefs_create` -/
def create [Target] (new : Option NewInode) (dir : ℕ) (x : Name) (mode : ℕ) :
    FsProg (Except Errno Unit) := createFsObject new dir x mode

/-- `simplefs_mkdir` -/
def mkdir [Target] (new : Option NewInode) (dir : ℕ) (x : Name) (mode : ℕ) :
    FsProg (Except Errno Unit) := createFsObject new dir x (S_IFDIR ||| mode)

/-- The first counted record of a directory that holds the number `ino`. -/
def findIno (b : Block) (count ino : ℕ) : Option ℕ :=
  (List.range count).find? fun i => recIno b i == ino

/-- `simplefs_unlink`, for the inode at address `p` in the directory at `dir`. -/
def unlink (dir p : ℕ) : FsProg (Except Errno Unit) := do
  let blk ← reads fun s => (s.sfs dir).dataBlockNumber
  match ← reads fun s => findIno (s.data blk) (s.sfs dir).dirChildrenCount
      ((s.inodes p).map Inode.iIno |>.getD 0) with
  | none => pure (.ok ())
  | some i =>
    modify fun s => s.setSfs p fun z => { z with deadInodeNo := recIno (s.data blk) i, inodeNo := 0 }
    let _ ← inodeSave p
    modify fun s => s.setBlock blk fun b => clearRecord b i
    markBufferDirty blk
    syncDirtyBuffer blk
    pure (.ok ())

/-- The first counted record of a directory with a number and the name `x`. -/
def findName (b : Block) (count : ℕ) (x : Name) : Option ℕ :=
  (List.range count).find? fun i => recIs b i x && recIno b i != 0

/-- The outcome of `simplefs_lookup`; `nullDeref` is the access of `sfs_inode->mode` when
    `simplefs_get_inode` returned `NULL`. -/
inductive Lookup where
  | negative
  | bound (v : Inode)
  | nullDeref

/-- `simplefs_lookup`, with the new inode at address `p`. -/
def lookup (dir : ℕ) (x : Name) (p : ℕ) : FsProg Lookup := do
  match ← reads fun s =>
      let b := s.data (s.sfs dir).dataBlockNumber
      (findName b (s.sfs dir).dirChildrenCount x).map (recIno b) with
  | none => pure .negative
  | some ino =>
    match ← reads fun s => getInode s.toImage ino with
    | none => pure .nullDeref
    | some z =>
      modify fun s => s.dAdd dir x p ⟨ino, z.mode, some z⟩
      pure (.bound ⟨ino, z.mode, some z⟩)

/-! ## Files -/

/-- `simplefs_write` through the inode at address `p`.  `wc` is what `generic_write_checks` makes
    of `*ppos` and `len`; the user buffer can be read up to its end `user`. -/
def write (wc : Except Errno (ℕ × ℕ)) (p : ℕ) (user : List UInt8) : FsProg (Except Errno ℕ) := do
  match wc with
  | .error e => pure (.error e)
  | .ok (pos, len) =>
    let blk ← reads fun s => (s.sfs p).dataBlockNumber
    modify fun s => s.setBlock blk fun b => b.write pos (copyFromUser user len)
    if user.length < len then
      pure (.error .efault)
    else
      markBufferDirty blk
      syncDirtyBuffer blk
      if ← mutexLockInterruptible .writeMgmt then
        pure (.error .eintr)
      else
        modify fun s => s.setSfs p fun z => { z with size := pos + len }
        let saved ← inodeSave p
        mutexUnlock .inodesMgmt
        pure (saved.map fun _ => len)

/-- `simplefs_read` at `*ppos = pos` into a user buffer of which `room` bytes can be written: the
    bytes copied and the new position. -/
def read (p pos len room : ℕ) : FsProg (Except Errno (List UInt8 × ℕ)) :=
  reads fun s =>
    let z := s.sfs p
    if z.fileSize ≤ pos then .ok ([], pos)
    else
      let nbytes := min z.fileSize len
      if room < nbytes then .error .efault
      else .ok ((s.data z.dataBlockNumber).read 0 nbytes, pos + nbytes)

/-! ## Mounting -/

/-- The address of the root directory's inode. -/
def rootAddr : ℕ := 0

/-- `simplefs_fill_super` on the blocks of a device. -/
def fillSuper (g : Image) : Except Errno Fs :=
  if g.sb.magic ≠ SIMPLEFS_MAGIC then .error .eperm
  else if g.sb.blockSize ≠ SIMPLEFS_DEFAULT_BLOCK_SIZE then .error .eperm
  else .ok
    { g with
      inodes := Function.update (fun _ => none) rootAddr
        (some ⟨SIMPLEFS_ROOTDIR_INODE_NUMBER, S_IFDIR, getInode g SIMPLEFS_ROOTDIR_INODE_NUMBER⟩)
      dcache := fun _ _ => none }

end Simplefs
