/-
  simplefs — mount, lookup, iterate and create on the bytes of the cached blocks.

  `Code.lean` keeps the superblock and the inode store apart from the blocks of data.  Here
  everything is the bytes of a block, so a directory whose `data_block_number` is 0 or 1 shares
  them with the superblock or the inode store, and a private inode is the bytes that
  were copied from its slot.

  Each function also notes in `touched` the slots and records that it looks at, the bytes of a
  name that `strcmp` and `strcpy` go over, and whether a private inode that it uses was
  found by `simplefs_get_inode`.  `sb_bread` gives a buffer: where it fails, BUG_ON stops the kernel.

  * `lookup`, `iterate`, `createFsObject`, `fillSuper`: the functions, with the same steps and
    mutex operations as in `Code.lean`;
  * `Step`: a call, made alone and with no mutex held.
-/
import KernelLinux.Lib.Run
import KernelLinux.Lib.Search
import KernelLinux.Simplefs.Iterate
import KernelLinux.Simplefs.Locks

namespace Simplefs.Buffers

open Bytes Prog

/-! ## Layout -/

/-- `sizeof(struct simplefs_inode)` -/
def inodeSize : ℕ := 40

/-- Offset of slot `i` of the inode store. -/
def slotOff (i : ℕ) : ℕ := inodeSize * i

/-- The `struct simplefs_inode` at offset `o`; `mode_t` has 4 bytes, and 4 of padding follow. -/
def inodeAt (b : Block) (o : ℕ) : SimplefsInode where
  mode := b.getLE 4 o
  inodeNo := b.getLE 8 (o + 8)
  deadInodeNo := b.getLE 8 (o + 16)
  dataBlockNumber := b.getLE 8 (o + 24)
  size := b.getLE 8 (o + 32)

/-- The `struct simplefs_super_block` that a block holds. -/
def superAt (b : Block) : SuperBlock where
  version := b.getLE 8 0
  magic := b.getLE 8 8
  blockSize := b.getLE 8 16
  inodesCount := b.getLE 8 24
  freeBlocks := BitVec.ofNat 64 (b.getLE 8 32)

/-- What the blocks hold. -/
def imageOf (blocks : ℕ → Block) : Image where
  sb := superAt (blocks SIMPLEFS_SUPERBLOCK_BLOCK_NUMBER)
  store i := inodeAt (blocks SIMPLEFS_INODESTORE_BLOCK_NUMBER) (slotOff i)
  data := blocks

/-- `memcpy` of an inode from offset `o` of a block to newly allocated memory. -/
def copyInode (b : Block) (o : ℕ) : Block := Block.write (fun _ => 0) 0 (b.read o inodeSize)

/-- The bytes of `b + o` that `strcmp` looks at: up to the first that differs. -/
def strcmpLen (b : Block) (o : ℕ) : List UInt8 → ℕ
  | [] => 1
  | c :: s => if b o == c then strcmpLen b (o + 1) s + 1 else 1

/-! ## State -/

/-- What a function touches. -/
inductive Access where
  /-- a slot of the inode store -/
  | slot (i : ℕ)
  /-- a record of a directory -/
  | record (i : ℕ)
  /-- `n` bytes of a record from its name on -/
  | name (i n : ℕ)
  /-- the inode that `simplefs_get_inode` returned, if it `found` one -/
  | inode (found : Bool)

/-- The slot, the record and the bytes lie in their block; the inode is not `NULL`. -/
def Access.Inside : Access → Prop
  | slot i => slotOff i + inodeSize ≤ SIMPLEFS_DEFAULT_BLOCK_SIZE
  | record i => recName i + recSize ≤ SIMPLEFS_DEFAULT_BLOCK_SIZE
  | name i n => recName i + n ≤ SIMPLEFS_DEFAULT_BLOCK_SIZE
  | inode found => found = true

/-- An in-memory inode; `priv` is the memory at `i_private`, `none` for `NULL`. -/
structure MemInode where
  iIno : ℕ
  iMode : ℕ
  priv : Option Block

/-- The cached blocks, the in-memory inodes by address, and the dentry cache. -/
structure Mem where
  blocks : ℕ → Block
  inodes : ℕ → Option MemInode
  dcache : ℕ → Name → Option ℕ

namespace Mem

def image (s : Mem) : Image := imageOf s.blocks

/-- `inode->i_private`, for the inode at address `p`. -/
def priv (s : Mem) (p : ℕ) : Option Block := (s.inodes p).bind MemInode.priv

/-- The fields of the private inode at address `p`. -/
def sfs (s : Mem) (p : ℕ) : SimplefsInode := inodeAt ((s.priv p).getD fun _ => 0) 0

/-- Update the private inode at address `p`. -/
def setPriv (s : Mem) (p : ℕ) (f : Block → Block) : Mem :=
  { s with
    inodes := Function.update s.inodes p
      ((s.inodes p).map fun v => { v with priv := v.priv.map f }) }

/-- Update a block. -/
def setBlock (s : Mem) (b : ℕ) (f : Block → Block) : Mem :=
  { s with blocks := Function.update s.blocks b (f (s.blocks b)) }

/-- `memcpy` of the private inode `z` to a slot. -/
def setSlot (s : Mem) (i : ℕ) (z : Block) : Mem :=
  s.setBlock SIMPLEFS_INODESTORE_BLOCK_NUMBER fun b => b.write (slotOff i) (z.read 0 inodeSize)

/-- `d_add(dentry, inode)` -/
def dAdd (s : Mem) (dir : ℕ) (x : Name) (p : ℕ) (v : MemInode) : Mem :=
  { s with
    inodes := Function.update s.inodes p (some v)
    dcache := Function.update s.dcache dir (Function.update (s.dcache dir) x (some p)) }

end Mem

section
variable {m : Mem}

theorem sfs_of_priv {p : ℕ} {z : Block} (h : m.priv p = some z) : m.sfs p = inodeAt z 0 := by
  rw [Mem.sfs, h, Option.getD_some]

theorem sb_setBlock {b : ℕ} {f : Block → Block} (hb : b ≠ SIMPLEFS_SUPERBLOCK_BLOCK_NUMBER) :
    (m.setBlock b f).image.sb = m.image.sb := by
  show superAt (Function.update m.blocks b _ _) = _
  rw [Function.update_of_ne hb.symm]
  rfl

theorem store_setBlock {b : ℕ} {f : Block → Block} (hb : b ≠ SIMPLEFS_INODESTORE_BLOCK_NUMBER) :
    (m.setBlock b f).image.store = m.image.store := by
  show (fun i => inodeAt (Function.update m.blocks b _ _) (slotOff i)) = _
  rw [Function.update_of_ne hb.symm]
  rfl

end

/-- The memory, and what has been touched. -/
structure Traced where
  mem : Mem
  touched : List Access

/-- The programs on the memory. -/
abbrev MemProg := Prog Traced Site Mutex ℕ

section
variable {α : Type}

/-- A step that touches `as`, changes the memory by `f` and returns `g`. -/
def pass (as : Mem → List Access) (f : Mem → Mem) (g : Mem → α) : MemProg α :=
  step (fun s => ⟨f s.mem, s.touched ++ as s.mem⟩) fun s => ret (g s.mem)

/-- Read a field that needs no bound. -/
def look (g : Mem → α) : MemProg α := reads fun s => g s.mem

/-- Update a field that needs no bound. -/
def update (f : Mem → Mem) : MemProg Unit := modify fun s => { s with mem := f s.mem }

/-- Use the private inode at address `p`; `none` if it is `NULL`. -/
def deref (p : ℕ) (g : SimplefsInode → α) : MemProg (Option α) :=
  pass (fun s => [.inode (s.priv p).isSome]) id fun s => (s.priv p).map fun z => g (inodeAt z 0)

theorem exec_pass (as : Mem → List Access) (f : Mem → Mem) (g : Mem → α) (s : Traced) :
    (pass as f g).exec s = (g s.mem, ⟨f s.mem, s.touched ++ as s.mem⟩) := rfl

theorem exec_update (f : Mem → Mem) (s : Traced) :
    (update f).exec s = ((), ⟨f s.mem, s.touched⟩) := rfl

end

/-- The slots that a loop over `n` of them looks at, until one has `p`. -/
def slots (g : Image) (p : SimplefsInode → Bool) (n : ℕ) : List Access :=
  (visits (fun i => p (g.store i)) n 0).map .slot

/-! ## Superblock -/

/-- `simplefs_sb_sync` -/
def sbSync : MemProg Unit := do
  markBufferDirty SIMPLEFS_SUPERBLOCK_BLOCK_NUMBER
  syncDirtyBuffer SIMPLEFS_SUPERBLOCK_BLOCK_NUMBER

/-- `sb->free_blocks &= ~(1 << i)` -/
def takeBlock [Target] (i : ℕ) (s : Mem) : Mem :=
  s.setBlock SIMPLEFS_SUPERBLOCK_BLOCK_NUMBER fun b =>
    b.putLE 8 32 ((superAt b).freeBlocks &&& ~~~ oneShl i).toNat

/-- `sb->inodes_count++` -/
def countInode (s : Mem) : Mem :=
  s.setBlock SIMPLEFS_SUPERBLOCK_BLOCK_NUMBER fun b => b.putLE 8 24 ((superAt b).inodesCount + 1)

/-- `simplefs_sb_get_a_freeblock` -/
def sbGetAFreeblock [Target] : MemProg (Except Errno ℕ) := do
  if ← mutexLockInterruptible .freeblock then
    mutexUnlock .sb
    pure (.error .eintr)
  else
    match ← look fun s => findFreeBlock s.image.sb.freeBlocks with
    | none =>
      mutexUnlock .sb
      pure (.error .enospc)
    | some i =>
      update (takeBlock i)
      sbSync
      mutexUnlock .sb
      pure (.ok i)

/-- `simplefs_sb_get_objects_count` -/
def sbGetObjectsCount : MemProg (Except Errno ℕ) := do
  if ← mutexLockInterruptible .objectsCount then
    pure (.error .eintr)
  else
    let count ← look fun s => s.image.sb.inodesCount
    mutexUnlock .inodesMgmt
    pure (.ok count)

/-! ## Inode store -/

/-- `simplefs_get_dead_inode_no` -/
def getDeadInodeNo : MemProg (Option (ℕ × ℕ)) := do
  let dead ← pass (fun s => slots s.image (fun z => z.inodeNo == 0) s.image.sb.inodesCount) id
    fun s => (firstDead s.image).map fun i =>
      ((s.image.store i).deadInodeNo, (s.image.store i).dataBlockNumber)
  markBufferDirty SIMPLEFS_INODESTORE_BLOCK_NUMBER
  pure dead

/-- The dead slot of `simplefs_inode_add` is filled with `z`. -/
def fillSlot (z : Block) (s : Mem) : Mem :=
  match findDead s.image (inodeAt z 0).inodeNo with
  | some i => s.setSlot i z
  | none => s

/-- `simplefs_inode_add` -/
def inodeAdd (z : Block) (exist : Bool) : MemProg Unit := do
  if ← mutexLockInterruptible .addMgmt then
    pure ()
  else if ← mutexLockInterruptible .addSb then
    pure ()
  else
    if exist then
      pass (fun s => slots s.image
          (fun y => y.inodeNo == 0 && y.deadInodeNo == (inodeAt z 0).inodeNo)
          s.image.sb.inodesCount)
        (fillSlot z) fun _ => ()
    else
      pass (fun s => [.slot s.image.sb.inodesCount]) (fun s => s.setSlot s.image.sb.inodesCount z)
        fun _ => ()
      update countInode
      sbSync
    markBufferDirty SIMPLEFS_INODESTORE_BLOCK_NUMBER
    mutexUnlock .sb
    mutexUnlock .inodesMgmt

/-- The slots that `simplefs_inode_search` looks at, one more than are counted. -/
def searched (g : Image) (y : SimplefsInode) : List Access :=
  slots g (fun z => z.inodeNo == y.number) (g.sb.inodesCount + 1)

/-- The `memcpy` of `simplefs_inode_save`, to the slot found. -/
def saveSlot (p : ℕ) (s : Mem) : Mem :=
  match inodeSearch s.image (s.sfs p) with
  | some i => s.setSlot i ((s.priv p).getD fun _ => 0)
  | none => s

/-- `simplefs_inode_save`, for the private inode at address `p`. -/
def inodeSave (p : ℕ) : MemProg (Except Errno Unit) := do
  if ← mutexLockInterruptible .saveSb then
    pure (.error .eintr)
  else
    match ← pass (fun s => searched s.image (s.sfs p)) (saveSlot p)
        fun s => inodeSearch s.image (s.sfs p) with
    | some _ =>
      markBufferDirty SIMPLEFS_INODESTORE_BLOCK_NUMBER
      syncDirtyBuffer SIMPLEFS_INODESTORE_BLOCK_NUMBER
      mutexUnlock .sb
      pure (.ok ())
    | none =>
      mutexUnlock .sb
      pure (.error .eio)

/-- `simplefs_get_inode`: a copy of the slot with the given number. -/
def getInode (ino : ℕ) : MemProg (Option Block) :=
  pass (fun s => slots s.image (fun z => z.inodeNo == ino) s.image.sb.inodesCount) id fun s =>
    ((List.range s.image.sb.inodesCount).find? fun i => (s.image.store i).inodeNo == ino).map
      fun i => copyInode (s.blocks SIMPLEFS_INODESTORE_BLOCK_NUMBER) (slotOff i)

/-! ## Create -/

/-- What `new_inode` and `kmem_cache_alloc` return. -/
structure NewInode where
  addr : ℕ
  junk : Block

/-- `parent_dir_inode->dir_children_count++` -/
def countChild (dir : ℕ) (s : Mem) : Mem :=
  s.setPriv dir fun z => z.putLE 8 32 ((inodeAt z 0).dirChildrenCount + 1)

/-- What is touched to fill record `i`: the record, and as many bytes as the name has, with its
    NUL. -/
def filling (i : ℕ) (x : Name) : List Access := [.record i, .name i (x.bytes.length + 1)]

/-- `simplefs_create_fs_object` after the call of `simplefs_inode_add`. -/
def createCommit (a : NewInode) (dir blk : ℕ) (x : Name) (z : Block) (append : Bool) :
    MemProg (Except Errno Unit) := do
  if append then
    pass (fun s => filling (s.sfs dir).dirChildrenCount x)
      (fun s => s.setBlock blk fun b =>
        appendRecord b (s.sfs dir).dirChildrenCount x (inodeAt z 0).inodeNo)
      fun _ => ()
  markBufferDirty blk
  syncDirtyBuffer blk
  if ← mutexLockInterruptible .createMgmt then
    mutexUnlock .childrenUpdate
    pure (.error .eintr)
  else
    let saved ← if append then do
        update (countChild dir)
        inodeSave dir
      else pure (.ok ())
    match saved with
    | .error e =>
      mutexUnlock .inodesMgmt
      mutexUnlock .childrenUpdate
      pure (.error e)
    | .ok _ =>
      mutexUnlock .inodesMgmt
      mutexUnlock .childrenUpdate
      update fun s => s.dAdd dir x a.addr ⟨(inodeAt z 0).inodeNo, (inodeAt z 0).mode, some z⟩
      pure (.ok ())

/-- `simplefs_create_fs_object` from the call of `simplefs_inode_add` on. -/
def createFinish (a : NewInode) (dir blk : ℕ) (x : Name) (z : Block) (exist samedir : Bool) :
    MemProg (Except Errno Unit) := do
  inodeAdd z exist
  createCommit a dir blk x z (!exist || !samedir)

/-- The first tombstone of a directory is filled. -/
def fillTombstone (dir blk : ℕ) (x : Name) (n : ℕ) (s : Mem) : Mem :=
  match firstTombstone (s.blocks blk) (s.sfs dir).dirChildrenCount with
  | some i => s.setBlock blk fun b => reuseRecord b i x n
  | none => s

/-- What is touched to find that tombstone and to fill it. -/
def tombstone (dir blk : ℕ) (x : Name) (s : Mem) : List Access :=
  (visits (fun i => recIno (s.blocks blk) i == 0) (s.sfs dir).dirChildrenCount 0).map .record ++
    match firstTombstone (s.blocks blk) (s.sfs dir).dirChildrenCount with
    | some i => filling i x
    | none => []

/-- The private inode of a new file or directory. -/
def newInode (junk : Block) (ino mode : ℕ) : Block := ((junk.putLE 8 8 ino).putLE 4 0 mode).putLE 8 32 0

/-- `simplefs_create_fs_object` from the allocation of the in-memory inode on; there is no result
    if the parent has no private inode. -/
def createBody [Target] (a : NewInode) (dir : ℕ) (x : Name) (mode ino : ℕ) :
    MemProg (Option (Except Errno Unit)) := do
  let z := newInode a.junk ino mode
  match ← deref dir SimplefsInode.dataBlockNumber with
  | none => pure none
  | some blk =>
    match ← getDeadInodeNo with
    | some (n, b) =>
      let samedir ← pass (tombstone dir blk x) (fillTombstone dir blk x n) fun s =>
        (firstTombstone (s.blocks blk) (s.sfs dir).dirChildrenCount).isSome
      some <$> createFinish a dir blk x ((z.putLE 8 24 b).putLE 8 8 n) true samedir
    | none =>
      match ← sbGetAFreeblock with
      | .error e =>
        mutexUnlock .childrenUpdate
        pure (some (.error e))
      | .ok b => some <$> createFinish a dir blk x (z.putLE 8 24 b) false false

/-- `simplefs_create_fs_object` -/
def createFsObject [Target] (new : Option NewInode) (dir : ℕ) (x : Name) (mode : ℕ) :
    MemProg (Option (Except Errno Unit)) := do
  if ← mutexLockInterruptible .createChildren then
    pure (some (.error .eintr))
  else
    match ← sbGetObjectsCount with
    | .error e =>
      mutexUnlock .childrenUpdate
      pure (some (.error e))
    | .ok count =>
      if SIMPLEFS_MAX_FILESYSTEM_OBJECTS_SUPPORTED ≤ count then
        mutexUnlock .childrenUpdate
        pure (some (.error .enospc))
      else if !S_ISDIR mode && !S_ISREG mode then
        mutexUnlock .childrenUpdate
        pure (some (.error .einval))
      else
        match new with
        | none =>
          mutexUnlock .childrenUpdate
          pure (some (.error .enomem))
        | some a =>
          createBody a dir x mode (count + SIMPLEFS_START_INO - SIMPLEFS_RESERVED_INODES + 1)

/-! ## Lookup and listing -/

/-- The counted record `i` has the name and a number. -/
def matchesName (b : Block) (x : Name) (i : ℕ) : Bool := recIs b i x && recIno b i != 0

/-- What `simplefs_lookup` touches of a directory with `n` records. -/
def looked (b : Block) (n : ℕ) (x : Name) : List Access :=
  (visits (matchesName b x) n 0).flatMap fun i =>
    [.record i, .name i (strcmpLen b (recName i) x.bytes)]

/-- The outcome of `simplefs_lookup`. -/
inductive Lookup where
  | negative
  | bound (v : MemInode)
  | nullDeref

/-- `simplefs_lookup`, with the new inode at address `p`. -/
def lookup (dir : ℕ) (x : Name) (p : ℕ) : MemProg Lookup := do
  match ← deref dir SimplefsInode.dataBlockNumber with
  | none => pure .nullDeref
  | some blk =>
    match ← pass (fun s => looked (s.blocks blk) (s.sfs dir).dirChildrenCount x) id fun s =>
        (findName (s.blocks blk) (s.sfs dir).dirChildrenCount x).map (recIno (s.blocks blk)) with
    | none => pure .negative
    | some ino =>
      let found ← getInode ino
      pass (fun _ => [.inode found.isSome]) id fun _ => ()
      match found with
      | none => pure .nullDeref
      | some z =>
        update fun s => s.dAdd dir x p ⟨ino, (inodeAt z 0).mode, some z⟩
        pure (.bound ⟨ino, (inodeAt z 0).mode, some z⟩)

/-- `simplefs_iterate`, for the inode at address `p`; there is no result if it has no private
    inode. -/
def iterate (p pos : ℕ) (room : ℕ → Bool) : MemProg (Option Iterated) := do
  if pos ≠ 0 then
    pure (some (.done [] pos))
  else
    match ← deref p id with
    | none => pure none
    | some y =>
      if !S_ISDIR y.mode then
        pure (some .enotdir)
      else
        pass (fun _ => (List.range y.dirChildrenCount).map .record) id fun s =>
          let r := iterateLoop (s.blocks y.dataBlockNumber) room y.dirChildrenCount 0 pos
          some (.done r.1 r.2)

/-! ## Runs -/

/-- The memory with the inode of the root directory. -/
def mountRoot (blocks : ℕ → Block) : Traced :=
  let r := (getInode SIMPLEFS_ROOTDIR_INODE_NUMBER).exec ⟨⟨blocks, fun _ => none, fun _ _ => none⟩, []⟩
  let root := ⟨SIMPLEFS_ROOTDIR_INODE_NUMBER, S_IFDIR, r.1⟩
  { r.2 with mem := { r.2.mem with inodes := Function.update (fun _ => none) rootAddr (some root) } }

theorem mountRoot_inodes (blocks : ℕ → Block) : (mountRoot blocks).mem.inodes =
    Function.update (fun _ => none) rootAddr (some ⟨SIMPLEFS_ROOTDIR_INODE_NUMBER, S_IFDIR,
      ((List.range (imageOf blocks).sb.inodesCount).find? fun i =>
        ((imageOf blocks).store i).inodeNo == SIMPLEFS_ROOTDIR_INODE_NUMBER).map fun i =>
          copyInode (blocks SIMPLEFS_INODESTORE_BLOCK_NUMBER) (slotOff i)⟩) := by
  unfold mountRoot
  rw [getInode, exec_pass]
  dsimp only [Mem.image, id]

/-- `simplefs_fill_super` on the blocks of a device. -/
def fillSuper (blocks : ℕ → Block) : Except Errno Traced :=
  let sb := superAt (blocks SIMPLEFS_SUPERBLOCK_BLOCK_NUMBER)
  if sb.magic ≠ SIMPLEFS_MAGIC then .error .eperm
  else if sb.blockSize ≠ SIMPLEFS_DEFAULT_BLOCK_SIZE then .error .eperm
  else .ok (mountRoot blocks)

/-- A call, with the lock attempts of a create that are interrupted.  `simplefs_create` and
    `simplefs_mkdir` are calls of `simplefs_create_fs_object`. -/
inductive Call where
  | lookup (dir : ℕ) (x : Name) (p : ℕ)
  | iterate (p pos : ℕ) (room : ℕ → Bool)
  | create (intr : Site → Bool) (new : Option NewInode) (dir : ℕ) (x : Name) (mode : ℕ)

/-- The inode of the directory that a call is made on. -/
def Call.dir : Call → ℕ
  | lookup dir _ _ | iterate dir _ _ | create _ _ dir _ _ => dir

/-- The memory after a call, or when it waits for a mutex that it holds. -/
def Call.after [Target] (s : Traced) : Call → Traced
  | lookup dir x p => ((Buffers.lookup dir x p).exec s).2
  | iterate p pos room => ((Buffers.iterate p pos room).exec s).2
  | create intr new dir x mode =>
    ((createFsObject new dir x mode).ends Site.mutex intr s (held false false false)).2

/-- The VFS makes a call on an in-memory inode. -/
def Step [Target] (s : Traced) (c : Call) (s' : Traced) : Prop :=
  (s.mem.inodes c.dir).isSome = true ∧ s' = c.after s

end Simplefs.Buffers
