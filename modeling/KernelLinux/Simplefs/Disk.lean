/-
  simplefs — the on-disk format (`simple.h`) and `mkfs-simplefs.c`.

  Block 0 is the superblock, block 1 the inode store (an array of `struct
  simplefs_inode`), every other block the data of a file or directory.  The first
  two are modelled as the structs they hold; data blocks are bytes, since one
  block can be a file's data at one time and a directory's records at another.

  * A directory record has 40 bytes: `filename[25]`, padding, and the 8-byte
    `inode_no` at offset 32.  `recIno`, `recIs` read record `i` of a block;
    `reuseRecord`, `appendRecord`, `clearRecord` are the three updates of
    `simple.c`.
  * `mkfs` is the image written by `mkfs-simplefs` over the previous content of
    the device.
-/
import KernelLinux.Lib.Bytes
import Mathlib.Data.Nat.Bitwise

namespace Simplefs

open Bytes

/-! ## Constants -/

def SIMPLEFS_MAGIC : ℕ := 0x10032013
def SIMPLEFS_DEFAULT_BLOCK_SIZE : ℕ := 4096
def SIMPLEFS_FILENAME_MAXLEN : ℕ := 25
def SIMPLEFS_START_INO : ℕ := 10
def SIMPLEFS_RESERVED_INODES : ℕ := 3
def SIMPLEFS_ROOTDIR_INODE_NUMBER : ℕ := 1
def SIMPLEFS_SUPERBLOCK_BLOCK_NUMBER : ℕ := 0
def SIMPLEFS_INODESTORE_BLOCK_NUMBER : ℕ := 1
def SIMPLEFS_ROOTDIR_DATABLOCK_NUMBER : ℕ := 2
def SIMPLEFS_MAX_FILESYSTEM_OBJECTS_SUPPORTED : ℕ := 64

def S_IFMT : ℕ := 0o170000
def S_IFDIR : ℕ := 0o040000
def S_IFREG : ℕ := 0o100000

/-- `S_ISDIR(mode)` -/
def S_ISDIR (mode : ℕ) : Bool := mode &&& S_IFMT == S_IFDIR

/-- `S_ISREG(mode)` -/
def S_ISREG (mode : ℕ) : Bool := mode &&& S_IFMT == S_IFREG

theorem not_dir_of_reg {mode : ℕ} (h : S_ISREG mode = true) : S_ISDIR mode = false := by
  simp only [S_ISREG, S_ISDIR, beq_iff_eq, beq_eq_false_iff_ne] at h ⊢
  rw [h]; decide

/-- `S_IFDIR | mode` is a directory's mode when `mode` has no type bits. -/
theorem isDir_mkdir {mode : ℕ} (h : mode &&& S_IFMT = 0) : S_ISDIR (S_IFDIR ||| mode) = true := by
  simp only [S_ISDIR, beq_iff_eq, Nat.and_or_distrib_right, h]; decide

/-! ## Structures -/

/-- `struct simplefs_super_block` -/
structure SuperBlock where
  version : ℕ
  magic : ℕ
  blockSize : ℕ
  inodesCount : ℕ
  freeBlocks : BitVec 64

/-- `struct simplefs_inode`.  `size` is the union of `file_size` and `dir_children_count`. -/
structure SimplefsInode where
  mode : ℕ
  inodeNo : ℕ
  deadInodeNo : ℕ
  dataBlockNumber : ℕ
  size : ℕ
  deriving DecidableEq, Inhabited

namespace SimplefsInode

/-- The union member used for regular files. -/
def fileSize (z : SimplefsInode) : ℕ := z.size

/-- The union member used for directories. -/
def dirChildrenCount (z : SimplefsInode) : ℕ := z.size

/-- The number of an inode-store slot: `inode_no`, or `dead_inode_no` once it is unlinked. -/
def number (z : SimplefsInode) : ℕ := if z.inodeNo = 0 then z.deadInodeNo else z.inodeNo

theorem number_live {z : SimplefsInode} (h : z.inodeNo ≠ 0) : z.number = z.inodeNo := by
  simp [number, h]

theorem number_dead {z : SimplefsInode} (h : z.inodeNo = 0) : z.number = z.deadInodeNo := by
  simp [number, h]

end SimplefsInode

/-- The blocks of a device. -/
structure Image where
  sb : SuperBlock
  store : ℕ → SimplefsInode
  data : ℕ → Block

/-- A name the VFS can pass: 1 to 255 bytes without NUL. -/
structure Name where
  bytes : List UInt8
  ne_nil : bytes ≠ []
  noNul : (0 : UInt8) ∉ bytes
  le : bytes.length ≤ 255
  deriving DecidableEq

/-- A name that fits `filename` together with its NUL. -/
def Name.Short (x : Name) : Prop := x.bytes.length < SIMPLEFS_FILENAME_MAXLEN

instance (x : Name) : Decidable x.Short := inferInstanceAs (Decidable (_ < _))

theorem Name.ext_bytes {x y : Name} (h : x.bytes = y.bytes) : x = y := by
  cases x; cases y; cases h; rfl

/-! ## Directory records -/

/-- `sizeof(struct simplefs_dir_record)` -/
def recSize : ℕ := 40

/-- Offset of `filename` of record `i`. -/
def recName (i : ℕ) : ℕ := recSize * i

/-- Offset of `inode_no` of record `i`. -/
def recInoOff (i : ℕ) : ℕ := recSize * i + 32

/-- `record[i].inode_no` -/
def recIno (b : Block) (i : ℕ) : ℕ := b.getLE 8 (recInoOff i)

/-- `!strcmp(record[i].filename, x)` -/
def recIs (b : Block) (i : ℕ) (x : Name) : Bool := b.streq (recName i) x.bytes

/-- Fill record `i` as `simplefs_create_fs_object` does with a tombstone of the directory. -/
def reuseRecord (b : Block) (i : ℕ) (x : Name) (ino : ℕ) : Block :=
  (b.strcpy (recName i) x.bytes).putLE 8 (recInoOff i) ino

/-- Fill record `i` as `simplefs_create_fs_object` does at the end of the directory. -/
def appendRecord (b : Block) (i : ℕ) (x : Name) (ino : ℕ) : Block :=
  (b.putLE 8 (recInoOff i) ino).strcpy (recName i) x.bytes

/-- `record[i].inode_no = 0` -/
def clearRecord (b : Block) (i : ℕ) : Block := b.putLE 8 (recInoOff i) 0

/-- Record `i` holds the name `x` and the number `ino`, and every other record keeps its number
    and any short name it holds. -/
structure RecordSet (b b' : Block) (i : ℕ) (x : Name) (ino : ℕ) : Prop where
  ino : recIno b' i = ino
  name : recIs b' i x = true
  ino_ne : ∀ j, j ≠ i → recIno b' j = recIno b j
  name_ne : ∀ j y, j ≠ i → Name.Short y → recIs b' j y = recIs b j y

theorem reuseRecord_spec (b : Block) (i : ℕ) {x : Name} {ino : ℕ} (hx : x.Short)
    (hi : ino < 2 ^ 64) : RecordSet b (reuseRecord b i x ino) i x ino := by
  have hx' : x.bytes.length < 25 := hx
  have hlen : (x.bytes ++ [(0 : UInt8)]).length = x.bytes.length + 1 := by simp
  refine ⟨Block.getLE_putLE (by simpa using hi), ?_, fun j hj => ?_, fun j y hj hy => ?_⟩
  · rw [recIs, reuseRecord, ← Block.streq_strcpy b (recName i) x.bytes]
    refine Block.streq_congr fun a ha => Block.putLE_outside ?_
    simp only [recName, recInoOff, recSize]; omega
  · rw [recIno, reuseRecord, Block.getLE_putLE_disjoint, Block.strcpy, Block.getLE_write_disjoint]
    · rfl
    all_goals simp only [recName, recInoOff, recSize, hlen]; omega
  · have hy' : y.bytes.length < 25 := hy
    refine Block.streq_congr fun a ha => ?_
    rw [reuseRecord, Block.putLE_outside, Block.strcpy, Block.write_outside]
    all_goals simp only [recName, recInoOff, recSize, hlen]; omega

theorem appendRecord_spec (b : Block) (i : ℕ) {x : Name} {ino : ℕ} (hx : x.Short)
    (hi : ino < 2 ^ 64) : RecordSet b (appendRecord b i x ino) i x ino := by
  have hx' : x.bytes.length < 25 := hx
  have hlen : (x.bytes ++ [(0 : UInt8)]).length = x.bytes.length + 1 := by simp
  refine ⟨?_, Block.streq_strcpy _ _ _, fun j hj => ?_, fun j y hj hy => ?_⟩
  · rw [recIno, appendRecord, Block.strcpy, Block.getLE_write_disjoint,
      Block.getLE_putLE (by simpa using hi)]
    simp only [recName, recInoOff, recSize, hlen]; omega
  · rw [recIno, appendRecord, Block.strcpy, Block.getLE_write_disjoint, Block.getLE_putLE_disjoint]
    · rfl
    all_goals simp only [recName, recInoOff, recSize, hlen]; omega
  · have hy' : y.bytes.length < 25 := hy
    refine Block.streq_congr fun a ha => ?_
    rw [appendRecord, Block.strcpy, Block.write_outside, Block.putLE_outside]
    all_goals simp only [recName, recInoOff, recSize, hlen]; omega

/-- Appending a record leaves the bytes of those before it. -/
theorem appendRecord_before {b : Block} {i o ino : ℕ} {x : Name} (h : o < recName i) :
    appendRecord b i x ino o = b o := by
  rw [appendRecord, Block.strcpy, Block.write_before h, Block.putLE_outside]
  left
  simp only [recName, recInoOff] at h ⊢
  omega

theorem recIno_clearRecord (b : Block) (i : ℕ) : recIno (clearRecord b i) i = 0 :=
  Block.getLE_putLE (by norm_num)

theorem recIno_clearRecord_ne (b : Block) {i j : ℕ} (h : j ≠ i) :
    recIno (clearRecord b i) j = recIno b j :=
  Block.getLE_putLE_disjoint (by simp only [recInoOff, recSize]; omega)

theorem recIs_clearRecord (b : Block) (i j : ℕ) {x : Name} (hx : x.Short) :
    recIs (clearRecord b i) j x = recIs b j x := by
  have hx' : x.bytes.length < 25 := hx
  refine Block.streq_congr fun a ha => Block.putLE_outside ?_
  simp only [recName, recInoOff, recSize]; omega

/-- A record compares equal to one name at most. -/
theorem recIs_unique {b : Block} {i : ℕ} {x y : Name} (hx : recIs b i x = true)
    (hy : recIs b i y = true) : x = y :=
  Name.ext_bytes (Block.streq_unique x.noNul y.noNul hx hy)

/-! ## `mkfs-simplefs` -/

def WELCOMEFILE_DATABLOCK_NUMBER : ℕ := 3
def WELCOMEFILE_INODE_NUMBER : ℕ := 2

/-- `"vanakkam"` -/
def welcomeName : Name := ⟨[118, 97, 110, 97, 107, 107, 97, 109], by decide, by decide, by decide⟩

/-- `"Love is God. God is Love. Anbe Murugan.\n"`, with its NUL as `sizeof` counts it. -/
def welcomefileBody : List UInt8 :=
  [76, 111, 118, 101, 32, 105, 115, 32, 71, 111, 100, 46, 32, 71, 111, 100, 32, 105, 115, 32,
    76, 111, 118, 101, 46, 32, 65, 110, 98, 101, 32, 77, 117, 114, 117, 103, 97, 110, 46, 10, 0]

/-- The image `mkfs-simplefs` leaves on a device with the content `dev`.  `junk` is the
    `dead_inode_no` of the root inode, which `write_inode_store` does not initialize. -/
def mkfs (dev : Image) (junk : ℕ) : Image where
  sb := ⟨1, SIMPLEFS_MAGIC, SIMPLEFS_DEFAULT_BLOCK_SIZE, 2, (~~~ (1#32 <<< 3)).signExtend 64⟩
  store i :=
    if i = 0 then ⟨S_IFDIR, SIMPLEFS_ROOTDIR_INODE_NUMBER, junk, SIMPLEFS_ROOTDIR_DATABLOCK_NUMBER, 1⟩
    else if i = 1 then
      ⟨S_IFREG, WELCOMEFILE_INODE_NUMBER, 0, WELCOMEFILE_DATABLOCK_NUMBER, welcomefileBody.length⟩
    else dev.store i
  data b :=
    if b = SIMPLEFS_ROOTDIR_DATABLOCK_NUMBER then
      ((dev.data b).write (recName 0) (welcomeName.bytes ++ List.replicate 17 0)).putLE 8
        (recInoOff 0) WELCOMEFILE_INODE_NUMBER
    else if b = WELCOMEFILE_DATABLOCK_NUMBER then (dev.data b).write 0 welcomefileBody
    else dev.data b

end Simplefs
