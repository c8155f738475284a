/-
  SimpleLinuxRamDisk — the sizes that `setup_device` computes and registers.

  The number of sectors and the size in bytes are products of `int`s; only then is
  the size widened to a `long`, and the number of cylinders cut to an `unsigned
  short`.  `geometry_iff`: the values of `user_disk_size` for which capacity, size,
  memory and geometry of a registered disk agree.
-/
import KernelLinux.Block.Ramdisk

namespace Ramdisk

open Bytes

/-- `struct hd_geometry` -/
structure HdGeometry where
  /-- an `unsigned char` -/
  heads : ℕ
  /-- an `unsigned char` -/
  sectors : ℕ
  /-- an `unsigned short` -/
  cylinders : ℕ
  start : ℕ

/-- A disk that was registered. -/
structure Disk where
  dev : RamdiskDev
  /-- the argument of `vmalloc`, an `unsigned long` -/
  allocated : ℕ
  /-- the argument of `set_capacity`, a `sector_t` -/
  capacity : ℕ
  rdGeo : HdGeometry

/-- `(unsigned long)x`, and `(sector_t)x` -/
def toUlong (x : ℤ) : ℕ := (x % 2 ^ 64).toNat

/-- What `rd_geo` is set to, for a disk of `size` bytes. -/
def geometry (size : ℤ) : HdGeometry :=
  let heads := 16
  let sectors := 32
  ⟨heads, sectors, (size.tdiv (SECTOR_SIZE * heads * sectors) % 2 ^ 16).toNat, 0⟩

/-- The argument of `vmalloc`; `rd->size` is computed before. -/
def vmallocSize (userDiskSize : ℤ) : ℕ := toUlong (setupDevice userDiskSize fun _ => 0).size

/-- `setup_device`, as far as it registers a disk; `queue` and `gd` say whether `blk_init_queue`
    and `alloc_disk` succeed. -/
def setupDisk (userDiskSize : ℤ) (vmalloc : ℕ → Option Block) (queue gd : Bool) : Option Disk :=
  match vmalloc (vmallocSize userDiskSize) with
  | none => none
  | some data =>
    let rd := setupDevice userDiskSize data
    if queue && gd then
      some ⟨rd, vmallocSize userDiskSize, toUlong rd.sectors, geometry rd.size⟩
    else none

/-- `rd_getgeo` -/
def rdGetgeo (disk : Disk) : HdGeometry := disk.rdGeo

/-- The size of a disk in MiB that is asked for. -/
def mebibytes (userDiskSize : ℤ) : ℤ := if userDiskSize ≤ 0 then 64 else userDiskSize

/-- All sizes of a disk agree. -/
structure Agrees (userDiskSize : ℤ) (disk : Disk) : Prop where
  size : (disk.capacity * 512 : ℤ) = disk.dev.size
  allocated : disk.capacity * 512 = disk.allocated
  asked : disk.dev.size = mebibytes userDiskSize * 2 ^ 20
  geometry : disk.capacity * 512 =
    (rdGetgeo disk).cylinders * (rdGetgeo disk).heads * (rdGetgeo disk).sectors * 512

section
variable {u : ℤ} {vmalloc : ℕ → Option Block} {queue gd : Bool} {disk : Disk}

theorem toInt_lt (x : ℤ) : toInt x < 2 ^ 31 := by
  have := Int.bmod_lt (x := x) (m := 2 ^ 32) (by decide)
  simpa [toInt] using this

/-- What is registered. -/
theorem setupDisk_some (h : setupDisk u vmalloc queue gd = some disk) : ∃ data,
    disk = ⟨setupDevice u data, toUlong (setupDevice u data).size,
      toUlong (setupDevice u data).sectors, geometry (setupDevice u data).size⟩ := by
  unfold setupDisk at h
  split at h
  · cases h
  · rename_i data _
    dsimp only at h
    split_ifs at h
    exact ⟨data, (Option.some.inj h).symm⟩

theorem toUlong_eq {x : ℤ} (h₀ : 0 ≤ x) (h : x < 2 ^ 64) : (toUlong x : ℤ) = x := by
  rw [toUlong, Int.emod_eq_of_lt h₀ h, Int.toNat_of_nonneg h₀]

theorem mebibytes_bounds (h : u ≤ 2047) : 1 ≤ mebibytes u ∧ mebibytes u ≤ 2047 := by
  unfold mebibytes
  split_ifs <;> omega

theorem setupDevice_mebibytes (u : ℤ) (b : Block) : setupDevice (mebibytes u) b = setupDevice u b := by
  unfold setupDevice mebibytes
  split_ifs
  · omega
  · rfl
  · rfl

end

/-- **Which disks have the size that was asked for**: those of at most 2047 MiB. -/
theorem geometry_iff {u : ℤ} {vmalloc : ℕ → Option Block} {queue gd : Bool} {disk : Disk}
    (h : setupDisk u vmalloc queue gd = some disk) : Agrees u disk ↔ u ≤ 2047 := by
  obtain ⟨data, rfl⟩ := setupDisk_some h
  constructor
  · intro hagrees
    -- a product of `int`s is below 2 GiB
    have hlt : (setupDevice u data).size < 2 ^ 31 := toInt_lt _
    have hasked : (setupDevice u data).size = mebibytes u * 2 ^ 20 := hagrees.asked
    unfold mebibytes at hasked
    split_ifs at hasked <;> omega
  · intro hu
    obtain ⟨h₁, h₂⟩ := mebibytes_bounds hu
    obtain ⟨hsectors, hsize⟩ := setupDevice_size h₁ h₂ data
    rw [setupDevice_mebibytes] at hsectors hsize
    have hcapacity := toUlong_eq (x := mebibytes u * 2048) (by omega) (by omega)
    have hallocated := toUlong_eq (x := mebibytes u * 2048 * 512) (by omega) (by omega)
    have hcylinders : (mebibytes u * 2048 * 512).tdiv 262144 = mebibytes u * 4 := by
      rw [Int.tdiv_eq_ediv_of_nonneg (by omega)]
      omega
    refine ⟨?_, ?_, ?_, ?_⟩
    · simp only [hsectors, hsize, hcapacity]
    · simp only [hsectors, hsize]
      omega
    · simp only [hsize]
      omega
    · simp only [rdGetgeo, geometry, SECTOR_SIZE, hsectors, hsize]
      push_cast
      rw [hcylinders]
      omega

/-- A `vmalloc` that gives out all memory it is asked for. -/
def allMemory (n : ℕ) : Option Block := if n = 0 then none else some fun _ => 0

/-- The disk of `user_disk_size=n`. -/
def diskOf (n : ℤ) : Disk := ⟨setupDevice n fun _ => 0, toUlong (setupDevice n fun _ => 0).size,
  toUlong (setupDevice n fun _ => 0).sectors, geometry (setupDevice n fun _ => 0).size⟩

theorem geometry_iff_64 : Agrees 64 (diskOf 64) ↔ (64 : ℤ) ≤ 2047 :=
  geometry_iff (show setupDisk 64 allMemory true true = some (diskOf 64) from rfl)

/-- A disk of 4097 MiB has 1 MiB of memory. -/
theorem not_agrees_4097 : setupDisk 4097 allMemory true true = some (diskOf 4097) ∧
    ¬ Agrees 4097 (diskOf 4097) := by
  refine ⟨rfl, fun h => ?_⟩
  have hsize := h.size
  revert hsize
  decide

end Ramdisk
