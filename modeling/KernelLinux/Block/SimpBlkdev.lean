/-
  simp_blkdev — `simp_blkdev_make_request`, for kernels from 2.6.24 on, where
  `bio_endio` takes a bio and an error.

  One bounds check covers the whole bio, and the copy runs over its segments.
  `makeRequests_flat`: on any sequence of bios the device is a flat array of
  `SIMP_BLKDEV_BYTES` bytes, on which each bio is one transfer.
-/
import KernelLinux.Lib.Flat
import KernelLinux.Lib.Segments

namespace SimpBlkdev

open Bytes

def SIMP_BLKDEV_BYTES : ℕ := 16 * 1024 * 1024

/-- `bio_rw(bio)` -/
inductive Rw where
  | READ | READA | WRITE | other
  deriving DecidableEq

/-- `struct bio` -/
structure Bio where
  /-- `bio->bi_sector` -/
  sector : ℕ
  /-- `bio->bi_size` -/
  size : ℕ
  rw : Rw
  segs : List Segment

/-- A bio after the call: its segments, and the errors `bio_endio` was called with. -/
structure Ended where
  segs : List Segment
  endio : List ℕ

/-- The loop over the segments and what follows it, with `dsk_mem` at the offset `dskMem` of the
    device memory. -/
def copyLoop (rw : Rw) : Block → ℕ → List Segment → Block × Ended
  | data, _, [] => (data, ⟨[], [0]⟩)
  | data, dskMem, g :: gs =>
    match rw with
    | .READ | .READA =>
      let r := copyLoop rw data (dskMem + g.len) gs
      (r.1, ⟨g.put (data.read dskMem g.len) :: r.2.segs, r.2.endio⟩)
    | .WRITE =>
      let r := copyLoop rw (data.write dskMem g.bytes) (dskMem + g.len) gs
      (r.1, ⟨g :: r.2.segs, r.2.endio⟩)
    | .other => (data, ⟨g :: gs, [0]⟩)

/-- `simp_blkdev_make_request`; a `sector_t` has `w` bits. -/
def makeRequest (w : ℕ) (data : Block) (bio : Bio) : Block × Ended :=
  let start := bio.sector <<< 9 % 2 ^ w
  if SIMP_BLKDEV_BYTES < (start + bio.size) % 2 ^ w then (data, ⟨bio.segs, [1]⟩)
  else copyLoop bio.rw data start bio.segs

/-- `simp_blkdev_make_request` for one bio after the other. -/
def makeRequests (w : ℕ) (data : Block) : List Bio → Block × List Ended
  | [] => (data, [])
  | bio :: bios =>
    let t := makeRequest w data bio
    let r := makeRequests w t.1 bios
    (r.1, t.2 :: r.2)

/-! ## The flat disk -/

/-- The disk is an array of bytes. -/
abbrev Disk := Flat SIMP_BLKDEV_BYTES

/-- A bio is one transfer of its segments, if it lies inside the disk, and transfers nothing
    otherwise. -/
def Disk.transfer (disk : Disk) (bio : Bio) : Disk × List Segment :=
  if bio.rw = .WRITE then (disk.write (bio.sector * 512) (payload bio.segs), bio.segs)
  else (disk, match disk.read (bio.sector * 512) (total bio.segs) with
    | some bs => fill bio.segs bs
    | none => bio.segs)

/-- One transfer after the other. -/
def Disk.transfers (disk : Disk) : List Bio → Disk × List (List Segment)
  | [] => (disk, [])
  | bio :: bios =>
    let t := disk.transfer bio
    let r := Disk.transfers t.1 bios
    (r.1, t.2 :: r.2)

/-- A bio lies inside the disk. -/
def Bio.inside (bio : Bio) : Prop := bio.sector * 512 + bio.size ≤ SIMP_BLKDEV_BYTES

instance (bio : Bio) : Decidable bio.inside := inferInstanceAs (Decidable (_ ≤ _))

/-- What the block layer hands down. -/
structure Bio.Ok (w : ℕ) (bio : Bio) : Prop where
  rw : bio.rw ≠ .other
  size : total bio.segs = bio.size
  fits : bio.sector * 512 + bio.size < 2 ^ w

/-! ## One bio -/

section
variable {data : Block} {dskMem : ℕ} {gs : List Segment} {w : ℕ} {bio : Bio}

theorem copyLoop_write :
    copyLoop .WRITE data dskMem gs = (data.write dskMem (payload gs), ⟨gs, [0]⟩) := by
  induction gs generalizing data dskMem with
  | nil => simp [copyLoop]
  | cons g gs ih => simp only [copyLoop, ih, write_payload]

theorem copyLoop_read {rw : Rw} (h : rw = .READ ∨ rw = .READA) :
    copyLoop rw data dskMem gs = (data, ⟨fill gs (data.read dskMem (total gs)), [0]⟩) := by
  induction gs generalizing dskMem with
  | nil => rfl
  | cons g gs ih =>
    rw [← fill_read]
    rcases h with rfl | rfl
    · rw [copyLoop, ih]
    · rw [copyLoop, ih]

/-- The sum of the check does not wrap. -/
theorem Bio.Ok.makeRequest_eq (h : bio.Ok w) : makeRequest w data bio =
    if bio.inside then copyLoop bio.rw data (bio.sector * 512) bio.segs
    else (data, ⟨bio.segs, [1]⟩) := by
  have hstart : bio.sector <<< 9 % 2 ^ w = bio.sector * 512 := by
    rw [Nat.shiftLeft_eq]
    exact Nat.mod_eq_of_lt (lt_of_le_of_lt (Nat.le_add_right _ _) h.fits)
  simp only [makeRequest, hstart, Nat.mod_eq_of_lt h.fits, Bio.inside, ← Nat.not_lt, ite_not]

/-- **One bio** is one transfer on the flat disk, and is ended once. -/
theorem Bio.Ok.transfer (h : bio.Ok w) (data : Block) : (makeRequest w data bio).1.flat SIMP_BLKDEV_BYTES =
      (Disk.transfer (data.flat _) bio).1 ∧
    (makeRequest w data bio).2 = ⟨(Disk.transfer (data.flat _) bio).2, [if bio.inside then 0 else 1]⟩ ∧
    ∀ a, SIMP_BLKDEV_BYTES ≤ a → (makeRequest w data bio).1 a = data a := by
  rw [h.makeRequest_eq]
  by_cases hin : bio.inside
  · have hfit : bio.sector * 512 + total bio.segs ≤ SIMP_BLKDEV_BYTES := by rwa [h.size]
    rw [if_pos hin, if_pos hin]
    by_cases hw : bio.rw = .WRITE
    · rw [hw, copyLoop_write, Disk.transfer, if_pos hw]
      rw [← length_payload] at hfit
      exact ⟨flat_write data hfit, rfl, fun a ha => Block.write_after (hfit.trans ha)⟩
    · have hr : bio.rw = .READ ∨ bio.rw = .READA := by
        cases hrw : bio.rw with
        | READ => exact Or.inl rfl
        | READA => exact Or.inr rfl
        | WRITE => exact absurd hrw hw
        | other => exact absurd hrw h.rw
      rw [copyLoop_read hr, Disk.transfer, if_neg hw, flat_read data hfit]
      exact ⟨rfl, rfl, fun _ _ => rfl⟩
  · have hfit : ¬ bio.sector * 512 + total bio.segs ≤ SIMP_BLKDEV_BYTES := by rwa [h.size]
    rw [if_neg hin, if_neg hin, Disk.transfer]
    by_cases hw : bio.rw = .WRITE
    · rw [if_pos hw, Flat.write_outside _ (by rwa [length_payload])]
      exact ⟨rfl, rfl, fun _ _ => rfl⟩
    · rw [if_neg hw, Flat.read_outside _ hfit]
      exact ⟨rfl, rfl, fun _ _ => rfl⟩

end

/-! ## Sequences of bios -/

/-- **The segmentation does not matter**: on any sequence of bios the device memory and the read
    buffers are those of the flat disk, no byte behind the device changes, and each bio is ended
    once, with success if and only if it lies inside the disk. -/
theorem makeRequests_flat {w : ℕ} {bios : List Bio} (h : ∀ bio ∈ bios, bio.Ok w) (data : Block) :
    let r := makeRequests w data bios
    let s := Disk.transfers (data.flat _) bios
    r.1.flat SIMP_BLKDEV_BYTES = s.1 ∧ r.2.map Ended.segs = s.2 ∧
      r.2.map Ended.endio = bios.map (fun bio => [if bio.inside then 0 else 1]) ∧
      ∀ a, SIMP_BLKDEV_BYTES ≤ a → r.1 a = data a := by
  induction bios generalizing data with
  | nil => simp [makeRequests, Disk.transfers]
  | cons bio bios ih =>
    obtain ⟨hbio, hbios⟩ := List.forall_mem_cons.1 h
    obtain ⟨hflat, hended, hframe⟩ := hbio.transfer data
    obtain ⟨ihflat, ihsegs, ihendio, ihframe⟩ := ih hbios (makeRequest w data bio).1
    rw [hflat] at ihflat ihsegs
    simp only [makeRequests, Disk.transfers, List.map_cons, hended]
    refine ⟨ihflat, ?_, ?_, fun a ha => (ihframe a ha).trans (hframe a ha)⟩
    · rw [ihsegs]
    · rw [ihendio]

/-- A write of two segments, and a read across the end of the disk. -/
def writeAndBeyond : List Bio :=
  [⟨0, 1536, .WRITE, [⟨512, fun _ => 1⟩, ⟨1024, fun _ => 2⟩]⟩,
    ⟨32767, 1024, .READA, [⟨1024, fun _ => 0⟩]⟩]

theorem makeRequests_flat_writeAndBeyond :
    let r := makeRequests 64 (fun _ => 0) writeAndBeyond
    let s := Disk.transfers (Block.flat _ fun _ => 0) writeAndBeyond
    r.1.flat SIMP_BLKDEV_BYTES = s.1 ∧ r.2.map Ended.segs = s.2 ∧
      r.2.map Ended.endio = writeAndBeyond.map (fun bio => [if bio.inside then 0 else 1]) ∧
      ∀ a, SIMP_BLKDEV_BYTES ≤ a → r.1 a = 0 := by
  refine makeRequests_flat (fun bio hbio => ?_) fun _ => 0
  simp only [writeAndBeyond, List.mem_cons, List.not_mem_nil, or_false] at hbio
  rcases hbio with rfl | rfl
  · exact ⟨by decide, rfl, by decide⟩
  · exact ⟨by decide, rfl, by decide⟩

end SimpBlkdev
