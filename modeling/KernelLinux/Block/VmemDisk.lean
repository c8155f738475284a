/-
  vmem_disk — the transfer of a bio.

  `vmem_disk_xfer_bio` takes the length of each segment, and its advance on the
  device, from the bio, whose own iterator stays at the first segment.
  `xfer_iff`: the transfer is that of the concatenated segments if and only if all
  segments are as long as the first one.
-/
import KernelLinux.Block.Request
import Mathlib.Data.List.Forall2

namespace VmemDisk

open Bytes Blk

def HARDSECT_SIZE : ℕ := 512
def NSECTORS : ℕ := 1024
def KERNEL_SECTOR_SIZE : ℕ := 512

/-- `struct vmem_disk_dev` -/
structure VmemDiskDev where
  size : ℕ
  data : Block

/-- The device after `setup_device`; `vmalloc` is the memory it was given. -/
def setupDevice (vmalloc : Block) : VmemDiskDev := ⟨NSECTORS * HARDSECT_SIZE, vmalloc⟩

/-- `vmem_disk_transfer`: the device and the buffer after it. -/
def vmemDiskTransfer (dev : VmemDiskDev) (sector nsect : ℕ) (buffer : Block) (write : Bool) :
    VmemDiskDev × Block :=
  let offset := sector * KERNEL_SECTOR_SIZE
  let nbytes := nsect * KERNEL_SECTOR_SIZE
  if dev.size < offset + nbytes then (dev, buffer)
  else if write then ({ dev with data := dev.data.write offset (buffer.read 0 nbytes) }, buffer)
  else (dev, buffer.write 0 (dev.data.read offset nbytes))

/-- The loop of `vmem_disk_xfer_bio` over the segments that are left; `cur` is
    `bio_cur_bytes(bio)`. -/
def xferLoop (cur : ℕ) (write : Bool) : VmemDiskDev → ℕ → List Segment → VmemDiskDev × List Segment
  | dev, _, [] => (dev, [])
  | dev, sector, g :: gs =>
    let t := vmemDiskTransfer dev sector (cur >>> 9) g.buf write
    let r := xferLoop cur write t.1 (sector + cur >>> 9) gs
    (r.1, { g with buf := t.2 } :: r.2)

/-- `vmem_disk_xfer_bio`: the device and the segments of the bio after it. -/
def vmemDiskXferBio (dev : VmemDiskDev) (bio : Bio) : VmemDiskDev × List Segment :=
  xferLoop bio.curBytes bio.write dev bio.sector bio.segs

/-- The bios of a request, transferred in order. -/
def xferBios (dev : VmemDiskDev) : List Bio → VmemDiskDev × List Segment
  | [] => (dev, [])
  | bio :: bios =>
    let t := vmemDiskXferBio dev bio
    let r := xferBios t.1 bios
    (r.1, t.2 ++ r.2)

/-- `vmem_disk_request` on a queue: the device after it, and the requests completed. -/
def vmemDiskRequest (dev : VmemDiskDev) : List Request → VmemDiskDev × List Completion
  | [] => (dev, [])
  | req :: q =>
    if req.fs then
      let t := xferBios dev req.bios
      let r := vmemDiskRequest t.1 q
      (r.1, ⟨req.tag, none, t.2⟩ :: r.2)
    else
      let r := vmemDiskRequest dev q
      (r.1, ⟨req.tag, some .eio, req.segs⟩ :: r.2)

/-! ## Segments of one length -/

/-- A bio at `sector` with segments of the lengths `lens` is one transfer of the concatenated
    segments, whatever they and the device hold. -/
structure Faithful (sector : ℕ) (lens : List ℕ) : Prop where
  write : ∀ (data : Block) (gs : List Segment), gs.map Segment.len = lens →
    vmemDiskXferBio (setupDevice data) ⟨sector, true, gs⟩ =
      (setupDevice (data.write (sector * KERNEL_SECTOR_SIZE) (payload gs)), gs)
  read : ∀ (data : Block) (gs : List Segment), gs.map Segment.len = lens →
    vmemDiskXferBio (setupDevice data) ⟨sector, false, gs⟩ =
      (setupDevice data, fill gs (data.read (sector * KERNEL_SECTOR_SIZE) (total gs)))

/-- All segments are as long as the first one. -/
def Uniform (lens : List ℕ) : Prop := ∀ l ∈ lens, some l = lens.head?

theorem shiftRight_sectors {l : ℕ} (h : KERNEL_SECTOR_SIZE ∣ l) : (l >>> 9) * KERNEL_SECTOR_SIZE = l := by
  rw [Nat.shiftRight_eq_div_pow]
  exact Nat.div_mul_cancel h

/-- The sector behind `l` bytes. -/
theorem next_sector {l : ℕ} (h : KERNEL_SECTOR_SIZE ∣ l) (sector : ℕ) :
    (sector + l >>> 9) * KERNEL_SECTOR_SIZE = sector * KERNEL_SECTOR_SIZE + l := by
  rw [Nat.add_mul, shiftRight_sectors h]

section
variable {dev : VmemDiskDev} {sector nsect cur : ℕ} {gs : List Segment}

theorem transfer_write (b : Block)
    (h : sector * KERNEL_SECTOR_SIZE + nsect * KERNEL_SECTOR_SIZE ≤ dev.size) :
    vmemDiskTransfer dev sector nsect b true = ({ dev with
      data := dev.data.write (sector * KERNEL_SECTOR_SIZE) (b.read 0 (nsect * KERNEL_SECTOR_SIZE)) }, b) := by
  simp only [vmemDiskTransfer, if_neg (Nat.not_lt.2 h), if_true]

theorem transfer_read (b : Block)
    (h : sector * KERNEL_SECTOR_SIZE + nsect * KERNEL_SECTOR_SIZE ≤ dev.size) :
    vmemDiskTransfer dev sector nsect b false = (dev,
      b.write 0 (dev.data.read (sector * KERNEL_SECTOR_SIZE) (nsect * KERNEL_SECTOR_SIZE))) := by
  simp only [vmemDiskTransfer, if_neg (Nat.not_lt.2 h), Bool.false_eq_true, if_false]

variable (hcur : KERNEL_SECTOR_SIZE ∣ cur) (hlen : ∀ g ∈ gs, g.len = cur)
  (hfit : sector * KERNEL_SECTOR_SIZE + total gs ≤ dev.size)
include hcur hlen hfit

theorem xferLoop_write : xferLoop cur true dev sector gs =
    ({ dev with data := dev.data.write (sector * KERNEL_SECTOR_SIZE) (payload gs) }, gs) := by
  induction gs generalizing dev sector with
  | nil => simp [xferLoop]
  | cons g gs ih =>
    obtain ⟨hg, hgs⟩ := List.forall_mem_cons.1 hlen
    rw [total_cons, hg] at hfit
    have hn := shiftRight_sectors hcur
    have hnext := next_sector hcur sector
    have hle : sector * KERNEL_SECTOR_SIZE + cur >>> 9 * KERNEL_SECTOR_SIZE ≤ dev.size := by
      rw [hn]
      omega
    have ht := transfer_write g.buf hle
    rw [hn] at ht
    simp only [xferLoop, ht]
    rw [ih hgs (by rw [hnext]; simp only; omega), hnext, ← hg]
    exact Prod.ext (congrArg (VmemDiskDev.mk dev.size) (write_payload _ _ g gs)) rfl

theorem xferLoop_read : xferLoop cur false dev sector gs =
    (dev, fill gs (dev.data.read (sector * KERNEL_SECTOR_SIZE) (total gs))) := by
  induction gs generalizing sector with
  | nil => rfl
  | cons g gs ih =>
    obtain ⟨hg, hgs⟩ := List.forall_mem_cons.1 hlen
    rw [total_cons, hg] at hfit
    have hn := shiftRight_sectors hcur
    have hnext := next_sector hcur sector
    have hle : sector * KERNEL_SECTOR_SIZE + cur >>> 9 * KERNEL_SECTOR_SIZE ≤ dev.size := by
      rw [hn]
      omega
    have ht := transfer_read g.buf hle
    rw [hn] at ht
    simp only [xferLoop, ht]
    rw [ih hgs (by rw [hnext]; omega), hnext, ← hg]
    exact Prod.ext rfl (fill_read _ _ g gs)

end

/-- A read leaves each buffer as it is, or stores `bio_cur_bytes(bio)` bytes in it. -/
theorem xferLoop_stores (dev : VmemDiskDev) {cur : ℕ} (hcur : KERNEL_SECTOR_SIZE ∣ cur) (sector : ℕ)
    (gs : List Segment) : List.Forall₂ (fun g g' : Segment => g' = g ∨
      ∃ o, g' = g.put (dev.data.read o cur)) gs (xferLoop cur false dev sector gs).2 := by
  induction gs generalizing sector with
  | nil => exact .nil
  | cons g gs ih =>
    have hdev : (vmemDiskTransfer dev sector (cur >>> 9) g.buf false).1 = dev := by
      simp only [vmemDiskTransfer]
      split <;> rfl
    refine .cons ?_ (by rw [hdev]; exact ih _)
    simp only [vmemDiskTransfer, shiftRight_sectors hcur]
    split
    · exact Or.inl rfl
    · exact Or.inr ⟨_, rfl⟩

theorem read_const (x : UInt8) (o n : ℕ) : Block.read (fun _ => x) o n = List.replicate n x := by
  simp [Block.read]

theorem fill_replicate (x : UInt8) (gs : List Segment) : fill gs (List.replicate (total gs) x) =
    gs.map fun g => g.put (List.replicate g.len x) := by
  induction gs with
  | nil => rfl
  | cons g gs ih => simp [fill, ← ih]

/-- How many ones were stored in a buffer of zeros. -/
theorem write_ones_inj {m n : ℕ} (h : Block.write (fun _ => 0) 0 (List.replicate m 1) =
    Block.write (fun _ => 0) 0 (List.replicate n 1)) : m = n := by
  have hone : ∀ k i : ℕ, Block.write (fun _ => 0) 0 (List.replicate k 1) i = if i < k then 1 else 0 := by
    intro k i
    simp only [Block.write, Nat.not_lt_zero, if_false, Nat.sub_zero, List.getElem?_replicate]
    split_ifs <;> rfl
  rcases Nat.lt_trichotomy m n with hlt | heq | hlt
  · have := congrFun h m
    rw [hone, hone, if_neg (lt_irrefl m), if_pos hlt] at this
    exact absurd this (by decide)
  · exact heq
  · have := congrFun h n
    rw [hone, hone, if_neg (lt_irrefl n), if_pos hlt] at this
    exact absurd this (by decide)

/-- The bytes a read of ones stores in buffers of zeros show the length of each segment. -/
theorem Faithful.uniform {sector : ℕ} {lens : List ℕ}
    (hlens : ∀ l ∈ lens, 0 < l ∧ KERNEL_SECTOR_SIZE ∣ l) (F : Faithful sector lens) : Uniform lens := by
  cases lens with
  | nil => simp [Uniform]
  | cons cur lens =>
    set gs : List Segment := (cur :: lens).map fun l => ⟨l, fun _ => 0⟩ with hgs
    have hread := F.read (fun _ => 1) gs (by simp [hgs, Function.comp_def])
    rw [read_const, fill_replicate] at hread
    have hstores := xferLoop_stores (setupDevice fun _ => 1) (hlens cur List.mem_cons_self).2 sector gs
    have hloop : (xferLoop cur false (setupDevice fun _ => 1) sector gs).2 =
        gs.map fun g => g.put (List.replicate g.len 1) := congrArg Prod.snd hread
    rw [hloop, List.forall₂_map_right_iff, List.forall₂_same] at hstores
    intro l hl
    rw [List.head?_cons]
    congr 1
    have hg := hstores ⟨l, fun _ => 0⟩ (by rw [hgs]; exact List.mem_map_of_mem hl)
    rcases hg with hg | ⟨o, hg⟩
    · have hbuf : Block.write (fun _ => 0) 0 (List.replicate l 1) =
          Block.write (fun _ => 0) 0 (List.replicate 0 1) :=
        (congrArg Segment.buf hg).trans (Block.write_nil _ _).symm
      have := write_ones_inj hbuf
      have := (hlens l hl).1
      omega
    · rw [show (setupDevice fun _ => 1).data = fun _ => 1 from rfl, read_const] at hg
      exact write_ones_inj (congrArg Segment.buf hg)

theorem Uniform.faithful {sector : ℕ} {lens : List ℕ} (hlens : ∀ l ∈ lens, KERNEL_SECTOR_SIZE ∣ l)
    (hfit : sector * KERNEL_SECTOR_SIZE + lens.sum ≤ NSECTORS * HARDSECT_SIZE) (U : Uniform lens) :
    Faithful sector lens := by
  have hbio : ∀ (w : Bool) (gs : List Segment), gs.map Segment.len = lens →
      KERNEL_SECTOR_SIZE ∣ (Bio.mk sector w gs).curBytes ∧
        ∀ g ∈ gs, g.len = (Bio.mk sector w gs).curBytes := by
    rintro w gs rfl
    have hcur : (Bio.mk sector w gs).curBytes = (gs.map Segment.len).head?.getD 0 := by
      simp [Bio.curBytes]
    constructor
    · rw [hcur]
      cases gs with
      | nil => exact dvd_zero _
      | cons g gs => exact hlens g.len (by simp)
    · intro g hg
      rw [hcur, ← U g.len (List.mem_map_of_mem hg), Option.getD_some]
  constructor
  · intro data gs hgs
    obtain ⟨hcur, hlen⟩ := hbio true gs hgs
    exact xferLoop_write hcur hlen (by rw [total, hgs]; exact hfit)
  · intro data gs hgs
    obtain ⟨hcur, hlen⟩ := hbio false gs hgs
    exact xferLoop_read hcur hlen (by rw [total, hgs]; exact hfit)

/-- What was written through one segmentation is read back through another. -/
theorem Faithful.round_trip {sector : ℕ} {lens lens' : List ℕ} (F : Faithful sector lens)
    (F' : Faithful sector lens') (hsum : lens.sum = lens'.sum) (data : Block) (gs gs' : List Segment)
    (hgs : gs.map Segment.len = lens) (hgs' : gs'.map Segment.len = lens') :
    payload (vmemDiskXferBio (vmemDiskXferBio (setupDevice data) ⟨sector, true, gs⟩).1
      ⟨sector, false, gs'⟩).2 = payload gs := by
  have htotal : (payload gs).length = total gs' := by
    rw [length_payload, total, total, hgs, hgs', hsum]
  rw [F.write data gs hgs, F'.read _ gs' hgs', ← htotal, Block.read_write]
  exact payload_fill htotal

/-- **Which bios are transferred faithfully**: those with segments of one length; and what was
    written through one such segmentation is read back through any other. -/
theorem xfer_iff (sector : ℕ) (lens : List ℕ) (hlens : ∀ l ∈ lens, 0 < l ∧ KERNEL_SECTOR_SIZE ∣ l)
    (hfit : sector * KERNEL_SECTOR_SIZE + lens.sum ≤ NSECTORS * HARDSECT_SIZE) :
    (Faithful sector lens ↔ Uniform lens) ∧
      ∀ lens', (∀ l ∈ lens', KERNEL_SECTOR_SIZE ∣ l) → lens.sum = lens'.sum → Uniform lens →
        Uniform lens' → ∀ (data : Block) (gs gs' : List Segment), gs.map Segment.len = lens →
        gs'.map Segment.len = lens' →
        payload (vmemDiskXferBio (vmemDiskXferBio (setupDevice data) ⟨sector, true, gs⟩).1
          ⟨sector, false, gs'⟩).2 = payload gs := by
  have hdvd : ∀ l ∈ lens, KERNEL_SECTOR_SIZE ∣ l := fun l hl => (hlens l hl).2
  refine ⟨⟨fun F => F.uniform hlens, fun U => U.faithful hdvd hfit⟩, fun lens' hlens' hsum U U' => ?_⟩
  exact (U.faithful hdvd hfit).round_trip (U'.faithful hlens' (by rwa [← hsum])) hsum

theorem xfer_iff_two : (Faithful 0 [512, 512] ↔ Uniform [512, 512]) ∧
    ∀ lens', (∀ l ∈ lens', KERNEL_SECTOR_SIZE ∣ l) → [512, 512].sum = lens'.sum → Uniform [512, 512] →
      Uniform lens' → ∀ (data : Block) (gs gs' : List Segment), gs.map Segment.len = [512, 512] →
      gs'.map Segment.len = lens' →
      payload (vmemDiskXferBio (vmemDiskXferBio (setupDevice data) ⟨0, true, gs⟩).1
        ⟨0, false, gs'⟩).2 = payload gs :=
  xfer_iff 0 [512, 512] (by decide) (by decide)

/-- The second half of the second segment is not stored. -/
theorem xfer_short : ¬ Faithful 0 [512, 1024] := by
  intro F
  have h := F.write (fun _ => 0) [⟨512, fun _ => 1⟩, ⟨1024, fun _ => 1⟩] rfl
  have hbyte := congrFun (congrArg (fun r => r.1.data) h) 1024
  revert hbyte
  decide +kernel

end VmemDisk
