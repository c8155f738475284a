/-
  SimpleLinuxRamDisk — `rd_request`, `rd_transfer` and `setup_device`.

  * `rdLoop`: the loop of `rd_request`, which completes a request segment by
    segment;
  * `rdLoop_fs`: the rest of a filesystem request is transferred in one go
    (`serve`), and then the next request is fetched;
  * `disk_history`: on a disk of 1 to 2047 MiB, what is read is what was written
    last;
  * `drain_iff`: the queues that `rd_request` drains.

  The debug dump of `rd_transfer` is left out.  Sectors are numbers below `2 ^ 55`,
  as those of a device are: byte offsets do not wrap.
-/
import KernelLinux.Block.VmemDisk

namespace Ramdisk

open Bytes Blk

def SECTOR_SIZE : ℕ := 512
def NR_OF_SECTR_PER_KB : ℕ := 2

/-- `struct ramdisk_dev` -/
structure RamdiskDev where
  /-- an `int` -/
  sectors : ℤ
  /-- a `long` -/
  size : ℤ
  data : Block

/-- The result of `int` arithmetic. -/
def toInt (x : ℤ) : ℤ := x.bmod (2 ^ 32)

/-- The device after `setup_device`; `vmalloc` is the memory it was given. -/
def setupDevice (userDiskSize : ℤ) (vmalloc : Block) : RamdiskDev :=
  let userDiskSize := if userDiskSize ≤ 0 then 64 else userDiskSize
  let sectors := toInt (toInt (userDiskSize * 1024) * NR_OF_SECTR_PER_KB)
  ⟨sectors, toInt (sectors * SECTOR_SIZE), vmalloc⟩

/-- A call of `memcpy` for a segment of a request. -/
structure Transfer where
  tag : ℕ
  sector : ℕ
  nsectors : ℕ

/-- `(offset + nbytes) > rd->size`, a comparison of `unsigned long`. -/
def RamdiskDev.beyond (rd : RamdiskDev) (sector nsectors : ℕ) : Prop :=
  (rd.size % 2 ^ 64).toNat < sector * SECTOR_SIZE + nsectors * SECTOR_SIZE

instance (rd : RamdiskDev) (sector nsectors : ℕ) : Decidable (rd.beyond sector nsectors) :=
  inferInstanceAs (Decidable (_ < _))

/-- `rd_transfer`: the device and the buffer after it. -/
def rdTransfer (rd : RamdiskDev) (sector nsectors : ℕ) (buffer : Block) (write : Bool) :
    RamdiskDev × Block :=
  let offset := sector * SECTOR_SIZE
  let nbytes := nsectors * SECTOR_SIZE
  if rd.beyond sector nsectors then (rd, buffer)
  else if write then ({ rd with data := rd.data.write offset (buffer.read 0 nbytes) }, buffer)
  else (rd, buffer.write 0 (rd.data.read offset nbytes))

/-! ## Requests -/

/-- A fetched request: the segments that are left of it and those that are completed. -/
structure Active where
  req : Request
  /-- `blk_rq_pos(req)` -/
  pos : ℕ
  left : List Segment
  done : List Segment

namespace Active
variable (a : Active)

/-- `blk_rq_cur_sectors(req)` -/
def curSectors : ℕ := (a.left.head?.map Segment.len).getD 0 >>> 9

/-- `bio_data(req->bio)` -/
def curBuf : Block := (a.left.head?.map Segment.buf).getD fun _ => 0

/-- The `memcpy` of `rd_transfer` for the current segment. -/
def memcpyOf (rd : RamdiskDev) : List Transfer :=
  match a.left with
  | [] => []
  | _ :: _ => if rd.beyond a.pos a.curSectors then [] else [⟨a.req.tag, a.pos, a.curSectors⟩]

/-- `__blk_end_request_cur(req, 0)`, the buffer of the segment being `buf`: what is left of the
    request, or its completion. -/
def endCur (buf : Block) : Completion ⊕ Active :=
  match a.left with
  | [] => .inl ⟨a.req.tag, none, a.done⟩
  | [g] => .inl ⟨a.req.tag, none, a.done ++ [{ g with buf := buf }]⟩
  | g :: gs => .inr ⟨a.req, a.pos + g.len >>> 9, gs, a.done ++ [{ g with buf := buf }]⟩

variable {a} in
/-- One segment less is left. -/
theorem endCur_more {buf : Block} {a' : Active} (h : a.endCur buf = .inr a') :
    a'.left.length < a.left.length := by
  rcases hl : a.left with - | ⟨g, - | ⟨g', gs⟩⟩
  · simp [endCur, hl] at h
  · simp [endCur, hl] at h
  · simp only [endCur, hl, Sum.inr.injEq] at h
    subst h
    simp

end Active

/-- `blk_fetch_request` -/
def blkFetchRequest : List Request → Option Active × List Request
  | [] => (none, [])
  | req :: q => (some ⟨req, req.pos, req.segs, []⟩, q)

/-- What a run of `rd_request` leaves and has done. -/
structure Outcome where
  rd : RamdiskDev
  queue : List Request
  completions : List Completion
  transfers : List Transfer

/-- The loop of `rd_request` with the request `req`. -/
def rdLoop (rd : RamdiskDev) (req : Option Active) (q : List Request) : Outcome :=
  match req with
  | none => ⟨rd, q, [], []⟩
  | some a =>
    if a.req.fs then
      let t := rdTransfer rd a.pos a.curSectors a.curBuf a.req.write
      let log := a.memcpyOf rd
      match _hend : a.endCur t.2 with
      | .inr a' =>
        let r := rdLoop t.1 (some a') q
        { r with transfers := log ++ r.transfers }
      | .inl c =>
        let r := rdLoop t.1 (blkFetchRequest q).1 (blkFetchRequest q).2
        { r with completions := c :: r.completions, transfers := log ++ r.transfers }
    else ⟨rd, q, [⟨a.req.tag, some .eio, a.done ++ a.left⟩], []⟩
termination_by (q.length, (req.map fun a => a.left.length + 1).getD 0)
decreasing_by
  · exact Prod.Lex.right _ (Nat.succ_lt_succ (Active.endCur_more _hend))
  · cases q with
    | nil => exact Prod.Lex.right _ (Nat.succ_pos _)
    | cons => exact Prod.Lex.left _ _ (Nat.lt_succ_self _)

/-- `rd_request` -/
def rdRequest (rd : RamdiskDev) (q : List Request) : Outcome :=
  rdLoop rd (blkFetchRequest q).1 (blkFetchRequest q).2

/-! ## Filesystem requests -/

/-- The device, the segments and the copies after a list of segments was transferred. -/
structure Served where
  rd : RamdiskDev
  segs : List Segment
  transfers : List Transfer

/-- The `memcpy` for a segment at the sector `pos`. -/
def memcpyFor (rd : RamdiskDev) (req : Request) (pos : ℕ) (g : Segment) : List Transfer :=
  if rd.beyond pos (g.len >>> 9) then [] else [⟨req.tag, pos, g.len >>> 9⟩]

/-- The transfers of the segments of a request, from the sector `pos` on. -/
def serve (req : Request) : RamdiskDev → ℕ → List Segment → Served
  | rd, _, [] => ⟨rd, [], []⟩
  | rd, pos, g :: gs =>
    let t := rdTransfer rd pos (g.len >>> 9) g.buf req.write
    let r := serve req t.1 (pos + g.len >>> 9) gs
    ⟨r.rd, { g with buf := t.2 } :: r.segs, memcpyFor rd req pos g ++ r.transfers⟩

section
variable (rd : RamdiskDev) (req : Request) (pos : ℕ) (g : Segment) (gs done : List Segment)

@[simp] theorem curSectors_cons : (Active.mk req pos (g :: gs) done).curSectors = g.len >>> 9 := rfl
@[simp] theorem curBuf_cons : (Active.mk req pos (g :: gs) done).curBuf = g.buf := rfl
@[simp] theorem memcpyOf_nil : (Active.mk req pos [] done).memcpyOf rd = [] := rfl
@[simp] theorem memcpyOf_cons :
    (Active.mk req pos (g :: gs) done).memcpyOf rd = memcpyFor rd req pos g := rfl

end

theorem rdTransfer_zero (rd : RamdiskDev) (sector : ℕ) (buffer : Block) (write : Bool) :
    (rdTransfer rd sector 0 buffer write).1 = rd := by
  simp only [rdTransfer, Nat.zero_mul, Block.read_zero, Block.write_nil]
  split_ifs <;> rfl

/-- **The rest of a filesystem request**: it is transferred, and the next one is fetched. -/
theorem rdLoop_fs {req : Request} (hfs : req.fs = true) (q : List Request) (left : List Segment) :
    ∀ (rd : RamdiskDev) (pos : ℕ) (done : List Segment),
      rdLoop rd (some ⟨req, pos, left, done⟩) q =
        let r := serve req rd pos left
        let o := rdRequest r.rd q
        { o with
          completions := ⟨req.tag, none, done ++ r.segs⟩ :: o.completions
          transfers := r.transfers ++ o.transfers } := by
  induction left with
  | nil =>
    intro rd pos done
    rw [rdLoop]
    simp [hfs, Active.endCur, Active.curSectors, rdTransfer_zero, serve, rdRequest]
  | cons g gs ih =>
    intro rd pos done
    rw [rdLoop]
    cases gs with
    | nil => simp [hfs, Active.endCur, serve, rdRequest]
    | cons g' gs =>
      simp only [hfs, if_true, Active.endCur, ih]
      simp [serve]

section
variable (rd : RamdiskDev) {req : Request} (q : List Request)

@[simp] theorem rdRequest_nil : rdRequest rd [] = ⟨rd, [], [], []⟩ := by
  simp only [rdRequest, blkFetchRequest]
  rw [rdLoop]

theorem rdRequest_fs (hfs : req.fs = true) : rdRequest rd (req :: q) =
    let r := serve req rd req.pos req.segs
    let o := rdRequest r.rd q
    { o with
      completions := ⟨req.tag, none, r.segs⟩ :: o.completions
      transfers := r.transfers ++ o.transfers } :=
  rdLoop_fs hfs q req.segs rd req.pos []

/-- The loop is left at a request of another kind. -/
theorem rdRequest_other (hfs : req.fs = false) : rdRequest rd (req :: q) =
    ⟨rd, q, [⟨req.tag, some .eio, req.segs⟩], []⟩ := by
  simp only [rdRequest, blkFetchRequest]
  rw [rdLoop]
  simp [hfs]

end

/-! ## A flat disk -/

theorem toInt_eq {x : ℤ} (h₀ : 0 ≤ x) (h : x < 2 ^ 31) : toInt x = x := by
  simp only [toInt, Int.bmod]
  split <;> omega

theorem setupDevice_size {u : ℤ} (h₁ : 1 ≤ u) (h₂ : u ≤ 2047) (b : Block) :
    (setupDevice u b).sectors = u * 2048 ∧ (setupDevice u b).size = u * 2048 * 512 := by
  have hu : ¬ u ≤ 0 := by omega
  have hkb : toInt (u * 1024) = u * 1024 := toInt_eq (by omega) (by omega)
  have hsectors : (setupDevice u b).sectors = u * 2048 := by
    simp only [setupDevice, if_neg hu, hkb, NR_OF_SECTR_PER_KB]
    rw [toInt_eq (by omega) (by omega)]
    omega
  refine ⟨hsectors, ?_⟩
  show toInt ((setupDevice u b).sectors * SECTOR_SIZE) = _
  rw [hsectors, SECTOR_SIZE]
  exact toInt_eq (by omega) (by omega)

/-- A list of segments of whole sectors. -/
def Whole (gs : List Segment) : Prop := ∀ g ∈ gs, 0 < g.len ∧ SECTOR_SIZE ∣ g.len

/-- The segment transfers of a request, each at its own sector. -/
def places (tag : ℕ) : ℕ → List Segment → List Transfer
  | _, [] => []
  | pos, g :: gs => ⟨tag, pos, g.len >>> 9⟩ :: places tag (pos + g.len >>> 9) gs

/-- The bytes of a flat disk, and the segments, after the transfer of a request. -/
def flat (req : Request) (data : Block) (pos : ℕ) (gs : List Segment) : Block × List Segment :=
  if req.write then (data.write (pos * SECTOR_SIZE) (payload gs), gs)
  else (data, fill gs (data.read (pos * SECTOR_SIZE) (total gs)))

section
variable {rd : RamdiskDev} {req : Request} {pos : ℕ} {g : Segment} {gs : List Segment}

/-- **Inside the disk all segments are transferred**, each at its own sector. -/
theorem serve_flat (hgs : Whole gs) (hfit : ((pos * SECTOR_SIZE + total gs : ℕ) : ℤ) ≤ rd.size)
    (hsize : rd.size < 2 ^ 64) : serve req rd pos gs =
      ⟨{ rd with data := (flat req rd.data pos gs).1 }, (flat req rd.data pos gs).2,
        places req.tag pos gs⟩ := by
  induction gs generalizing rd pos with
  | nil => cases hw : req.write <;> simp [serve, flat, places, fill, hw]
  | cons g gs ih =>
    obtain ⟨⟨-, hdvd⟩, hgs⟩ := List.forall_mem_cons.1 hgs
    rw [total_cons] at hfit
    have hn : (g.len >>> 9) * SECTOR_SIZE = g.len := VmemDisk.shiftRight_sectors hdvd
    have hnext : (pos + g.len >>> 9) * SECTOR_SIZE = pos * SECTOR_SIZE + g.len :=
      VmemDisk.next_sector hdvd pos
    have hin : ¬ rd.beyond pos (g.len >>> 9) := by
      rw [RamdiskDev.beyond, hn]
      omega
    have hlog : memcpyFor rd req pos g = [⟨req.tag, pos, g.len >>> 9⟩] := if_neg hin
    have hfit' : (((pos + g.len >>> 9) * SECTOR_SIZE + total gs : ℕ) : ℤ) ≤ rd.size := by
      rw [hnext]
      omega
    cases hw : req.write with
    | true =>
      have ht : rdTransfer rd pos (g.len >>> 9) g.buf true =
          ({ rd with data := rd.data.write (pos * SECTOR_SIZE) g.bytes }, g.buf) := by
        simp only [rdTransfer, if_neg hin, hn, if_true]
        rfl
      simp only [serve, hw, ht, hlog]
      rw [@ih { rd with data := rd.data.write (pos * SECTOR_SIZE) g.bytes } _ hgs hfit' hsize]
      simp [flat, hw, hnext, write_payload, places]
    | false =>
      have ht : rdTransfer rd pos (g.len >>> 9) g.buf false =
          (rd, g.buf.write 0 (rd.data.read (pos * SECTOR_SIZE) g.len)) := by
        simp only [rdTransfer, if_neg hin, hn, Bool.false_eq_true, if_false]
      simp only [serve, hw, ht, hlog]
      rw [ih hgs hfit' hsize]
      simp only [flat, hw, hnext, Bool.false_eq_true, if_false, ← fill_read, places]
      rfl

end

/-! ## The history of a disk -/

/-- A filesystem request inside the advertised capacity, of non-empty segments of whole sectors. -/
structure Ok (rd : RamdiskDev) (req : Request) : Prop where
  fs : req.fs = true
  whole : Whole req.segs
  fits : ((req.pos * SECTOR_SIZE + total req.segs : ℕ) : ℤ) ≤ rd.sectors * SECTOR_SIZE

/-- The sector `s` is one of a request. -/
def covers (req : Request) (s : ℕ) : Prop :=
  req.pos ≤ s ∧ (s + 1) * SECTOR_SIZE ≤ req.pos * SECTOR_SIZE + total req.segs

instance (req : Request) (s : ℕ) : Decidable (covers req s) := inferInstanceAs (Decidable (_ ∧ _))

/-- The sector `s` in segments that begin at the sector `pos`. -/
def sectorAt (gs : List Segment) (pos s : ℕ) : List UInt8 :=
  ((payload gs).drop ((s - pos) * SECTOR_SIZE)).take SECTOR_SIZE

/-- The content of the sector `s` in the latest write of `hist` that covers it; the initial
    content, if there is none. -/
def latest (init : Block) (hist : List Request) (s : ℕ) : List UInt8 :=
  match hist.reverse.find? fun req => req.write && decide (covers req s) with
  | some req => sectorAt req.segs req.pos s
  | none => init.read (s * SECTOR_SIZE) SECTOR_SIZE

/-- The completion `c` answers the request `req` after the requests `hist`. -/
structure Answers (init : Block) (hist : List Request) (req : Request) (c : Completion) : Prop where
  status : c.status = (req.tag, none)
  lens : c.segs.map Segment.len = req.segs.map Segment.len
  read : req.write = false → ∀ s, covers req s → sectorAt c.segs req.pos s = latest init hist s

/-- The sectors of `data` are the latest ones. -/
def Shows (init : Block) (hist : List Request) (data : Block) : Prop :=
  ∀ s, data.read (s * SECTOR_SIZE) SECTOR_SIZE = latest init hist s

section
variable {init data : Block} {hist : List Request} {req : Request} {gs : List Segment} {pos s : ℕ}

theorem latest_snoc : latest init (hist ++ [req]) s =
    if req.write = true ∧ covers req s then sectorAt req.segs req.pos s else latest init hist s := by
  rw [latest, List.reverse_append, List.reverse_singleton, List.singleton_append, List.find?_cons]
  cases hw : req.write with
  | false => simp [latest]
  | true => by_cases hc : covers req s <;> simp [latest, hc]

theorem Whole.dvd_total (h : Whole gs) : SECTOR_SIZE ∣ total gs := by
  induction gs with
  | nil => exact dvd_zero _
  | cons g gs ih =>
    obtain ⟨⟨-, hdvd⟩, hgs⟩ := List.forall_mem_cons.1 h
    rw [total_cons]
    exact Nat.dvd_add hdvd (ih hgs)

/-- A sector of what lies at the place of the request. -/
theorem sector_read (h : covers req s) : ((data.read (req.pos * SECTOR_SIZE) (total req.segs)).drop
    ((s - req.pos) * SECTOR_SIZE)).take SECTOR_SIZE = data.read (s * SECTOR_SIZE) SECTOR_SIZE := by
  obtain ⟨hpos, hend⟩ := h
  have hoff : req.pos * SECTOR_SIZE + (s - req.pos) * SECTOR_SIZE = s * SECTOR_SIZE := by
    rw [← Nat.add_mul, Nat.add_sub_cancel' hpos]
  rw [Block.drop_read, Block.take_read, hoff, Nat.min_eq_left]
  rw [Nat.add_mul, ← hoff] at hend
  omega

/-- A sector that a write covers is that of its segments. -/
theorem read_write_covered (h : covers req s) :
    (data.write (req.pos * SECTOR_SIZE) (payload req.segs)).read (s * SECTOR_SIZE) SECTOR_SIZE =
      sectorAt req.segs req.pos s := by
  rw [← sector_read h, ← length_payload, Block.read_write, sectorAt]

/-- A sector that a write does not cover stays as it is. -/
theorem read_write_uncovered (hgs : Whole req.segs) (h : ¬ covers req s) :
    (data.write (req.pos * SECTOR_SIZE) (payload req.segs)).read (s * SECTOR_SIZE) SECTOR_SIZE =
      data.read (s * SECTOR_SIZE) SECTOR_SIZE := by
  obtain ⟨m, hm⟩ := hgs.dvd_total
  apply Block.read_write_disjoint
  rw [length_payload, hm]
  rw [covers, hm] at h
  simp only [SECTOR_SIZE] at h ⊢
  omega

@[simp] theorem map_len_fill (bs : List UInt8) : (fill gs bs).map Segment.len = gs.map Segment.len := by
  induction gs generalizing bs with
  | nil => rfl
  | cons g gs ih => simp [fill, ih]

/-- **One request**: the disk still shows what was written last. -/
theorem Shows.flat (h : Shows init hist data) (hgs : Whole req.segs) :
    Shows init (hist ++ [req]) (flat req data req.pos req.segs).1 := by
  intro s
  rw [latest_snoc]
  cases hw : req.write with
  | false => simpa [Ramdisk.flat, hw] using h s
  | true =>
    simp only [Ramdisk.flat, hw, if_true, true_and]
    split_ifs with hc
    · exact read_write_covered hc
    · rw [read_write_uncovered hgs hc, h s]

/-- One request is answered from what the disk shows. -/
theorem Shows.answers (h : Shows init hist data) :
    Answers init hist req ⟨req.tag, none, (Ramdisk.flat req data req.pos req.segs).2⟩ := by
  refine ⟨rfl, ?_, fun hw s hc => ?_⟩
  · cases hw : req.write <;> simp [Ramdisk.flat, hw]
  · have hpayload : payload (fill req.segs (data.read (req.pos * SECTOR_SIZE) (total req.segs))) =
        data.read (req.pos * SECTOR_SIZE) (total req.segs) := payload_fill (by simp)
    simp only [Ramdisk.flat, hw, Bool.false_eq_true, if_false, sectorAt, hpayload]
    rw [sector_read hc, h s]

end

/-- Calls of `rd_request`, each after the requests `new` were queued. -/
def rdRequests (rd : RamdiskDev) (q : List Request) : List (List Request) → Outcome
  | [] => ⟨rd, q, [], []⟩
  | new :: later =>
    let o := rdRequest rd (q ++ new)
    let r := rdRequests o.rd o.queue later
    ⟨r.rd, r.queue, o.completions ++ r.completions, o.transfers ++ r.transfers⟩

/-- A queue of filesystem requests is served in any portions. -/
theorem rdRequest_append {q : List Request} (hq : ∀ req ∈ q, req.fs = true) (rd : RamdiskDev)
    (q' : List Request) : (rdRequest rd q).queue = [] ∧ rdRequest rd (q ++ q') =
      let o := rdRequest rd q
      let r := rdRequest o.rd q'
      ⟨r.rd, r.queue, o.completions ++ r.completions, o.transfers ++ r.transfers⟩ := by
  induction q generalizing rd with
  | nil => simp
  | cons req q ih =>
    obtain ⟨hfs, hq⟩ := List.forall_mem_cons.1 hq
    obtain ⟨hqueue, happend⟩ := ih hq (serve req rd req.pos req.segs).rd
    rw [List.cons_append, rdRequest_fs rd q hfs, rdRequest_fs rd (q ++ q') hfs]
    refine ⟨hqueue, ?_⟩
    simp only [happend, List.cons_append, List.append_assoc]

theorem rdRequests_flatten {qs : List (List Request)} (hqs : ∀ req ∈ qs.flatten, req.fs = true)
    (rd : RamdiskDev) : rdRequests rd [] qs = rdRequest rd qs.flatten := by
  induction qs generalizing rd with
  | nil => simp [rdRequests]
  | cons q qs ih =>
    rw [List.flatten_cons] at hqs ⊢
    obtain ⟨hqueue, happend⟩ := rdRequest_append
      (fun req h => hqs req (List.mem_append_left _ h)) rd qs.flatten
    rw [happend, rdRequests, List.nil_append, hqueue,
      ih fun req h => hqs req (List.mem_append_right _ h)]

/-- The requests were all answered in order, `hist` being the requests before them. -/
structure History (init : Block) (hist q : List Request) (o : Outcome) : Prop where
  queue : o.queue = []
  transfers : o.transfers = q.flatMap fun req => places req.tag req.pos req.segs
  length : o.completions.length = q.length
  answers : ∀ i (hi : i < q.length), ∃ c, o.completions[i]? = some c ∧
    Answers init (hist ++ q.take i) q[i] c

/-- **A queue**: all requests are answered from what was written last. -/
theorem Shows.history {init : Block} {rd : RamdiskDev} (hsize : rd.size = rd.sectors * SECTOR_SIZE)
    (hlt : rd.size < 2 ^ 64) {q : List Request} (hq : ∀ req ∈ q, Ok rd req) {hist : List Request}
    (h : Shows init hist rd.data) : History init hist q (rdRequest rd q) := by
  induction q generalizing rd hist with
  | nil => exact ⟨by simp, by simp, by simp, fun i hi => absurd hi (Nat.not_lt_zero i)⟩
  | cons req q ih =>
    obtain ⟨⟨hfs, hwhole, hfits⟩, hq⟩ := List.forall_mem_cons.1 hq
    have H := @ih { rd with data := (Ramdisk.flat req rd.data req.pos req.segs).1 } hsize hlt
      (fun req hreq => ⟨(hq req hreq).fs, (hq req hreq).whole, (hq req hreq).fits⟩) _ (h.flat hwhole)
    rw [rdRequest_fs _ q hfs, serve_flat hwhole (by rwa [hsize]) hlt]
    refine ⟨H.queue, ?_, ?_, fun i hi => ?_⟩
    · simp [H.transfers]
    · simp [H.length]
    · cases i with
      | zero => exact ⟨_, rfl, by simpa using h.answers⟩
      | succ i =>
        obtain ⟨c, hc, hans⟩ := H.answers i (Nat.lt_of_succ_lt_succ hi)
        exact ⟨c, hc, by simpa using hans⟩

/-- **The disk**: all requests are completed, each segment is transferred at its own sector, and
    what is read is what was written last. -/
theorem disk_history {u : ℤ} (h₁ : 1 ≤ u) (h₂ : u ≤ 2047) (init : Block) (qs : List (List Request))
    (hqs : ∀ req ∈ qs.flatten, Ok (setupDevice u init) req) :
    History init [] qs.flatten (rdRequests (setupDevice u init) [] qs) := by
  obtain ⟨hsectors, hsize⟩ := setupDevice_size h₁ h₂ init
  rw [rdRequests_flatten fun req hreq => (hqs req hreq).fs]
  have hshows : Shows init [] (setupDevice u init).data := fun s => rfl
  exact hshows.history (by rw [hsectors, hsize]; rfl) (by rw [hsize]; omega) hqs

/-- A write of two segments, and in a later call a read of the second sector. -/
def writeThenRead : List (List Request) :=
  [[⟨0, true, 0, true, [⟨0, true, [⟨512, fun _ => 1⟩, ⟨512, fun _ => 2⟩]⟩]⟩],
    [⟨1, true, 1, false, [⟨1, false, [⟨512, fun _ => 0⟩]⟩]⟩]]

theorem disk_history_writeThenRead : History (fun _ => 0) [] writeThenRead.flatten
    (rdRequests (setupDevice 1 fun _ => 0) [] writeThenRead) := by
  refine @disk_history 1 (by decide) (by decide) _ _ fun req hreq => ?_
  simp only [writeThenRead, List.flatten_cons, List.flatten_nil, List.append_nil, List.cons_append,
    List.nil_append, List.mem_cons, List.not_mem_nil, or_false] at hreq
  rcases hreq with rfl | rfl
  · exact ⟨rfl, by simp [Whole, Request.segs, SECTOR_SIZE], by decide +kernel⟩
  · exact ⟨rfl, by simp [Whole, Request.segs, SECTOR_SIZE], by decide +kernel⟩

/-! ## Queues that are drained -/

/-- The status a request is to be completed with. -/
def statusOf (req : Request) : ℕ × Option Errno := (req.tag, if req.fs then none else some .eio)

/-- `vmem_disk_request` completes all requests. -/
theorem vmemDiskRequest_status (dev : VmemDisk.VmemDiskDev) (q : List Request) :
    (VmemDisk.vmemDiskRequest dev q).2.map Completion.status = q.map statusOf := by
  induction q generalizing dev with
  | nil => rfl
  | cons req q ih =>
    rw [VmemDisk.vmemDiskRequest]
    cases hfs : req.fs <;> simp [ih, Completion.status, statusOf, hfs]

/-- `rd_request` has completed all requests, and left none. -/
def Drained (o : Outcome) (q : List Request) : Prop :=
  o.queue = [] ∧ o.completions.map Completion.status = q.map statusOf

theorem drained_iff (rd : RamdiskDev) (q : List Request) :
    Drained (rdRequest rd q) q ↔ ∀ req ∈ q.dropLast, req.fs = true := by
  induction q generalizing rd with
  | nil => simp [Drained]
  | cons req q ih =>
    cases hfs : req.fs with
    | true =>
      have hstatus : statusOf req = (req.tag, none) := by simp [statusOf, hfs]
      have hdrained : Drained (rdRequest rd (req :: q)) (req :: q) ↔
          Drained (rdRequest (serve req rd req.pos req.segs).rd q) q := by
        rw [rdRequest_fs rd q hfs]
        simp [Drained, Completion.status, hstatus]
      rw [hdrained, ih]
      cases q with
      | nil => simp
      | cons req' q => simp [hfs]
    | false =>
      rw [rdRequest_other rd q hfs]
      cases q with
      | nil => simp [Drained, Completion.status, statusOf, hfs]
      | cons req' q => simp [Drained, hfs]

/-- **Which queues are drained**, as `vmem_disk_request` drains them: those in which no request but
    the last is of another kind. -/
theorem drain_iff (rd : RamdiskDev) (dev : VmemDisk.VmemDiskDev) (q : List Request) :
    Drained (rdRequest rd q) q ∧ (rdRequest rd q).completions.map Completion.status =
        (VmemDisk.vmemDiskRequest dev q).2.map Completion.status ↔
      ∀ req ∈ q.dropLast, req.fs = true := by
  rw [← drained_iff rd q, vmemDiskRequest_status]
  exact ⟨fun h => h.1, fun h => ⟨h, h.2⟩⟩

/-- A filesystem request behind one of another kind. -/
def mixedQueue : List Request :=
  [⟨0, false, 0, false, []⟩, ⟨1, true, 0, false, [⟨0, false, [⟨512, fun _ => 0⟩]⟩]⟩]

theorem mixedQueue_left :
    ¬ (Drained (rdRequest (setupDevice 1 fun _ => 0) mixedQueue) mixedQueue ∧
      (rdRequest (setupDevice 1 fun _ => 0) mixedQueue).completions.map Completion.status =
        (VmemDisk.vmemDiskRequest (VmemDisk.setupDevice fun _ => 0) mixedQueue).2.map
          Completion.status) := by
  rintro ⟨⟨hqueue, -⟩, -⟩
  rw [mixedQueue, rdRequest_other _ _ rfl] at hqueue
  exact absurd hqueue (by simp)

end Ramdisk
