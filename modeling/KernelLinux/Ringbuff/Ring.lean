/-
  userspace/ringbuff — the ring buffer of `ring.c`, and the bounded queue it is.

  * the functions of `ring.c`; a call gets stuck if it waits for a change of the
    buffer, which nobody else makes, or leaves the bounds of the array;
  * `Fifo`: the calls on a queue of at most `c` bytes;
  * `Holds`: the counters and the array of a ring buffer represent a queue;
  * `ring_refines`: any sequence of calls with `RB_FLAG_NONBLOCK` set returns, and
    does what it does to the queue.
-/
import KernelLinux.Lib.Bytes
import KernelLinux.Lib.Ring
import KernelLinux.Lib.Run

namespace Ringbuff

open Bytes

/-! ## The code -/

def RB_FLAG_NONBLOCK : ℕ := 1 <<< 0

/-- `struct ring_buffer` -/
structure RingBuffer where
  /-- write pointer -/
  head : ℕ
  /-- read pointer -/
  tail : ℕ
  flags : ℕ
  capacity : ℕ
  size : ℕ
  buffer : Block

/-- Why a call does not go on. -/
inductive Stuck where
  /-- `while(rb->size == rb->capacity);` or `while (rb->size == 0);` -/
  | spins
  /-- an access of `rb->buffer` past its capacity -/
  | outside

/-- `ring_buffer_init`; `malloc` is what the allocation returned. -/
def ringBufferInit (rb : RingBuffer) (capacity : ℕ) (malloc : Option Block) : RingBuffer :=
  match malloc with
  | none => { rb with capacity := capacity }
  | some b => ⟨0, 0, 0, capacity, 0, b⟩

/-- `ring_buffer_flush` -/
def ringBufferFlush (rb : RingBuffer) : RingBuffer := { rb with size := 0, head := 0, tail := 0 }

/-- `ring_buffer_set_flags` -/
def ringBufferSetFlags (rb : RingBuffer) (flags : ℕ) : RingBuffer := { rb with flags := flags }

/-- The byte is stored at `head`. -/
def RingBuffer.put (rb : RingBuffer) (c : UInt8) : RingBuffer :=
  { rb with
    buffer := Function.update rb.buffer rb.head c
    head := if rb.head + 1 = rb.capacity then 0 else rb.head + 1
    size := rb.size + 1 }

/-- `__ring_buffer_write` -/
def ringBufferWriteByte (rb : RingBuffer) (c : UInt8) : Except Stuck (ℕ × RingBuffer) :=
  if rb.size = rb.capacity then
    if rb.flags &&& RB_FLAG_NONBLOCK ≠ 0 then .ok (1, rb) else .error .spins
  else if rb.capacity ≤ rb.head then .error .outside
  else .ok (0, rb.put c)

/-- The loop of `ring_buffer_write`, with `len` rounds left. -/
def writeLoop (buf : Block) : ℕ → ℕ → RingBuffer → Except Stuck (ℕ × RingBuffer)
  | 0, nWrote, rb => .ok (nWrote, rb)
  | len + 1, nWrote, rb =>
    match ringBufferWriteByte rb (buf nWrote) with
    | .error e => .error e
    | .ok (rc, rb) => if rc ≠ 0 then .ok (nWrote, rb) else writeLoop buf len (nWrote + 1) rb

/-- `ring_buffer_write` -/
def ringBufferWrite (rb : RingBuffer) (buf : Block) (len : ℕ) : Except Stuck (ℕ × RingBuffer) :=
  writeLoop buf len 0 rb

/-- The byte at `tail` is taken. -/
def RingBuffer.take (rb : RingBuffer) : RingBuffer :=
  { rb with
    tail := if rb.tail + 1 = rb.capacity then 0 else rb.tail + 1
    size := rb.size - 1 }

/-- `__ring_buffer_read`; `*buf`, at offset `o` of the destination, is an `int`. -/
def ringBufferReadByte (rb : RingBuffer) (dst : Block) (o : ℕ) :
    Except Stuck (ℕ × Block × RingBuffer) :=
  if rb.size = 0 then
    if rb.flags &&& RB_FLAG_NONBLOCK ≠ 0 then .ok (1, dst, rb) else .error .spins
  else if rb.capacity ≤ rb.tail then .error .outside
  else .ok (0, dst.putLE 4 o (rb.buffer rb.tail).toNat, rb.take)

/-- The loop of `ring_buffer_read`, with `len` rounds left. -/
def readLoop : ℕ → ℕ → Block → RingBuffer → Except Stuck (ℕ × Block × RingBuffer)
  | 0, nRead, dst, rb => .ok (nRead, dst, rb)
  | len + 1, nRead, dst, rb =>
    match ringBufferReadByte rb dst nRead with
    | .error e => .error e
    | .ok (rc, dst, rb) => if rc ≠ 0 then .ok (nRead, dst, rb) else readLoop len (nRead + 1) dst rb

/-- `ring_buffer_read` -/
def ringBufferRead (rb : RingBuffer) (dst : Block) (len : ℕ) :
    Except Stuck (ℕ × Block × RingBuffer) := readLoop len 0 dst rb

/-! ## Calls -/

inductive Call where
  | write (buf : Block) (len : ℕ)
  | read (dst : Block) (len : ℕ)
  | flush

/-- What a call returns, with the destination of a read. -/
inductive Result where
  | wrote (n : ℕ)
  | got (n : ℕ) (dst : Block)
  | flushed

def Call.exec (rb : RingBuffer) : Call → Except Stuck (Result × RingBuffer)
  | write buf len => (ringBufferWrite rb buf len).map fun r => (.wrote r.1, r.2)
  | read dst len => (ringBufferRead rb dst len).map fun r => (.got r.1 r.2.1, r.2.2)
  | flush => .ok (.flushed, ringBufferFlush rb)

/-- The calls one after the other. -/
def execAll (rb : RingBuffer) : List Call → Except Stuck (List Result × RingBuffer)
  | [] => .ok ([], rb)
  | c :: cs =>
    match c.exec rb with
    | .error e => .error e
    | .ok (r, rb) => (execAll rb cs).map fun rs => (r :: rs.1, rs.2)

/-! ## The queue -/

/-- A call on a queue of at most `c` bytes. -/
inductive Fifo (c : ℕ) : List UInt8 → Call × Result → List UInt8 → Prop
  | write (q : List UInt8) (buf : Block) (len : ℕ) : Fifo c q
      (.write buf len, .wrote (min len (c - q.length))) (q ++ buf.read 0 (min len (c - q.length)))
  | read (q : List UInt8) {dst dst' : Block} {len : ℕ}
      (h : dst'.read 0 (min len q.length) = q.take len) :
      Fifo c q (.read dst len, .got (min len q.length) dst') (q.drop len)
  | flush (q : List UInt8) : Fifo c q (.flush, .flushed) []

/-- The counters and the array represent the bytes `q`, in a ring buffer of `c` bytes with
    `RB_FLAG_NONBLOCK` set. -/
structure Holds (c : ℕ) (rb : RingBuffer) (q : List UInt8) : Prop where
  capacity : rb.capacity = c
  nonblock : rb.flags &&& RB_FLAG_NONBLOCK ≠ 0
  size_le : rb.size ≤ c
  head_lt : 0 < c → rb.head < c
  tail_lt : 0 < c → rb.tail < c
  head_eq : rb.head = (rb.tail + rb.size) % c
  content : Ring.window rb.buffer c rb.tail rb.size = q

namespace Holds
variable {c : ℕ} {rb : RingBuffer} {q : List UInt8}

theorem size_eq (H : Holds c rb q) : rb.size = q.length := by
  rw [← H.content, Ring.length_window]

/-! ### write -/

theorem writeByte_full (H : Holds c rb q) (hq : q.length = c) (x : UInt8) :
    ringBufferWriteByte rb x = .ok (1, rb) := by
  have hsize : rb.size = rb.capacity := by rw [H.size_eq, hq, H.capacity]
  rw [ringBufferWriteByte, if_pos hsize, if_pos H.nonblock]

theorem writeByte (H : Holds c rb q) (hq : q.length < c) (x : UInt8) :
    ∃ rb', ringBufferWriteByte rb x = .ok (0, rb') ∧ Holds c rb' (q ++ [x]) := by
  have hlt : rb.size < c := by rwa [H.size_eq]
  have hpos : 0 < c := by omega
  have hhead := H.head_lt hpos
  have hcap := H.capacity
  refine ⟨rb.put x, ?_, ?_⟩
  · rw [ringBufferWriteByte, if_neg (by omega), if_neg (by omega)]
  · refine ⟨hcap, H.nonblock, hlt, fun _ => ?_, H.tail_lt, ?_, ?_⟩
    · simp only [RingBuffer.put, hcap]
      exact Ring.next_lt hhead
    · simp only [RingBuffer.put, hcap]
      rw [← Ring.next_mod hpos, ← H.head_eq]
      rfl
    · simp only [RingBuffer.put]
      rw [Ring.window_snoc, H.head_eq, Ring.window_update hlt, H.content, Function.update_self]

/-- The loop of `ring_buffer_write` appends what there is room for. -/
theorem writeLoop (buf : Block) (len : ℕ) : ∀ {n : ℕ} {rb : RingBuffer} {q : List UInt8},
    Holds c rb q → ∃ rb', Ringbuff.writeLoop buf len n rb = .ok (n + min len (c - q.length), rb') ∧
      Holds c rb' (q ++ buf.read n (min len (c - q.length))) := by
  induction len with
  | zero =>
    intro n rb q H
    exact ⟨rb, by simp [Ringbuff.writeLoop], by simpa using H⟩
  | succ len ih =>
    intro n rb q H
    have hle := H.size_le
    rw [H.size_eq] at hle
    rcases Nat.lt_or_eq_of_le hle with hlt | hfull
    · obtain ⟨rb', hrb', H'⟩ := H.writeByte hlt (buf n)
      obtain ⟨rb'', hrb'', H''⟩ := ih (n := n + 1) H'
      have hmin : min (len + 1) (c - q.length) = 1 + min len (c - (q ++ [buf n]).length) := by
        rw [List.length_append, List.length_singleton]
        omega
      refine ⟨rb'', ?_, ?_⟩
      · simp only [Ringbuff.writeLoop, hrb', hrb'', hmin, ne_eq, not_true_eq_false, if_false,
          Nat.add_assoc]
      · rw [hmin, Block.read_add, ← List.append_assoc]
        simpa [Block.read, List.range_succ] using H''
    · refine ⟨rb, ?_, ?_⟩
      · simp [Ringbuff.writeLoop, H.writeByte_full hfull, hfull]
      · simpa [hfull] using H

/-! ### read -/

theorem readByte_empty (H : Holds c rb []) (dst : Block) (o : ℕ) :
    ringBufferReadByte rb dst o = .ok (1, dst, rb) := by
  have hsize : rb.size = 0 := H.size_eq
  rw [ringBufferReadByte, if_pos hsize, if_pos H.nonblock]

theorem readByte {x : UInt8} (H : Holds c rb (x :: q)) (dst : Block) (o : ℕ) :
    ∃ rb', ringBufferReadByte rb dst o = .ok (0, dst.putLE 4 o x.toNat, rb') ∧ Holds c rb' q := by
  have hsize : rb.size = q.length + 1 := H.size_eq
  have hle := H.size_le
  have hpos : 0 < c := by omega
  have htail := H.tail_lt hpos
  have hcap := H.capacity
  have hcontent := H.content
  rw [hsize, Ring.window_succ htail] at hcontent
  obtain ⟨hx, hq⟩ := List.cons.inj hcontent
  refine ⟨rb.take, ?_, ?_⟩
  · rw [ringBufferReadByte, if_neg (by omega), if_neg (by omega), hx]
  · have hhead := H.head_eq
    refine ⟨hcap, H.nonblock, ?_, H.head_lt, fun _ => ?_, ?_, ?_⟩ <;>
      simp only [RingBuffer.take, hcap, hsize, Nat.add_sub_cancel]
    · omega
    · exact Ring.next_lt htail
    · rw [hhead, hsize]
      show _ = (Ring.next c rb.tail + q.length) % c
      rw [Ring.next_eq htail, Nat.mod_add_mod]
      congr 1
      omega
    · exact (Ring.window_next htail).trans hq

/-- The loop of `ring_buffer_read` takes what there is.  Each `int` it stores runs over the next
    three bytes, which are stored after it or not part of what is delivered. -/
theorem readLoop (len : ℕ) : ∀ {n : ℕ} (dst : Block) {rb : RingBuffer} {q : List UInt8},
    Holds c rb q → ∃ dst' rb', Ringbuff.readLoop len n dst rb = .ok (n + min len q.length, dst', rb') ∧
      dst'.read n (min len q.length) = q.take len ∧ (∀ a < n, dst' a = dst a) ∧
      Holds c rb' (q.drop len) := by
  induction len with
  | zero =>
    intro n dst rb q H
    exact ⟨dst, rb, by simp [Ringbuff.readLoop], by simp, fun _ _ => rfl, H⟩
  | succ len ih =>
    intro n dst rb q H
    cases q with
    | nil => exact ⟨dst, rb, by simp [Ringbuff.readLoop, H.readByte_empty], by simp, fun _ _ => rfl, H⟩
    | cons x q =>
      obtain ⟨rb₁, hrb₁, H₁⟩ := H.readByte dst n
      obtain ⟨dst', rb', hrb', hread, hbefore, H'⟩ := ih (n := n + 1) (dst.putLE 4 n x.toNat) H₁
      have hmin : min (len + 1) (x :: q).length = 1 + min len q.length := by
        rw [List.length_cons]
        omega
      have hx : dst' n = x := by
        rw [hbefore n (by omega), Block.putLE_first, UInt8.ofNat_toNat]
      refine ⟨dst', rb', ?_, ?_, fun a ha => ?_, H'⟩
      · simp only [Ringbuff.readLoop, hrb₁, hrb', hmin, ne_eq, not_true_eq_false, if_false, Nat.add_assoc]
      · rw [hmin, Block.read_add, hread]
        simp [Block.read, List.range_succ, hx]
      · rw [hbefore a (by omega), Block.putLE_outside (Or.inl ha)]

/-! ### Calls -/

theorem flush (H : Holds c rb q) : Holds c (ringBufferFlush rb) [] where
  capacity := H.capacity
  nonblock := H.nonblock
  size_le := Nat.zero_le c
  head_lt h := h
  tail_lt h := h
  head_eq := by simp [ringBufferFlush]
  content := rfl

/-- **A call returns, and does what it does to the queue.** -/
theorem exec (H : Holds c rb q) (call : Call) :
    ∃ r rb' q', call.exec rb = .ok (r, rb') ∧ Fifo c q (call, r) q' ∧ Holds c rb' q' := by
  cases call with
  | write buf len =>
    obtain ⟨rb', hrb', H'⟩ := H.writeLoop buf len (n := 0)
    rw [Nat.zero_add] at hrb'
    exact ⟨_, rb', _, by simp [Call.exec, ringBufferWrite, hrb', Except.map], .write q buf len, H'⟩
  | read dst len =>
    obtain ⟨dst', rb', hrb', hread, -, H'⟩ := Holds.readLoop len (n := 0) dst H
    rw [Nat.zero_add] at hrb'
    exact ⟨_, rb', _, by simp [Call.exec, ringBufferRead, hrb', Except.map], .read q hread, H'⟩
  | flush => exact ⟨_, _, _, rfl, .flush q, H.flush⟩

theorem execAll (calls : List Call) : ∀ {rb : RingBuffer} {q : List UInt8}, Holds c rb q →
    ∃ rs rb' q', Ringbuff.execAll rb calls = .ok (rs, rb') ∧ rs.length = calls.length ∧
      Run (Fifo c) q (calls.zip rs) q' ∧ Holds c rb' q' := by
  induction calls with
  | nil => exact fun {rb q} H => ⟨[], rb, q, rfl, rfl, .nil q, H⟩
  | cons call calls ih =>
    intro rb q H
    obtain ⟨r, rb₁, q₁, hexec, hstep, H₁⟩ := H.exec call
    obtain ⟨rs, rb', q', hexecs, hlen, hrun, H'⟩ := ih H₁
    exact ⟨r :: rs, rb', q', by simp [Ringbuff.execAll, hexec, hexecs, Except.map], by simp [hlen],
      hrun.cons hstep, H'⟩

end Holds

/-- The ring buffer after its initialization, with flags set. -/
theorem init_holds (rb : RingBuffer) (c flags : ℕ) (b : Block) (h : flags &&& RB_FLAG_NONBLOCK ≠ 0) :
    Holds c (ringBufferSetFlags (ringBufferInit rb c (some b)) flags) [] where
  capacity := rfl
  nonblock := h
  size_le := Nat.zero_le c
  head_lt h := h
  tail_lt h := h
  head_eq := by simp [ringBufferInit, ringBufferSetFlags]
  content := rfl

/-- **The ring buffer refines the bounded queue.** -/
theorem ring_refines (rb : RingBuffer) (c flags : ℕ) (b : Block) (calls : List Call)
    (h : flags &&& RB_FLAG_NONBLOCK ≠ 0) : ∃ rs rb' q,
      execAll (ringBufferSetFlags (ringBufferInit rb c (some b)) flags) calls = .ok (rs, rb') ∧
      rs.length = calls.length ∧ Run (Fifo c) [] (calls.zip rs) q ∧ Holds c rb' q :=
  (init_holds rb c flags b h).execAll calls

/-- Three bytes into a ring buffer of two, which it then gives back. -/
theorem ring_refines_two : ∃ rs rb' q,
    execAll (ringBufferSetFlags (ringBufferInit ⟨0, 0, 0, 0, 0, fun _ => 0⟩ 2 (some fun _ => 0)) 1)
      [.write (fun i => UInt8.ofNat (i + 7)) 3, .read (fun _ => 0) 3] = .ok (rs, rb') ∧
    rs.length = 2 ∧ Run (Fifo 2) []
      ([.write (fun i => UInt8.ofNat (i + 7)) 3, .read (fun _ => 0) 3].zip rs) q ∧ Holds 2 rb' q :=
  ring_refines _ 2 1 _ _ (by decide)

end Ringbuff
