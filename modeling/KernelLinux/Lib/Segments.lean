/-
  Scattered buffers.

  A transfer between a block of memory and a list of buffers, the segments: what
  the segments hold one after the other (`payload`), and the segments after a list
  of bytes was distributed over them (`fill`).  A transfer that goes through the
  segments one by one and advances by their lengths is one transfer of the whole
  (`write_payload`, `fill_read`).
-/
import KernelLinux.Lib.Bytes

namespace Bytes

/-- `b.write o xs` and then `ys` behind `xs`. -/
theorem Block.write_append (b : Block) (o : ℕ) (xs ys : List UInt8) :
    (b.write o xs).write (o + xs.length) ys = b.write o (xs ++ ys) := by
  funext a
  rcases Nat.lt_or_ge a o with h | h
  · rw [write_before (by omega), write_before h, write_before h]
  obtain ⟨i, rfl⟩ := Nat.exists_eq_add_of_le h
  rcases Nat.lt_or_ge i xs.length with hi | hi
  · rw [write_before (by omega), write_inside hi, write_inside (by rw [List.length_append]; omega),
      List.getElem_append_left hi]
  obtain ⟨j, rfl⟩ := Nat.exists_eq_add_of_le hi
  rcases Nat.lt_or_ge j ys.length with hj | hj
  · rw [← Nat.add_assoc, write_inside hj, Nat.add_assoc,
      write_inside (by rw [List.length_append]; omega), List.getElem_append_right (by omega)]
    simp
  · rw [write_after (by omega), write_after (by omega),
      write_after (by rw [List.length_append]; omega)]

/-- A segment: its length, and the memory from its first byte on. -/
structure Segment where
  len : ℕ
  buf : Block

namespace Segment

/-- The bytes of a segment. -/
def bytes (g : Segment) : List UInt8 := g.buf.read 0 g.len

/-- A copy of bytes to the beginning of a segment. -/
def put (g : Segment) (bs : List UInt8) : Segment := { g with buf := g.buf.write 0 bs }

@[simp] theorem length_bytes (g : Segment) : g.bytes.length = g.len := by simp [bytes]

@[simp] theorem len_put (g : Segment) (bs : List UInt8) : (g.put bs).len = g.len := rfl

theorem bytes_put {g : Segment} {bs : List UInt8} (h : bs.length = g.len) : (g.put bs).bytes = bs := by
  rw [bytes, put, ← h, Block.read_write]

end Segment

/-- The length of all segments. -/
def total (gs : List Segment) : ℕ := (gs.map Segment.len).sum

/-- The bytes of all segments. -/
def payload (gs : List Segment) : List UInt8 := gs.flatMap Segment.bytes

/-- The segments after `bs` was distributed over them. -/
def fill : List Segment → List UInt8 → List Segment
  | [], _ => []
  | g :: gs, bs => g.put (bs.take g.len) :: fill gs (bs.drop g.len)

variable {gs : List Segment}

@[simp] theorem total_nil : total [] = 0 := rfl
@[simp] theorem total_cons (g : Segment) : total (g :: gs) = g.len + total gs := by simp [total]
@[simp] theorem payload_nil : payload [] = [] := rfl
@[simp] theorem payload_cons (g : Segment) : payload (g :: gs) = g.bytes ++ payload gs := by
  simp [payload]

@[simp] theorem length_payload : (payload gs).length = total gs := by
  induction gs with
  | nil => rfl
  | cons g gs ih => rw [payload_cons, total_cons, List.length_append, Segment.length_bytes, ih]

/-- The first segment is written, and then the rest behind it. -/
theorem write_payload (b : Block) (o : ℕ) (g : Segment) (gs : List Segment) :
    (b.write o g.bytes).write (o + g.len) (payload gs) = b.write o (payload (g :: gs)) := by
  have := b.write_append o g.bytes (payload gs)
  rwa [Segment.length_bytes, ← payload_cons] at this

/-- The first segment is read, and then the rest from behind it. -/
theorem fill_read (b : Block) (o : ℕ) (g : Segment) (gs : List Segment) :
    g.put (b.read o g.len) :: fill gs (b.read (o + g.len) (total gs)) =
      fill (g :: gs) (b.read o (total (g :: gs))) := by
  rw [fill, total_cons, Block.take_read, Block.drop_read, Nat.min_eq_left (Nat.le_add_right _ _),
    Nat.add_sub_cancel_left]

/-- What is distributed over the segments is what they hold. -/
theorem payload_fill {bs : List UInt8} (h : bs.length = total gs) : payload (fill gs bs) = bs := by
  induction gs generalizing bs with
  | nil => exact (List.length_eq_zero_iff.1 h).symm
  | cons g gs ih =>
    rw [total_cons] at h
    rw [fill, payload_cons, Segment.bytes_put (by rw [List.length_take]; omega),
      ih (by rw [List.length_drop]; omega), List.take_append_drop]

end Bytes
