/-
  proc — the debug entries of `c11/proc/proc.c`, read page by page.

  A reader calls `debug_proc_entry` with offset 0 first, advances the offset by each count that is
  returned, takes that many bytes from `*start`, and stops at a count of 0 or when `*eof` is set.  The
  text is made at offset 0 only; at every other offset nothing is there, and `*eof` is set.

  * `debugProcEntry`: one call;
  * `reads`: the reader after `n` calls, for any page contents and lengths;
  * `reads_one`, `reads_two`: the first call hands out the head of the text, the second one nothing;
  * `delivers_iff`: the text is delivered if and only if the first length covers it.
-/
import KernelLinux.Lib.Bytes
import Mathlib.Data.PNat.Basic

namespace Proc

open Bytes

def DEBUG_OFF : ℤ := 0
def DEBUG_ON : ℤ := 1

/-- The bytes of a text. -/
def ascii (s : String) : List UInt8 := s.toList.map fun c => UInt8.ofNat c.toNat

/-- What a call leaves: the count, `*start` as an offset from `buf`, whether `*eof` was set, the page
    and `debugFlag`. -/
structure Call where
  count : ℤ
  start : ℤ
  eof : Bool
  buf : Block
  debugFlag : ℤ

/-- `debug_proc_entry`. -/
def debugProcEntry (buf : Block) (offset len data debugFlag : ℤ) : Call :=
  let (p, buf, debugFlag) :=
    if offset ≠ 0 then (0, buf, debugFlag)
    else if data = DEBUG_ON then
      ((ascii "\ndebug on\n").length, buf.write 0 (ascii "\ndebug on\n" ++ [0]), DEBUG_ON)
    else if data = DEBUG_OFF then
      ((ascii "\ndebug off\n").length, buf.write 0 (ascii "\ndebug off\n" ++ [0]), DEBUG_OFF)
    else (0, buf, debugFlag)
  let size : ℤ := (p : ℕ)
  let eof := decide (size ≤ offset + len)
  let start := offset
  let size := size - offset
  let size := if len < size then len else size
  let size := if size < 0 then 0 else size
  ⟨size, start, eof, buf, debugFlag⟩

/-- The entries that `debug_proc_init` creates. -/
inductive Entry where
  | on | off

namespace Entry

/-- The `data` of an entry. -/
def data : Entry → ℤ
  | on => DEBUG_ON
  | off => DEBUG_OFF

def text : Entry → List UInt8
  | on => ascii "\ndebug on\n"
  | off => ascii "\ndebug off\n"

end Entry

/-! ## The reader -/

structure Reader where
  offset : ℤ
  received : List UInt8
  /-- whether the last call set `*eof` -/
  eof : Bool
  stopped : Bool
  debugFlag : ℤ

/-- A reader before its first call. -/
def Reader.start (debugFlag : ℤ) : Reader := ⟨0, [], false, false, debugFlag⟩

/-- A call with the page `buf`, unless the reader has stopped. -/
def Reader.call (entry : Entry) (buf : Block) (len : ℤ) (r : Reader) : Reader :=
  if r.stopped then r
  else
    let c := debugProcEntry buf r.offset len entry.data r.debugFlag
    ⟨r.offset + c.count, r.received ++ c.buf.read c.start.toNat c.count.toNat, c.eof,
      c.count = 0 || c.eof, c.debugFlag⟩

section
variable (entry : Entry) (debugFlag : ℤ) (pages : ℕ → Block) (lens : ℕ → ℕ+)

/-- The reader after `n` calls; the call `n` has the page `pages n` and asks for `lens n` bytes. -/
def reads : ℕ → Reader
  | 0 => .start debugFlag
  | n + 1 => (reads n).call entry (pages n) (lens n : ℕ)

/-- The reader stops with the whole text, `debugFlag` at the value of the entry, and `*eof` is set only
    when nothing remains. -/
structure Delivers : Prop where
  received : ∃ n, (reads entry debugFlag pages lens n).stopped ∧
    (reads entry debugFlag pages lens n).received = entry.text ∧
    (reads entry debugFlag pages lens n).debugFlag = entry.data
  eof : ∀ n, (reads entry debugFlag pages lens n).eof →
    (reads entry debugFlag pages lens n).received = entry.text

end

/-! ## The calls -/

/-- The call at offset 0. -/
theorem debugProcEntry_zero (entry : Entry) (buf : Block) (len : ℕ) (debugFlag : ℤ) :
    debugProcEntry buf 0 len entry.data debugFlag =
      ⟨(min len entry.text.length : ℕ), 0, decide (entry.text.length ≤ len),
        buf.write 0 (entry.text ++ [0]), entry.data⟩ := by
  have hsize : ∀ t : ℕ, (if (if (len : ℤ) < t - 0 then (len : ℤ) else t - 0) < 0 then 0
      else if (len : ℤ) < t - 0 then (len : ℤ) else t - 0) = (min len t : ℕ) := by
    intro t
    split_ifs <;> omega
  have heof : ∀ t : ℕ, decide ((t : ℤ) ≤ 0 + len) = decide (t ≤ len) := by
    intro t
    simp
  have hdata : DEBUG_OFF ≠ DEBUG_ON := by decide
  cases entry with
  | on =>
    rw [Entry.data, Entry.text, ← hsize, ← heof]
    rfl
  | off =>
    rw [Entry.data, Entry.text, ← hsize, ← heof]
    rfl

/-- A call at any other offset of a reader. -/
theorem debugProcEntry_pos {offset : ℤ} (h : 0 < offset) (data : ℤ) (buf : Block) (len : ℕ)
    (debugFlag : ℤ) :
    debugProcEntry buf offset len data debugFlag = ⟨0, offset, true, buf, debugFlag⟩ := by
  have heof : decide ((0 : ℕ) ≤ offset + len) = true := by
    simp only [decide_eq_true_eq]
    omega
  have hsize : (if (if (len : ℤ) < (0 : ℕ) - offset then (len : ℤ) else (0 : ℕ) - offset) < 0 then 0
      else if (len : ℤ) < (0 : ℕ) - offset then (len : ℤ) else (0 : ℕ) - offset) = 0 := by
    split_ifs <;> omega
  simp only [debugProcEntry, ne_eq, h.ne', not_false_eq_true, if_true, hsize, heof]

/-! ## The reads -/

section
variable (entry : Entry) (debugFlag : ℤ) (pages : ℕ → Block) (lens : ℕ → ℕ+)

theorem text_ne_nil : entry.text ≠ [] := by
  cases entry <;> decide

/-- **The first call** hands out the head of the text. -/
theorem reads_one : reads entry debugFlag pages lens 1 =
    ⟨(min (lens 0) entry.text.length : ℕ), entry.text.take (lens 0),
      decide (entry.text.length ≤ lens 0), decide (entry.text.length ≤ lens 0), entry.data⟩ := by
  have hcount : min (lens 0 : ℕ) entry.text.length ≠ 0 := by
    have hlen := List.length_pos_of_ne_nil (text_ne_nil entry)
    have hpos := (lens 0).pos
    omega
  have hread : ((pages 0).write 0 (entry.text ++ [0])).read 0 (min (lens 0 : ℕ) entry.text.length) =
      entry.text.take (lens 0) := by
    have hall := Block.read_write (pages 0) 0 (entry.text ++ [0])
    have htake := congrArg (List.take (min (lens 0 : ℕ) entry.text.length)) hall
    rw [Block.take_read, List.length_append, min_eq_left (by omega)] at htake
    rw [htake, List.take_append_of_le_length (min_le_right _ _),
      List.take_eq_take_min (i := (lens 0 : ℕ))]
  show Reader.call entry (pages 0) (lens 0 : ℕ) (Reader.start debugFlag) = _
  simp only [Reader.call, Reader.start, debugProcEntry_zero, Bool.false_eq_true, if_false, zero_add,
    Int.toNat_zero, Int.toNat_natCast, List.nil_append, hread, Nat.cast_eq_zero, hcount,
    decide_false, Bool.false_or]

/-- **The second call** sets `*eof`, whatever is left. -/
theorem reads_two (h : (lens 0 : ℕ) < entry.text.length) : reads entry debugFlag pages lens 2 =
    ⟨(lens 0 : ℕ), entry.text.take (lens 0), true, true, entry.data⟩ := by
  have hpos : (0 : ℤ) < (lens 0 : ℕ) := Int.natCast_pos.2 (lens 0).pos
  show Reader.call entry (pages 1) (lens 1 : ℕ) (reads entry debugFlag pages lens 1) = _
  rw [reads_one, Nat.min_eq_left h.le, decide_eq_false (by omega)]
  simp only [Reader.call, debugProcEntry_pos hpos, Bool.false_eq_true, if_false, add_zero,
    Int.toNat_zero, Block.read_zero, List.append_nil, decide_true, Bool.true_or]

variable {entry debugFlag pages lens} {n m : ℕ}

theorem Reader.call_stopped {r : Reader} (h : r.stopped) (buf : Block) (len : ℤ) :
    r.call entry buf len = r := by
  rw [Reader.call, if_pos h]

/-- A reader that has stopped makes no more calls. -/
theorem reads_stopped (h : (reads entry debugFlag pages lens n).stopped) (hm : n ≤ m) :
    reads entry debugFlag pages lens m = reads entry debugFlag pages lens n := by
  induction m, hm using Nat.le_induction with
  | base => rfl
  | succ m _ ih => rw [reads, ih, Reader.call_stopped h]

/-- Whatever the lengths are, at most two calls are made, and the head of the text was received. -/
theorem reads_after (hn : 0 < n) : (reads entry debugFlag pages lens n).received =
    entry.text.take (lens 0) ∧ (reads entry debugFlag pages lens n).debugFlag = entry.data := by
  by_cases hlen : entry.text.length ≤ lens 0
  · have hstop : (reads entry debugFlag pages lens 1).stopped := by
      rw [reads_one]
      exact decide_eq_true hlen
    rw [reads_stopped hstop hn, reads_one]
    exact ⟨rfl, rfl⟩
  · have htwo := reads_two entry debugFlag pages lens (Nat.lt_of_not_le hlen)
    have hstop : (reads entry debugFlag pages lens 2).stopped := by rw [htwo]
    rcases Nat.lt_or_ge n 2 with hlt | hge
    · obtain rfl : n = 1 := by omega
      rw [reads_one]
      exact ⟨rfl, rfl⟩
    · rw [reads_stopped hstop hge, htwo]
      exact ⟨rfl, rfl⟩

/-- **When the text is delivered**: if the first length covers it. -/
theorem delivers_iff (entry : Entry) (debugFlag : ℤ) (pages : ℕ → Block) (lens : ℕ → ℕ+) :
    Delivers entry debugFlag pages lens ↔ entry.text.length ≤ lens 0 := by
  constructor
  · rintro ⟨⟨n, hstop, hreceived, -⟩, -⟩
    rcases Nat.eq_zero_or_pos n with rfl | hn
    · exact absurd hstop Bool.false_ne_true
    · rw [(reads_after hn).1] at hreceived
      have hlength := congrArg List.length hreceived
      rw [List.length_take] at hlength
      omega
  · intro hlen
    have htext : entry.text.take (lens 0) = entry.text := List.take_of_length_le hlen
    constructor
    · refine ⟨1, ?_, ?_, (reads_after Nat.one_pos).2⟩
      · rw [reads_one]
        exact decide_eq_true hlen
      · rw [(reads_after Nat.one_pos).1, htext]
    · intro n heof
      rcases Nat.eq_zero_or_pos n with rfl | hn
      · exact absurd heof Bool.false_ne_true
      · rw [(reads_after hn).1, htext]

/-- A reader that asks for four bytes each time. -/
theorem four_not_delivered : ¬ Delivers .on DEBUG_OFF (fun _ _ => 0) fun _ => 4 := by
  rintro ⟨⟨n, hstop, hreceived, -⟩, -⟩
  rcases Nat.eq_zero_or_pos n with rfl | hn
  · exact absurd hstop Bool.false_ne_true
  · rw [(reads_after hn).1] at hreceived
    exact absurd hreceived (by decide)

end

end Proc
