/-
  globalfifo — the compaction of the FIFO.

  A read that takes `n` bytes moves the others down by
  `memcpy(dev->mem, dev->mem + n, dev->current_len - n)`, with ranges that overlap if
  `n` is less than half of `current_len`.  `memcpy` promises nothing there: the model's
  read copies upwards (`readBody_compactedUp`), and the content after it is that of
  every other way to copy exactly if the queued bytes from `n` on repeat with period
  `n` (`compaction_iff`).
-/
import KernelLinux.Globalfifo.Fifo
import KernelLinux.Lib.Copy

namespace Globalfifo

open Bytes Queue

namespace State
variable (s : State) (count : ℕ)

/-- What a read of `count` bytes takes. -/
def taken : ℕ := min count s.currentLen

/-- What it leaves. -/
def left : ℕ := s.currentLen - s.taken count

/-- The content after the `memcpy`, with the bytes copied in these parts. -/
def compacted (parts : List (List ℕ)) : List UInt8 :=
  (s.mem.copyParts 0 (s.taken count) parts).read 0 (s.left count)

/-- With the bytes copied in ascending order. -/
def compactedUp : List UInt8 := (s.mem.copyAsc 0 (s.taken count) (s.left count)).read 0 (s.left count)

/-- In descending order. -/
def compactedDown : List UInt8 :=
  (s.mem.copyDesc 0 (s.taken count) (s.left count)).read 0 (s.left count)

/-- The queued bytes from the `n`-th on, where `n` bytes are taken, repeat with period `n`.  That is
    so if `n` is at least half of `current_len`, where there are no two of them `n` apart. -/
def OverlapRepeats : Prop :=
  ∀ j, s.taken count ≤ j → j + s.taken count < s.currentLen → s.mem j = s.mem (j + s.taken count)

end State

variable {s : State} {t count room : ℕ}

theorem overlapRepeats_iff :
    s.mem.Repeats 0 (s.taken count) (s.left count) ↔ s.OverlapRepeats count := by
  have hn : s.taken count ≤ s.currentLen := min_le_right _ _
  refine forall_congr' fun j => imp_congr_right fun _ => ?_
  rw [Nat.zero_add, Nat.zero_add, Nat.add_comm, State.left, Nat.lt_sub_iff_add_lt]

theorem compactedUp_eq : s.compactedUp count = s.mem.read (s.taken count) (s.left count) :=
  Block.read_copyAsc (Nat.zero_le _)

/-- A read that succeeds copies upwards. -/
theorem readBody_compactedUp (h : s.taken count ≤ room) :
    (s.readBody t count room).1.content = s.compactedUp count := by
  have hread : s.readBody t count room = _ := if_neg (Nat.not_lt.2 h)
  rw [hread]
  rfl

/-- **The `memcpy` of a read leaves the same content however it copies** if and only if the bytes
    that it both reads and overwrites repeat; whether the descending order leaves what the ascending
    one does depends on that, too. -/
theorem compaction_iff (s : State) (count : ℕ) :
    ((∀ parts, Block.Covers parts (s.left count) →
        s.compacted count parts = s.compactedUp count) ↔ s.OverlapRepeats count) ∧
    (s.compactedDown count = s.compactedUp count ↔ s.OverlapRepeats count) := by
  have hparts := Block.copyParts_iff s.mem 0 (s.taken count) (s.left count)
  have hdesc := Block.copyDesc_iff s.mem 0 (s.taken count) (s.left count)
  rw [Nat.zero_add, overlapRepeats_iff] at hparts hdesc
  rw [compactedUp_eq]
  exact ⟨hparts, hdesc⟩

/-- Three bytes are written by task 0, of which task 1 is about to take one. -/
def readOne : List (ℕ × Act) :=
  (0, .call (.write 3 [97, 98, 99] false)) :: List.replicate 5 (0, .run) ++
    (1, .call (.read 1 1 false)) :: List.replicate 2 (1, .run)

/-- Copied downwards, the last byte is left twice. -/
theorem readOne_directions : ∃ ls s, Run Step init ls s ∧
    s.task 1 = .copy (.read 1 1 false) ∧ s.content = [97, 98, 99] ∧
    s.compactedUp 1 = [98, 99] ∧ s.compactedDown 1 = [99, 99] := by
  refine ⟨_, _, play_run init readOne, rfl, ?_, ?_, ?_⟩
  · decide
  · decide
  · decide

end Globalfifo
