/-
  globalfifo — the device is a byte FIFO.

  The first `current_len` bytes of `mem` are the content of a queue: every step of
  a task is its event on that queue (`Trans.queue`).  So in every reachable state
  what successful reads returned, followed by the content, is what successful
  writes accepted since the last clear (`fifo_conserved`).
-/
import KernelLinux.Globalfifo.Device

namespace Globalfifo

open Bytes Queue

/-- The bytes in the FIFO. -/
def State.content (s : State) : List UInt8 := s.mem.read 0 s.currentLen

theorem readBody_queue {s : State} {t count room : ℕ} :
    Queue.Step s.content (s.readBody t count room).2 (s.readBody t count room).1.content := by
  rcases s.readBody_cases t count room with h | ⟨n, hn, h⟩ <;> rw [h]
  · exact .none _
  · have hcontent : s.content = s.mem.read 0 n ++
        (s.mem.copyAsc 0 n (s.currentLen - n)).read 0 (s.currentLen - n) := by
      rw [Block.read_copyAsc (Nat.zero_le n), State.content]
      have := Block.read_add s.mem 0 n (s.currentLen - n)
      rwa [Nat.add_sub_cancel' hn, Nat.zero_add] at this
    rw [hcontent]
    exact .got _ _

theorem writeBody_queue {s : State} {t count : ℕ} {buf : List UInt8} :
    Queue.Step s.content (s.writeBody t count buf).2 (s.writeBody t count buf).1.content := by
  rcases s.writeBody_cases t count buf with ⟨d, h⟩ | ⟨d, -, h⟩ <;> rw [h]
  · have hcontent : (s.mem.write s.currentLen d).read 0 s.currentLen = s.content :=
      Block.read_write_disjoint (Or.inl (by omega))
    show Queue.Step s.content none ((s.mem.write s.currentLen d).read 0 s.currentLen)
    rw [hcontent]
    exact .none _
  · show Queue.Step s.content _ ((s.mem.write s.currentLen d).read 0 (s.currentLen + d.length))
    rw [Block.read_write_end]
    exact .put _ _

/-- A step of a task is its event on the queue. -/
theorem Trans.queue {s s' : State} {t : ℕ} {a : Act} {e : Option (Event UInt8)}
    (h : Trans s t a e s') : Queue.Step s.content e s'.content := by
  cases h with
  | read _ => exact readBody_queue
  | write _ => exact writeBody_queue
  | clear _ => exact .cleared _
  | call _ | signal | badCmd _ _ | lock _ _ | again _ | sleep _ _ | pass _ _ | wake _ | unlock _
  | wakened _ _ | interrupted _ | retry _ => exact .none _

theorem Trans.len {s s' : State} {t : ℕ} {a : Act} {e : Option (Event UInt8)}
    (h : Trans s t a e s') (hl : s.currentLen ≤ GLOBALFIFO_SIZE) :
    s'.currentLen ≤ GLOBALFIFO_SIZE := by
  cases h with
  | @read count room _ _ =>
    rcases s.readBody_cases t count room with h | ⟨n, hn, h⟩ <;> rw [h]
    · exact hl
    · show s.currentLen - n ≤ _
      omega
  | @write count buf _ _ =>
    rcases s.writeBody_cases t count buf with ⟨d, h⟩ | ⟨d, hd, h⟩ <;> rw [h]
    · exact hl
    · show s.currentLen + d.length ≤ _
      omega
  | clear _ => exact Nat.zero_le _
  | call _ | signal | badCmd _ _ | lock _ _ | again _ | sleep _ _ | pass _ _ | wake _ | unlock _
  | wakened _ _ | interrupted _ | retry _ => exact hl

/-- **globalfifo is a byte FIFO under any schedule.** -/
theorem fifo_conserved {s : State} {ls : List Label} (h : Run Step init ls s) :
    s.currentLen ≤ GLOBALFIFO_SIZE ∧
      (history (ls.map Label.event)).delivered ++ s.mem.read 0 s.currentLen =
        (history (ls.map Label.event)).accepted := by
  obtain ⟨q, hq, hlen, rfl⟩ := Run.simulation
    (R := fun s q => s.currentLen ≤ GLOBALFIFO_SIZE ∧ q = s.content) Label.event
    (fun s l s' q hs hl => by
      obtain ⟨hlen, rfl⟩ := hs
      have ht := step_trans hl
      exact ⟨s'.content, ht.queue, ht.len hlen, rfl⟩)
    (show init.currentLen ≤ GLOBALFIFO_SIZE ∧ [] = init.content from ⟨Nat.zero_le _, rfl⟩) h
  exact ⟨hlen, conserved hq⟩

/-- Two bytes are written by task 0, then one is read by task 1. -/
def writeRead : List (ℕ × Act) :=
  (0, .call (.write 2 [97, 98] false)) :: List.replicate 5 (0, .run) ++
    (1, .call (.read 1 1 false)) :: List.replicate 5 (1, .run)

/-- `fifo_conserved` for this run, which leaves the second byte. -/
theorem fifo_conserved_writeRead : (play init writeRead).1.content = [98] ∧
    (play init writeRead).1.currentLen ≤ GLOBALFIFO_SIZE ∧
    (history ((play init writeRead).2.map Label.event)).delivered ++
      (play init writeRead).1.mem.read 0 (play init writeRead).1.currentLen =
        (history ((play init writeRead).2.map Label.event)).accepted :=
  ⟨by decide, fifo_conserved (play_run init writeRead)⟩

end Globalfifo
