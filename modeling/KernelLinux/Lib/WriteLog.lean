/-
  The content of a file as a function of the writes made to it.

  A log lists the writes, the latest first; `content` is what they leave in a file
  that was empty, holes reading as zero.  Whatever a byte of the content is, some
  write put it there or it is zero (`content_origin`).
-/
import KernelLinux.Lib.Bytes

namespace Bytes

/-- A write of `len` bytes at `pos`; of the user's buffer the bytes `user` are accessible. -/
structure Write where
  pos : ℕ
  len : ℕ
  user : List UInt8

namespace Write

/-- What arrives in the file. -/
def bytes (w : Write) : List UInt8 := copyFromUser w.user w.len

/-- The writer's buffer holds `c` for offset `i` of the file. -/
def Puts (w : Write) (i : ℕ) (c : UInt8) : Prop := w.pos ≤ i ∧ (w.user.take w.len)[i - w.pos]? = some c

end Write

/-- The content of a file to which the writes `l` were made. -/
def content : List Write → Block
  | [] => fun _ => 0
  | w :: l => (content l).write w.pos w.bytes

theorem getElem?_copyFromUser {user : List UInt8} {len i : ℕ} {c : UInt8}
    (h : (copyFromUser user len)[i]? = some c) : c = 0 ∨ (user.take len)[i]? = some c := by
  rw [copyFromUser, List.getElem?_append] at h
  split_ifs at h with hi
  · exact Or.inr h
  · left
    rw [List.getElem?_replicate] at h
    split_ifs at h
    exact (Option.some.inj h).symm

/-- A byte that a write changes is zero or from the writer's buffer. -/
theorem write_origin (b : Block) (w : Write) (i : ℕ) : b.write w.pos w.bytes i = b i ∨
    b.write w.pos w.bytes i = 0 ∨ w.Puts i (b.write w.pos w.bytes i) := by
  by_cases hi : i < w.pos
  · exact Or.inl (Block.write_before hi)
  · cases hc : w.bytes[i - w.pos]? with
    | none =>
      left
      simp [Block.write, hc]
    | some c =>
      right
      have : b.write w.pos w.bytes i = c := by simp [Block.write, hi, hc]
      rw [this]
      exact (getElem?_copyFromUser hc).imp_right fun h => ⟨not_lt.1 hi, h⟩

/-- **Every byte of a file is zero or was written to it.** -/
theorem content_origin (l : List Write) (i : ℕ) :
    content l i = 0 ∨ ∃ w ∈ l, w.Puts i (content l i) := by
  induction l with
  | nil => exact Or.inl rfl
  | cons w l ih =>
    rcases write_origin (content l) w i with h | h | h
    · rw [content, h]
      rcases ih with ih | ⟨v, hv, hp⟩
      · exact Or.inl ih
      · exact Or.inr ⟨v, List.mem_cons_of_mem w hv, hp⟩
    · exact Or.inl h
    · exact Or.inr ⟨w, List.mem_cons_self, h⟩

/-- A write to two blocks that agree before it and outside it makes them agree. -/
theorem write_agree {b c : Block} {w : Write} {i : ℕ}
    (h : i < w.pos ∨ w.pos + w.len ≤ i → b i = c i) :
    b.write w.pos w.bytes i = c.write w.pos w.bytes i := by
  have hlen : w.bytes.length = w.len := length_copyFromUser w.user w.len
  by_cases hi : i < w.pos ∨ w.pos + w.len ≤ i
  · rw [Block.write_outside (by rwa [hlen]), Block.write_outside (by rwa [hlen]), h hi]
  · obtain ⟨j, rfl⟩ : ∃ j, i = w.pos + j := ⟨i - w.pos, by omega⟩
    have hj : j < w.bytes.length := by omega
    rw [Block.write_inside hj, Block.write_inside hj]

end Bytes
