/-
  Copies in any order.

  `memcpy` may copy its bytes in any order and several at a time, which shows where
  the two ranges overlap.  A copy in parts reads the bytes of a part, writes them
  and goes on to the next part.  For a copy of `n` bytes to an offset `c` lower, all
  ways to divide it give the same bytes if and only if the bytes that are both read
  and overwritten repeat with period `c` (`copyParts_iff`), and the byte-wise copy in
  descending order tells (`copyDesc_iff`).
-/
import KernelLinux.Lib.Bytes

namespace Bytes

namespace Block

/-- A part of a copy from offset `src` to offset `dst`: the bytes `is` are read, then written. -/
def copyPart (b : Block) (dst src : ℕ) (is : List ℕ) : Block :=
  fun a => if dst ≤ a ∧ a - dst ∈ is then b (src + (a - dst)) else b a

/-- A copy in parts, one after the other. -/
def copyParts (b : Block) (dst src : ℕ) : List (List ℕ) → Block
  | [] => b
  | is :: parts => (b.copyPart dst src is).copyParts dst src parts

/-- A byte-wise copy in descending order. -/
def copyDesc (b : Block) (dst src : ℕ) : ℕ → Block
  | 0 => b
  | n + 1 => (b.write (dst + n) [b (src + n)]).copyDesc dst src n

/-- The parts are those of a copy of `n` bytes. -/
def Covers (parts : List (List ℕ)) (n : ℕ) : Prop := ∀ i, i ∈ parts.flatten ↔ i < n

/-- The bytes that a copy of `n` bytes to an offset `c` lower both reads and overwrites are the
    same as those that overwrite them. -/
def Repeats (b : Block) (dst c n : ℕ) : Prop := ∀ j, c ≤ j → j < n → b (dst + j) = b (dst + c + j)

section
variable {b : Block} {dst src c n : ℕ}

/-- What is written to one offset. -/
theorem write_byte (b : Block) (o : ℕ) (v : UInt8) (a : ℕ) :
    b.write o [v] a = if a = o then v else b a := by
  split_ifs with h
  · rw [h, write_one]
  · exact write_outside (by simp only [List.length_singleton]; omega)

theorem copyPart_singleton (i : ℕ) :
    b.copyPart dst src [i] = b.write (dst + i) [b (src + i)] := by
  funext a
  rw [write_byte, copyPart]
  simp only [List.mem_singleton]
  by_cases h : a = dst + i
  · rw [if_pos ⟨by omega, by omega⟩, if_pos h, show a - dst = i by omega]
  · rw [if_neg (by omega), if_neg h]

/-- One byte at a time, in descending order. -/
theorem copyParts_reverse :
    b.copyParts dst src ((List.range n).reverse.map fun i => [i]) = b.copyDesc dst src n := by
  induction n generalizing b with
  | zero => rfl
  | succ n ih =>
    rw [List.range_succ, List.reverse_append, List.reverse_singleton, List.singleton_append,
      List.map_cons, copyParts, ih, copyPart_singleton]
    rfl

theorem covers_reverse (n : ℕ) : Covers ((List.range n).reverse.map fun i => [i]) n := by
  intro i
  simp

/-- A copy of which a part is done: the bytes of the part have arrived, and those that will still
    be read are as they were. -/
structure Copied (b m : Block) (dst c n : ℕ) (done : ℕ → Prop) : Prop where
  done : ∀ i, done i → m (dst + i) = b (dst + c + i)
  overlap : ∀ j, c ≤ j → j < n → m (dst + j) = b (dst + j)
  behind : ∀ a, dst + n ≤ a → m a = b a

/-- Where the overwritten bytes repeat, a byte that is read is the one that was there. -/
theorem Copied.read {m : Block} {done : ℕ → Prop} (h : Copied b m dst c n done) (i : ℕ) :
    m (dst + c + i) = b (dst + c + i) := by
  rcases Nat.lt_or_ge (c + i) n with hlt | hge
  · rw [Nat.add_assoc]
    exact h.overlap (c + i) (by omega) hlt
  · exact h.behind _ (by omega)

theorem Copied.part {m : Block} {done : ℕ → Prop} (h : Copied b m dst c n done)
    (hrep : b.Repeats dst c n) {is : List ℕ} (his : ∀ i ∈ is, i < n) :
    Copied b (m.copyPart dst (dst + c) is) dst c n fun j => j ∈ is ∨ done j := by
  have hbyte : ∀ j, m.copyPart dst (dst + c) is (dst + j) =
      if j ∈ is then b (dst + c + j) else m (dst + j) := by
    intro j
    rw [copyPart, Nat.add_sub_cancel_left, h.read j]
    simp only [Nat.le_add_right, true_and]
  refine ⟨fun j hj => ?_, fun j hcj hj => ?_, fun a ha => ?_⟩
  · rw [hbyte]
    split_ifs with hji
    · rfl
    · exact h.done j (hj.resolve_left hji)
  · rw [hbyte]
    split_ifs with hji
    · exact (hrep j hcj hj).symm
    · exact h.overlap j hcj hj
  · rw [copyPart, if_neg fun hmem => ?_]
    · exact h.behind a ha
    · have := his _ hmem.2
      omega

/-- **A copy in any parts**, where the overwritten bytes repeat. -/
theorem Copied.parts {m : Block} {done : ℕ → Prop} (h : Copied b m dst c n done)
    (hrep : b.Repeats dst c n) {ps : List (List ℕ)} (hps : ∀ is ∈ ps, ∀ i ∈ is, i < n) :
    Copied b (m.copyParts dst (dst + c) ps) dst c n fun j => j ∈ ps.flatten ∨ done j := by
  induction ps generalizing m done with
  | nil => exact ⟨fun i hi => h.done i (by simpa using hi), h.overlap, h.behind⟩
  | cons is ps ih =>
    obtain ⟨his, hps⟩ := List.forall_mem_cons.1 hps
    have H := ih (h.part hrep his) hps
    refine ⟨fun j hj => H.done j ?_, H.overlap, H.behind⟩
    rw [List.flatten_cons, List.mem_append] at hj
    tauto

theorem copyDesc_outside {a : ℕ} (h : a < dst ∨ dst + n ≤ a) : b.copyDesc dst src n a = b a := by
  induction n generalizing b with
  | zero => rfl
  | succ n ih =>
    rw [copyDesc, ih (by omega), write_byte, if_neg (by omega)]

/-- A descending copy reads what it has written. -/
theorem copyDesc_inside (hc : 0 < c) {i : ℕ} (hi : i < n) : b.copyDesc dst (dst + c) n (dst + i) =
    if c + i < n then b.copyDesc dst (dst + c) n (dst + (c + i)) else b (dst + c + i) := by
  induction n generalizing b with
  | zero => omega
  | succ n ih =>
    rw [copyDesc]
    rcases Nat.lt_or_eq_of_le (Nat.lt_succ_iff.1 hi) with hin | rfl
    · rw [ih hin]
      rcases lt_trichotomy (c + i) n with h | h | h
      · rw [if_pos h, if_pos (by omega)]
      · -- the byte that was copied first
        rw [if_neg (by omega), if_pos (by omega), copyDesc_outside (by omega), ← Nat.add_assoc]
      · rw [if_neg (by omega), if_neg (by omega), write_byte, if_neg (by omega)]
    · rw [copyDesc_outside (by omega), write_byte, if_pos rfl, if_neg (by omega)]

/-- A descending copy that delivers the bytes has overwritten bytes that repeat. -/
theorem repeats_of_copyDesc (hdesc : (b.copyDesc dst (dst + c) n).read dst n = b.read (dst + c) n) :
    b.Repeats dst c n := by
  rcases Nat.eq_zero_or_pos c with rfl | hc
  · exact fun j _ _ => rfl
  have hbyte : ∀ i < n, b.copyDesc dst (dst + c) n (dst + i) = b (dst + c + i) := by
    intro i hi
    have := congrArg (fun l => l[i]?) hdesc
    simpa only [getElem?_read, if_pos hi, Option.some.injEq] using this
  intro j hcj hj
  have hread : b.copyDesc dst (dst + c) n (dst + (j - c)) = _ :=
    copyDesc_inside hc (show j - c < n by omega)
  rw [if_pos (by omega), hbyte (j - c) (by omega), Nat.add_sub_cancel' hcj, hbyte j hj] at hread
  rw [← hread]
  congr 1
  omega

/-- Where the overwritten bytes repeat, the parts do not show. -/
theorem Repeats.copyParts (hrep : b.Repeats dst c n) {parts : List (List ℕ)}
    (hparts : Covers parts n) : (b.copyParts dst (dst + c) parts).read dst n = b.read (dst + c) n := by
  have hinit : Copied b b dst c n fun _ => False :=
    ⟨fun _ h => h.elim, fun _ _ _ => rfl, fun _ _ => rfl⟩
  have H := hinit.parts hrep fun is his i hi => (hparts i).1 (List.mem_flatten_of_mem his hi)
  exact List.map_congr_left fun i hi => H.done i (Or.inl ((hparts i).2 (List.mem_range.1 hi)))

end

/-- **All ways to copy give the same bytes** if and only if the overwritten bytes repeat. -/
theorem copyParts_iff (b : Block) (dst c n : ℕ) :
    (∀ parts, Covers parts n →
      (b.copyParts dst (dst + c) parts).read dst n = b.read (dst + c) n) ↔ b.Repeats dst c n := by
  refine ⟨fun h => repeats_of_copyDesc ?_, fun hrep parts => hrep.copyParts⟩
  rw [← copyParts_reverse]
  exact h _ (covers_reverse n)

/-- The descending order tells. -/
theorem copyDesc_iff (b : Block) (dst c n : ℕ) :
    (b.copyDesc dst (dst + c) n).read dst n = b.read (dst + c) n ↔ b.Repeats dst c n := by
  refine ⟨repeats_of_copyDesc, fun hrep => ?_⟩
  rw [← copyParts_reverse]
  exact hrep.copyParts (covers_reverse n)

end Block

end Bytes
