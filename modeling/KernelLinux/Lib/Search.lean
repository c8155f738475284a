/-
  Loops that look at one index after the other until one has a property.

  `visits p n i` are the indices that such a loop looks at, from `i` on with `n`
  counts left.  `visits_below` tells if they are all below a bound that the loop
  itself does not know.
-/
import Mathlib.Data.List.Range
import Mathlib.Data.Nat.Notation
import Mathlib.Tactic.SplitIfs

variable {p : ℕ → Bool} {n m i j : ℕ}

/-- The indices a loop looks at, up to the first with `p`. -/
def visits (p : ℕ → Bool) : ℕ → ℕ → List ℕ
  | 0, _ => []
  | n + 1, i => if p i then [i] else i :: visits p n (i + 1)

theorem mem_visits : j ∈ visits p n i ↔ i ≤ j ∧ j < i + n ∧ ∀ k, i ≤ k → k < j → p k = false := by
  induction n generalizing i with
  | zero =>
    refine iff_of_false (by simp [visits]) fun h => ?_
    have := h.2.1
    omega
  | succ n ih =>
    rw [visits]
    split_ifs with hp
    · rw [List.mem_singleton]
      constructor
      · rintro rfl
        exact ⟨le_rfl, by omega, fun k hk hkj => by omega⟩
      · rintro ⟨hij, -, hclear⟩
        by_contra hne
        rw [hclear i le_rfl (by omega)] at hp
        exact Bool.false_ne_true hp
    · rw [List.mem_cons, ih]
      constructor
      · rintro (rfl | ⟨hij, hjn, hclear⟩)
        · exact ⟨le_rfl, by omega, fun k hk hkj => by omega⟩
        · refine ⟨by omega, by omega, fun k hk hkj => ?_⟩
          rcases Nat.eq_or_lt_of_le hk with rfl | hlt
          · simpa using hp
          · exact hclear k hlt hkj
      · rintro ⟨hij, hjn, hclear⟩
        rcases Nat.eq_or_lt_of_le hij with rfl | hlt
        · exact Or.inl rfl
        · exact Or.inr ⟨hlt, by omega, fun k hk hkj => hclear k (by omega) hkj⟩

theorem mem_visits_zero : j ∈ visits p n 0 ↔ j < n ∧ ∀ k < j, p k = false := by
  rw [mem_visits]
  simp

/-- **When a loop stays below a bound**: it has no more counts, or ends there. -/
theorem visits_below : (∀ j ∈ visits p n 0, j < m) ↔ n ≤ m ∨ ∃ j < m, p j = true := by
  constructor
  · intro h
    by_contra hout
    simp only [not_or, not_le, not_exists, not_and, Bool.not_eq_true] at hout
    exact (h m (mem_visits_zero.2 ⟨hout.1, hout.2⟩)).false
  · rintro (hle | ⟨k, hk, hp⟩) j hj
    · exact (mem_visits_zero.1 hj).1.trans_le hle
    · by_contra hlt
      rw [(mem_visits_zero.1 hj).2 k (by omega)] at hp
      exact Bool.false_ne_true hp
