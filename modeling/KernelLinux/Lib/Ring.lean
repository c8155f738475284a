/-
  Circular arrays of elements of any type.

  `Ring.window b c t n` are the `n` elements from index `t` on in an array of `c`
  elements, going round at its end.  An element stored behind a window that is not
  full extends it (`window_snoc`, `window_update`), and the window without its
  first element starts at the next index (`window_succ`, `window_next`).
-/
import Mathlib.Data.List.Range
import Mathlib.Data.Nat.ModEq
import Mathlib.Logic.Function.Basic

namespace Ring

variable {α : Type*} {b : ℕ → α} {c t n i : ℕ}

/-- The index after `i`. -/
def next (c i : ℕ) : ℕ := if i + 1 = c then 0 else i + 1

/-- The `n` elements from index `t` on. -/
def window (b : ℕ → α) (c t n : ℕ) : List α := (List.range n).map fun i => b ((t + i) % c)

theorem next_eq (h : i < c) : next c i = (i + 1) % c := by
  unfold next
  split_ifs with hc
  · rw [hc, Nat.mod_self]
  · rw [Nat.mod_eq_of_lt (by omega)]

theorem next_lt (h : i < c) : next c i < c := by
  rw [next_eq h]
  exact Nat.mod_lt _ (by omega)

/-- The index behind `n` elements, after one more. -/
theorem next_mod (h : 0 < c) : next c ((t + n) % c) = (t + (n + 1)) % c := by
  rw [next_eq (Nat.mod_lt _ h), Nat.mod_add_mod, Nat.add_assoc]

/-- Fewer than `c` indices in a row are distinct. -/
theorem index_ne (hi : i < n) (hn : n < c) : (t + i) % c ≠ (t + n) % c := by
  intro h
  have hmod : i % c = n % c := Nat.ModEq.add_left_cancel' t h
  rw [Nat.mod_eq_of_lt (hi.trans hn), Nat.mod_eq_of_lt hn] at hmod
  omega

@[simp] theorem length_window : (window b c t n).length = n := by simp [window]

@[simp] theorem window_zero : window b c t 0 = [] := rfl

theorem window_snoc : window b c t (n + 1) = window b c t n ++ [b ((t + n) % c)] := by
  simp [window, List.range_succ]

theorem window_succ (h : t < c) : window b c t (n + 1) = b t :: window b c (t + 1) n := by
  simp only [window, List.range_succ_eq_map, List.map_cons, List.map_map, Nat.add_zero,
    Nat.mod_eq_of_lt h]
  refine congrArg _ (List.map_congr_left fun i _ => ?_)
  simp only [Function.comp_apply, Nat.succ_eq_add_one, Nat.add_assoc, Nat.add_comm 1]

theorem window_next (h : t < c) : window b c (next c t) n = window b c (t + 1) n := by
  refine List.map_congr_left fun i _ => ?_
  rw [next_eq h, Nat.mod_add_mod]

/-- Storing an element behind a window does not change it. -/
theorem window_update {x : α} (h : n < c) :
    window (Function.update b ((t + n) % c) x) c t n = window b c t n := by
  refine List.map_congr_left fun i hi => ?_
  exact Function.update_of_ne (index_ne (List.mem_range.1 hi) h) _ _

end Ring
