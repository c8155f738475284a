/-
  Decimal numbers in ASCII, as `printf` prints and `strtoul` reads them.

  `scan` reads the longest run of digits; it gets a printed number back, if no digit
  follows it (`scan_print`).
-/
import Mathlib.Data.Nat.Digits.Lemmas

namespace Decimal

/-- The character of a digit. -/
def char (d : ℕ) : UInt8 := UInt8.ofNat (48 + d)

def IsDigit (c : UInt8) : Prop := 48 ≤ c ∧ c ≤ 57

instance (c : UInt8) : Decidable (IsDigit c) := inferInstanceAs (Decidable (_ ∧ _))

/-- `printf` with %u -/
def print (n : ℕ) : List UInt8 := if n = 0 then [48] else (Nat.digits 10 n).reverse.map char

/-- The number that `s` begins with, after `acc`, and the rest of `s`. -/
def scan : ℕ → List UInt8 → ℕ × List UInt8
  | acc, [] => (acc, [])
  | acc, c :: s => if IsDigit c then scan (10 * acc + (c.toNat - 48)) s else (acc, c :: s)

theorem char_toNat {d : ℕ} (hd : d < 10) : (char d).toNat = 48 + d := by
  rw [char, UInt8.toNat_ofNat']
  omega

theorem isDigit_char {d : ℕ} (hd : d < 10) : IsDigit (char d) := by
  simp only [IsDigit, UInt8.le_iff_toNat_le, char_toNat hd]
  exact ⟨by simp, by simp; omega⟩

/-- No digit follows. -/
def Ends (s : List UInt8) : Prop := ∀ c ∈ s.head?, ¬ IsDigit c

theorem scan_ends {s : List UInt8} (hs : Ends s) (acc : ℕ) : scan acc s = (acc, s) := by
  cases s with
  | nil => rfl
  | cons c s => rw [scan, if_neg (hs c rfl)]

theorem scan_chars {ds s : List _} (hds : ∀ d ∈ ds, d < 10) (hs : Ends s) (acc : ℕ) :
    scan acc (ds.map char ++ s) = (ds.foldl (fun a d => 10 * a + d) acc, s) := by
  induction ds generalizing acc with
  | nil => exact scan_ends hs acc
  | cons d ds ih =>
    have hd := hds d List.mem_cons_self
    rw [List.map_cons, List.cons_append, scan, if_pos (isDigit_char hd), char_toNat hd,
      Nat.add_sub_cancel_left, ih fun d hd => hds d (List.mem_cons_of_mem _ hd)]
    rfl

theorem scan_print (n : ℕ) {s : List UInt8} (hs : Ends s) : scan 0 (print n ++ s) = (n, s) := by
  rw [print]
  split_ifs with h
  · subst h
    rw [List.singleton_append, scan, if_pos (by decide), scan_ends hs]
    rfl
  · rw [scan_chars (fun d hd => Nat.digits_lt_base (by decide) (List.mem_reverse.1 hd)) hs,
      List.foldl_reverse]
    congr 1
    refine Eq.trans ?_ (Nat.ofDigits_digits 10 n)
    rw [Nat.ofDigits_eq_foldr]
    simp only [Nat.cast_id, Nat.add_comm]

theorem isDigit_of_mem_print {n : ℕ} {c : UInt8} (h : c ∈ print n) : IsDigit c := by
  rw [print] at h
  split_ifs at h
  · rw [List.mem_singleton.1 h]
    decide
  · obtain ⟨d, hd, rfl⟩ := List.mem_map.1 h
    exact isDigit_char (Nat.digits_lt_base (by decide) (List.mem_reverse.1 hd))

theorem print_ne_nil (n : ℕ) : print n ≠ [] := by
  rw [print]
  split_ifs with h
  · exact List.cons_ne_nil _ _
  · simpa [Nat.digits_eq_nil_iff_eq_zero] using h

theorem print_length_le {n k : ℕ} (hk : 0 < k) (hn : n < 10 ^ k) : (print n).length ≤ k := by
  rw [print]
  split_ifs
  · exact hk
  · rw [List.length_map, List.length_reverse]
    exact (Nat.digits_length_le_iff (by decide) n).2 hn

/-- A printed number has its first digit. -/
theorem print_eq_cons (n : ℕ) : ∃ c s, print n = c :: s ∧ IsDigit c := by
  obtain ⟨c, s, h⟩ := List.exists_cons_of_ne_nil (print_ne_nil n)
  exact ⟨c, s, h, isDigit_of_mem_print (h ▸ List.mem_cons_self)⟩

end Decimal
