/-
  udevd — which device paths belong together.

  `compare_devpath` finds that two devpaths name the same device or that one
  names an ancestor of the other, as long as the shorter one is shorter than
  PATH_SIZE (`compareDevpath_ne_zero_iff`).
-/
import Mathlib.Data.List.Infix

namespace Udev

/-- The bytes of a C string, up to its NUL. -/
abbrev Str := List UInt8

scoped instance : LawfulBEq Str := inferInstance

def ascii (s : String) : Str := s.toList.map fun c => UInt8.ofNat c.toNat

/-- '/' -/
def slash : UInt8 := 0x2f

/-- PATH_SIZE -/
def pathSize : ℕ := 512

/-- The loop of `compare_devpath`, with `n` rounds left.  The list ends where the string has its
    NUL. -/
def compareDevpath.loop : ℕ → Str → Str → ℕ
  | 0, _, _ => 0
  -- identical device event found
  | _ + 1, [], [] => 1
  -- parent device event found
  | _ + 1, [], w :: _ => if w = slash then 2 else 0
  -- child device event found
  | _ + 1, r :: _, [] => if r = slash then 3 else 0
  | n + 1, r :: rs, w :: ws => if r ≠ w then 0 else compareDevpath.loop n rs ws

def compareDevpath (running waiting : Str) : ℕ := compareDevpath.loop pathSize running waiting

/-- The device of `p` is the device of `q` or an ancestor of it. -/
def Above (p q : Str) : Prop := p = q ∨ p ++ [slash] <+: q

/-- The devices are the same, or one is an ancestor of the other. -/
def Related (p q : Str) : Prop := Above p q ∨ Above q p

instance (p q : Str) : Decidable (Above p q) := inferInstanceAs (Decidable (_ ∨ _))

instance (p q : Str) : Decidable (Related p q) := inferInstanceAs (Decidable (_ ∨ _))

theorem Related.refl (p : Str) : Related p p := Or.inl (Or.inl rfl)

theorem Related.symm {p q : Str} (h : Related p q) : Related q p := Or.symm h

theorem above_nil_left {q : Str} : Above [] q ↔ q = [] ∨ q.head? = some slash := by
  cases q with
  | nil => simp [Above]
  | cons w ws => simp [Above, eq_comm]

theorem not_above_cons_nil (r : UInt8) (rs : Str) : ¬ Above (r :: rs) [] := by simp [Above]

theorem above_cons_cons {r w : UInt8} {rs ws : Str} :
    Above (r :: rs) (w :: ws) ↔ r = w ∧ Above rs ws := by
  simp only [Above, List.cons_append, List.cons.injEq, List.cons_prefix_cons]
  tauto

theorem related_cons_cons {r w : UInt8} {rs ws : Str} :
    Related (r :: rs) (w :: ws) ↔ r = w ∧ Related rs ws := by
  simp only [Related, above_cons_cons]
  constructor
  · rintro (⟨h, h'⟩ | ⟨h, h'⟩)
    · exact ⟨h, Or.inl h'⟩
    · exact ⟨h.symm, Or.inr h'⟩
  · rintro ⟨h, h' | h'⟩
    · exact Or.inl ⟨h, h'⟩
    · exact Or.inr ⟨h.symm, h'⟩

theorem compareDevpath.loop_ne_zero_iff (n : ℕ) (p q : Str) :
    compareDevpath.loop n p q ≠ 0 ↔ Related p q ∧ min p.length q.length < n := by
  induction n generalizing p q with
  | zero => simp [compareDevpath.loop]
  | succ n ih =>
    cases p with
    | nil =>
      cases q with
      | nil => simp [compareDevpath.loop, Related, above_nil_left]
      | cons w ws => simp [compareDevpath.loop, Related, above_nil_left, not_above_cons_nil]
    | cons r rs =>
      cases q with
      | nil => simp [compareDevpath.loop, Related, above_nil_left, not_above_cons_nil]
      | cons w ws =>
        by_cases h : r = w
        · simp only [compareDevpath.loop, h, ne_eq, not_true_eq_false, if_false, related_cons_cons,
            true_and, List.length_cons]
          rw [← ne_eq, ih]
          exact and_congr_right fun _ => by omega
        · simp [compareDevpath.loop, h, related_cons_cons]

theorem compareDevpath_ne_zero_iff (p q : Str) :
    compareDevpath p q ≠ 0 ↔ Related p q ∧ min p.length q.length < pathSize :=
  compareDevpath.loop_ne_zero_iff pathSize p q

theorem compareDevpath_symm {p q : Str} (h : compareDevpath p q ≠ 0) : compareDevpath q p ≠ 0 := by
  rw [compareDevpath_ne_zero_iff] at h ⊢
  exact ⟨h.1.symm, min_comm p.length q.length ▸ h.2⟩

example : compareDevpath (ascii "/block/sda") (ascii "/block/sda/sda1") = 2 := by decide

end Udev
