/-
  globalmem — seeking (`globalmem_llseek` of `ch7`, and the same in `ch6`).

  An absolute offset is cut to an `unsigned int` before it is compared with
  `GLOBALMEM_SIZE`; a relative one is added as a `loff_t`, and a sum that wraps is
  negative.  `llseek_iff`: the seeks that go to the position that was asked for, or
  fail if there is none.
-/
import KernelLinux.Globalmem.Device

namespace Globalmem

/-- The position that is asked for, in exact arithmetic. -/
def target (pos offset orig : ℤ) : Option ℤ :=
  match orig with
  | 0 => some offset
  | 1 => some (pos + offset)
  | _ => none

namespace State

/-- A seek to the position that is asked for, if it is one of the device. -/
def seek (s : State) (i : ℕ) (offset orig : ℤ) : State × Ret :=
  match target (s.fPos i) offset orig with
  | some pos =>
    if 0 ≤ pos ∧ pos ≤ GLOBALMEM_SIZE then (s.setPos i pos, ⟨.ok pos, []⟩)
    else (s, ⟨.error .einval, []⟩)
  | none => (s, ⟨.error .einval, []⟩)

end State

section
variable {s : State} {i : ℕ} {offset pos orig : ℤ}

theorem toUint_eq (h₀ : 0 ≤ offset) (h : offset < 2 ^ 32) : (toUint offset : ℤ) = offset := by
  rw [toUint, Int.emod_eq_of_lt h₀ h, Int.toNat_of_nonneg h₀]

/-- A sum behind the last `loff_t` is negative. -/
theorem toLoff_neg (h : 2 ^ 63 ≤ offset) (h' : offset < 2 ^ 63 + 2 ^ 13) : toLoff offset < 0 := by
  simp only [toLoff, Int.bmod]
  split <;> omega

theorem toLoff_exact (h₀ : -2 ^ 63 ≤ offset) (h : offset < 2 ^ 63) : toLoff offset = offset := by
  simp only [toLoff, Int.bmod]
  split <;> omega

theorem seek_inside (ht : target (s.fPos i) offset orig = some pos) (h₀ : 0 ≤ pos)
    (h : pos ≤ GLOBALMEM_SIZE) : s.seek i offset orig = (s.setPos i pos, ⟨.ok pos, []⟩) := by
  simp only [State.seek, ht]
  exact if_pos ⟨h₀, h⟩

theorem seek_outside (ht : target (s.fPos i) offset orig = some pos)
    (h : pos < 0 ∨ GLOBALMEM_SIZE < pos) : s.seek i offset orig = (s, ⟨.error .einval, []⟩) := by
  simp only [State.seek, ht]
  exact if_neg (by omega)

/-- An absolute offset. -/
theorem llseek_set (h : orig = 0) : s.globalmemLlseek i offset orig = s.seek i offset orig ↔
    ¬ (2 ^ 32 ≤ offset ∧ toUint offset ≤ GLOBALMEM_SIZE) := by
  subst h
  have ht : target (s.fPos i) offset 0 = some offset := rfl
  simp only [State.globalmemLlseek]
  split_ifs with hneg hbig
  · rw [seek_outside ht (Or.inl hneg)]
    exact iff_of_true rfl (by omega)
  · rcases lt_or_ge offset (2 ^ 32) with hlt | hge
    · have := toUint_eq (by omega) hlt
      rw [seek_outside ht (Or.inr (by omega))]
      exact iff_of_true rfl (by omega)
    · rw [seek_outside ht (Or.inr (by unfold GLOBALMEM_SIZE; omega))]
      exact iff_of_true rfl (by omega)
  · rcases lt_or_ge offset (2 ^ 32) with hlt | hge
    · have huint := toUint_eq (by omega) hlt
      rw [seek_inside ht (by omega) (by omega), huint]
      exact iff_of_true rfl (by omega)
    · -- the offset that is left after the cut is one of the device
      rw [seek_outside ht (Or.inr (by unfold GLOBALMEM_SIZE; omega))]
      exact iff_of_false (by simp) (by omega)

/-- A relative offset. -/
theorem llseek_cur (h : orig = 1) (hpos₀ : 0 ≤ s.fPos i) (hpos : s.fPos i ≤ GLOBALMEM_SIZE)
    (hoff₀ : -2 ^ 63 ≤ offset) (hoff : offset < 2 ^ 63) :
    s.globalmemLlseek i offset orig = s.seek i offset orig := by
  subst h
  have ht : target (s.fPos i) offset 1 = some (s.fPos i + offset) := rfl
  have hsize : (GLOBALMEM_SIZE : ℤ) = 4096 := rfl
  simp only [State.globalmemLlseek]
  rcases lt_or_ge (s.fPos i + offset) (2 ^ 63) with hlt | hge
  · rw [toLoff_exact (by omega) hlt]
    split_ifs with hbig hneg
    · rw [seek_outside ht (Or.inr hbig)]
    · rw [seek_outside ht (Or.inl hneg)]
    · rw [seek_inside ht (by omega) (by omega)]
  · have hwrap := toLoff_neg hge (by omega)
    rw [if_neg (by omega), if_pos hwrap, seek_outside ht (Or.inr (by omega))]

theorem llseek_other (h₀ : orig ≠ 0) (h₁ : orig ≠ 1) :
    s.globalmemLlseek i offset orig = s.seek i offset orig := by
  have ht : target (s.fPos i) offset orig = none := by simp [target]
  simp [State.seek, ht, State.globalmemLlseek]

end

/-- **Which seeks are exact**: all but those to an absolute offset from `2 ^ 32` on that the cut to
    an `unsigned int` moves into the device. -/
theorem llseek_iff {s : State} {i : ℕ} {offset : ℤ} (hpos₀ : 0 ≤ s.fPos i)
    (hpos : s.fPos i ≤ GLOBALMEM_SIZE) (hoff₀ : -2 ^ 63 ≤ offset) (hoff : offset < 2 ^ 63) (orig : ℤ) :
    s.globalmemLlseek i offset orig = s.seek i offset orig ↔
      ¬ (orig = 0 ∧ 2 ^ 32 ≤ offset ∧ toUint offset ≤ GLOBALMEM_SIZE) := by
  by_cases h₀ : orig = 0
  · rw [llseek_set h₀, and_iff_right h₀]
  · by_cases h₁ : orig = 1
    · exact iff_of_true (llseek_cur h₁ hpos₀ hpos hoff₀ hoff) fun h => h₀ h.1
    · exact iff_of_true (llseek_other h₀ h₁) fun h => h₀ h.1

theorem llseek_iff_back : (init fun _ => 0).globalmemLlseek 0 (-1) 1 = (init fun _ => 0).seek 0 (-1) 1 ↔
    ¬ ((1 : ℤ) = 0 ∧ (2 : ℤ) ^ 32 ≤ -1 ∧ toUint (-1) ≤ GLOBALMEM_SIZE) :=
  llseek_iff (by decide) (by decide) (by decide) (by decide) 1

/-- A seek to 4 GiB goes to the start of the device. -/
theorem llseek_cut :
    (init fun _ => 0).globalmemLlseek 0 (2 ^ 32) 0 ≠ (init fun _ => 0).seek 0 (2 ^ 32) 0 := by
  intro h
  have hret := congrArg (fun r => r.2.ret.isOk) h
  revert hret
  decide

end Globalmem
