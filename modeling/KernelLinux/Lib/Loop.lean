/-
  Loops that may run forever.

  `Loop.run step n` makes at most `n` rounds of a loop, whose body goes on with another state or leaves
  the loop with a result.  Code that contains such loops is a function of the number of rounds each of
  them may make: it ends (`Ends`) if it returns the same result with every large enough number, and
  never ends (`Never`) if it returns none with any.

  * `Ends.unique`, `Ends.bind_iff`: there is one result, and a part that ends is left with its result;
  * `ends_continue`, `ends_leave`: a round of a loop;
  * `never_of_inv`: a loop whose body keeps an invariant and never leaves.
-/
import Mathlib.Data.Nat.Basic
import Mathlib.Tactic.Common

variable {σ ρ τ : Type*}

/-- At most `n` rounds from the state `s`; the body goes on with `inl` and leaves with `inr`. -/
def Loop.run (step : σ → σ ⊕ ρ) : ℕ → σ → Option ρ
  | 0, _ => none
  | n + 1, s => (step s).elim (Loop.run step n) some

/-- Code that ends with the result `r`, given enough rounds. -/
def Ends (f : ℕ → Option ρ) (r : ρ) : Prop := ∃ n, ∀ m ≥ n, f m = some r

/-- Code that does not end. -/
def Never (f : ℕ → Option ρ) : Prop := ∀ n, f n = none

namespace Ends
variable {f : ℕ → Option ρ} {g : ℕ → ρ → Option τ} {r : ρ} {t : τ}

theorem unique {r' : ρ} (h : Ends f r) (h' : Ends f r') : r = r' := by
  obtain ⟨n, hn⟩ := h
  obtain ⟨n', hn'⟩ := h'
  have hr := hn (max n n') (le_max_left n n')
  rw [hn' (max n n') (le_max_right n n')] at hr
  exact (Option.some.inj hr).symm

theorem not_never (h : Ends f r) : ¬ Never f := by
  obtain ⟨n, hn⟩ := h
  intro hnever
  exact Option.some_ne_none r ((hn n le_rfl).symm.trans (hnever n))

theorem pure (r : ρ) : Ends (fun _ => some r) r := ⟨0, fun _ _ => rfl⟩

/-- A part that ends is left with its result. -/
theorem bind_iff (h : Ends f r) : Ends (fun n => (f n).bind (g n)) t ↔ Ends (fun n => g n r) t := by
  obtain ⟨n, hn⟩ := h
  have hbind : ∀ m ≥ n, (f m).bind (g m) = g m r := fun m hm => by rw [hn m hm, Option.bind_some]
  constructor
  · rintro ⟨n', hn'⟩
    refine ⟨max n n', fun m hm => ?_⟩
    exact (hbind m (by omega)).symm.trans (hn' m (by omega))
  · rintro ⟨n', hn'⟩
    refine ⟨max n n', fun m hm => ?_⟩
    exact (hbind m (by omega)).trans (hn' m (by omega))

theorem map (h : Ends f r) (k : ρ → τ) : Ends (fun n => (f n).map k) (k r) := by
  obtain ⟨n, hn⟩ := h
  exact ⟨n, fun m hm => congrArg (Option.map k) (hn m hm)⟩

end Ends

theorem Never.bind {f : ℕ → Option ρ} (h : Never f) (g : ℕ → ρ → Option τ) :
    Never fun n => (f n).bind (g n) := fun n => congrArg (Option.bind · (g n)) (h n)

theorem Never.map {f : ℕ → Option ρ} (h : Never f) (k : ρ → τ) : Never fun n => (f n).map k :=
  fun n => congrArg (Option.map k) (h n)

namespace Loop
variable {step : σ → σ ⊕ ρ} {s s' : σ} {r : ρ}

theorem run_continue (h : step s = .inl s') (n : ℕ) : run step (n + 1) s = run step n s' := by
  simp only [run, h, Sum.elim_inl]

theorem run_leave (h : step s = .inr r) (n : ℕ) : run step (n + 1) s = some r := by
  simp only [run, h, Sum.elim_inr]

theorem ends_continue (h : step s = .inl s') : Ends (fun n => run step n s) r ↔
    Ends (fun n => run step n s') r := by
  constructor
  · rintro ⟨n, hn⟩
    exact ⟨n, fun m hm => (run_continue h m).symm.trans (hn (m + 1) (by omega))⟩
  · rintro ⟨n, hn⟩
    refine ⟨n + 1, fun m hm => ?_⟩
    obtain ⟨k, rfl⟩ : ∃ k, m = k + 1 := ⟨m - 1, by omega⟩
    exact (run_continue h k).trans (hn k (by omega))

theorem ends_leave (h : step s = .inr r) : Ends (fun n => run step n s) r := by
  refine ⟨1, fun m hm => ?_⟩
  obtain ⟨k, rfl⟩ : ∃ k, m = k + 1 := ⟨m - 1, by omega⟩
  exact run_leave h k

/-- A loop never ends whose body keeps an invariant and goes on. -/
theorem never_of_inv {I : σ → Prop} (hstep : ∀ s, I s → ∃ s', step s = .inl s' ∧ I s') (hs : I s) :
    Never fun n => run step n s := by
  intro n
  induction n generalizing s with
  | zero => rfl
  | succ n ih =>
    obtain ⟨s', hnext, hs'⟩ := hstep s hs
    exact (run_continue hnext n).trans (ih hs')

end Loop
