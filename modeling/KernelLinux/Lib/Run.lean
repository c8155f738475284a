/-
  Finite runs of a labelled transition system, and the two ways to reason about
  all of them: an invariant that every step keeps (`Run.inv`), and a simulation
  by the runs of another system (`Run.simulation`).  Two runs with related labels
  are followed step by step with `Run.lockstep`.  `Run.good_iff` tells which
  runs have a property that some steps destroy.
-/
import Mathlib.Data.List.Forall2

/-- `Run step s is t`: steps with the labels `is` lead from `s` to `t`. -/
inductive Run {σ ι : Type*} (step : σ → ι → σ → Prop) : σ → List ι → σ → Prop
  | nil (s : σ) : Run step s [] s
  | snoc {s t u : σ} {is : List ι} {i : ι} : Run step s is t → step t i u → Run step s (is ++ [i]) u

namespace Run

variable {σ τ ι κ : Type*} {step : σ → ι → σ → Prop} {step' : τ → κ → τ → Prop}

theorem single {s t : σ} {i : ι} (h : step s i t) : Run step s [i] t := .snoc (.nil s) h

theorem append {s t u : σ} {is js : List ι} (h : Run step s is t) (h' : Run step t js u) :
    Run step s (is ++ js) u := by
  induction h' with
  | nil => rwa [List.append_nil]
  | snoc _ ht ih =>
    rw [← List.append_assoc]
    exact ih.snoc ht

theorem cons {s t u : σ} {i : ι} {is : List ι} (h : step s i t) (h' : Run step t is u) :
    Run step s (i :: is) u :=
  (single h).append h'

/-- An invariant of the steps holds in every state of a run. -/
theorem inv {I : σ → Prop} (hstep : ∀ s i t, I s → step s i t → I t) {s t : σ} {is : List ι}
    (hs : I s) (h : Run step s is t) : I t := by
  induction h with
  | nil => exact hs
  | snoc _ ht ih => exact hstep _ _ _ ih ht

/-- Runs of steps with good labels. -/
theorem and_iff {ok : ι → Prop} {s t : σ} {is : List ι} :
    Run (fun s i t => step s i t ∧ ok i) s is t ↔ Run step s is t ∧ ∀ i ∈ is, ok i := by
  constructor
  · intro h
    induction h with
    | nil => exact ⟨.nil s, fun _ hi => absurd hi List.not_mem_nil⟩
    | snoc _ ht ih =>
      refine ⟨ih.1.snoc ht.1, ?_⟩
      rw [List.forall_mem_append, List.forall_mem_singleton]
      exact ⟨ih.2, ht.2⟩
  · rintro ⟨h, hok⟩
    induction h with
    | nil => exact .nil s
    | snoc _ ht ih =>
      rw [List.forall_mem_append, List.forall_mem_singleton] at hok
      exact (ih hok.1).snoc ⟨ht, hok.2⟩

/-- Which runs have a property that bad steps destroy for good: those without bad steps.  `I` is
    what good steps keep. -/
theorem good_iff {I P : List ι → σ → Prop} {good : σ → ι → Prop} {s t : σ} {is : List ι}
    (hinit : I [] s) (hprop : ∀ is t, I is t → P is t)
    (hgood : ∀ is t i u, I is t → step t i u → good t i → I (is ++ [i]) u)
    (hbad : ∀ is t i u, I is t → step t i u → ¬ good t i → ¬ P (is ++ [i]) u)
    (hlost : ∀ is t i u, ¬ P is t → step t i u → ¬ P (is ++ [i]) u) (h : Run step s is t) :
    P is t ↔ Run (fun s i t => step s i t ∧ good s i) s is t := by
  have hinv : ∀ {is t}, Run (fun s i t => step s i t ∧ good s i) s is t → I is t := fun h => by
    induction h with
    | nil => exact hinit
    | snoc _ ht ih => exact hgood _ _ _ _ ih ht.1 ht.2
  refine ⟨fun hP => ?_, fun h => hprop is t (hinv h)⟩
  induction h with
  | nil => exact .nil s
  | @snoc t u is i _ ht ih =>
    have hrun := ih (by_contra fun hP' => hlost is t i u hP' ht hP)
    exact hrun.snoc ⟨ht, by_contra fun hi => hbad is t i u (hinv hrun) ht hi hP⟩

/-- If every step is matched by a step with the corresponding label, every run is matched by a
    run. -/
theorem simulation {R : σ → τ → Prop} (f : ι → κ)
    (hstep : ∀ s i t a, R s a → step s i t → ∃ b, step' a (f i) b ∧ R t b) {s t : σ} {is : List ι}
    {a : τ} (hs : R s a) (h : Run step s is t) : ∃ b, Run step' a (is.map f) b ∧ R t b := by
  induction h with
  | nil => exact ⟨a, .nil a, hs⟩
  | snoc _ ht ih =>
    obtain ⟨b, hb, hR⟩ := ih
    obtain ⟨c, hc, hR'⟩ := hstep _ _ _ _ hR ht
    exact ⟨c, by rw [List.map_append]; exact .snoc hb hc, hR'⟩

/-- A relation that pairs of steps with related labels keep holds after two runs with related
    labels. -/
theorem lockstep {R : σ → τ → Prop} {S : ι → κ → Prop}
    (hstep : ∀ s i s' t j t', R s t → S i j → step s i s' → step' t j t' → R s' t') {s s' : σ}
    {t t' : τ} {is : List ι} {js : List κ} (hs : R s t) (h : Run step s is s')
    (h' : Run step' t js t') (hS : List.Forall₂ S is js) : R s' t' := by
  induction h generalizing js t' with
  | nil =>
    obtain rfl := List.forall₂_nil_left_iff.1 hS
    generalize hjs : ([] : List κ) = js at h'
    cases h' with
    | nil => exact hs
    | snoc _ _ => exact absurd hjs (by simp)
  | @snoc _ _ is i _ hi ih =>
    cases h' with
    | nil => exact absurd (List.forall₂_nil_right_iff.1 hS) (by simp)
    | @snoc _ _ js j hj' hj =>
      have hrev := List.forall₂_reverse_iff.2 hS
      rw [List.reverse_append, List.reverse_append] at hrev
      obtain ⟨hij, hrest⟩ := List.forall₂_cons.1 hrev
      exact hstep _ _ _ _ _ _ (ih hj' (List.forall₂_reverse_iff.1 hrest)) hij hi hj

end Run
