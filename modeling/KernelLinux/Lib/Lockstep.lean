/-
  Two programs in lockstep, on states of different types.

  `Lockstep R Q p q s t`: started in `s` and `t`, the programs take the same steps and
  make the same calls, however the lock attempts turn out; `R` relates the states whenever a
  mutex is attempted, and `Q` what they return and the states they end in.  It is proved by
  recursion on the programs, with `lockstep_bind` for their parts; `Lockstep.ends` is what it
  says about their runs.
-/
import KernelLinux.Lib.Prog

namespace Prog

variable {σ τ C L B α α' β β' : Type}

def Lockstep (R : σ → τ → Prop) (Q : α → β → σ → τ → Prop) :
    Prog σ C L B α → Prog τ C L B β → σ → τ → Prop
  | ret a, ret b, s, t => Q a b s t
  | step f k, step g l, s, t => (k s).Lockstep R Q (l t) (f s) (g t)
  | mark b k, mark c l, s, t => b = c ∧ k.Lockstep R Q l s t
  | sync b k, sync c l, s, t => b = c ∧ k.Lockstep R Q l s t
  | lock c k, lock d l, s, t => c = d ∧ R s t ∧ ∀ r, (k r).Lockstep R Q (l r) s t
  | unlock m k, unlock n l, s, t => m = n ∧ k.Lockstep R Q l s t
  | _, _, _, _ => False

section
variable {R : σ → τ → Prop} {s : σ} {t : τ}

/-- The rule of sequencing: the rest is followed from what the first parts end in. -/
theorem lockstep_bind {P : α → β → σ → τ → Prop} {Q : α' → β' → σ → τ → Prop} {p : Prog σ C L B α}
    {q : Prog τ C L B β} {g : α → Prog σ C L B α'} {g' : β → Prog τ C L B β'}
    (h : p.Lockstep R P q s t)
    (hrest : ∀ a b s' t', P a b s' t' → (g a).Lockstep R Q (g' b) s' t') :
    (p >>= g).Lockstep R Q (q >>= g') s t := by
  induction p generalizing q s t with
  | ret a => cases q <;> first | exact hrest _ _ _ _ h | exact h.elim
  | step f k ih =>
    cases q <;> first | exact ih s h | exact h.elim
  | mark b k ih =>
    cases q <;> first | exact ⟨h.1, ih h.2⟩ | exact h.elim
  | sync b k ih =>
    cases q <;> first | exact ⟨h.1, ih h.2⟩ | exact h.elim
  | lock c k ih =>
    cases q <;> first | exact ⟨h.1, h.2.1, fun r => ih r (h.2.2 r)⟩ | exact h.elim
  | unlock l k ih =>
    cases q <;> first | exact ⟨h.1, ih h.2⟩ | exact h.elim

/-- Both attempt a mutex. -/
theorem lockstep_lock {Q : α → β → σ → τ → Prop} {c : C} {g : Bool → Prog σ C L B α}
    {g' : Bool → Prog τ C L B β} (hR : R s t) (hrest : ∀ r, (g r).Lockstep R Q (g' r) s t) :
    (mutexLockInterruptible c >>= g).Lockstep R Q (mutexLockInterruptible c >>= g') s t :=
  ⟨rfl, hR, hrest⟩

/-- The result of the first program is mapped. -/
theorem lockstep_map {P : α → β → σ → τ → Prop} {Q : α' → β → σ → τ → Prop} (g : α → α')
    {p : Prog σ C L B α} {q : Prog τ C L B β} (h : p.Lockstep R P q s t)
    (hPQ : ∀ a b s' t', P a b s' t' → Q (g a) b s' t') : (g <$> p).Lockstep R Q q s t := by
  rw [← bind_ret q]
  exact lockstep_bind (g := fun a => ret (g a)) h hPQ

/-- **What lockstep says about runs**: both return, or both wait for the same mutex. -/
theorem Lockstep.ends [DecidableEq L] {Q : α → β → σ → τ → Prop} (mx : C → L) (intr : C → Bool)
    {p : Prog σ C L B α} {q : Prog τ C L B β} (h : L → Bool) (hpq : p.Lockstep R Q q s t) :
    (∃ a b s' t', p.ends mx intr s h = (some a, s') ∧ q.ends mx intr t h = (some b, t') ∧ Q a b s' t') ∨
      ∃ s' t', p.ends mx intr s h = (none, s') ∧ q.ends mx intr t h = (none, t') ∧ R s' t' := by
  induction p generalizing q s t h with
  | ret a =>
    cases q with
    | ret b => exact Or.inl ⟨a, b, s, t, rfl, rfl, hpq⟩
    | _ => exact hpq.elim
  | step f k ih =>
    cases q with
    | step g l =>
      simp only [Prog.ends]
      exact ih s _ hpq
    | _ => exact hpq.elim
  | mark b k ih =>
    cases q with
    | mark c l =>
      simp only [Prog.ends]
      exact ih _ hpq.2
    | _ => exact hpq.elim
  | sync b k ih =>
    cases q with
    | sync c l =>
      simp only [Prog.ends]
      exact ih _ hpq.2
    | _ => exact hpq.elim
  | lock c k ih =>
    cases q with
    | lock d l =>
      obtain ⟨rfl, hR, hk⟩ := hpq
      simp only [Prog.ends]
      split_ifs
      · exact ih true _ (hk true)
      · exact Or.inr ⟨_, _, rfl, rfl, hR⟩
      · exact ih false _ (hk false)
    | _ => exact hpq.elim
  | unlock l k ih =>
    cases q with
    | unlock m j =>
      obtain ⟨rfl, hk⟩ := hpq
      simp only [Prog.ends]
      exact ih _ hk
    | _ => exact hpq.elim

end

end Prog
