/-
  Kernel code as programs over a shared state.

  A program is a sequence of atomic accesses of the state, calls into the
  buffer cache (`mark_buffer_dirty`, `sync_dirty_buffer`) and mutex operations.
  A mutex is taken by `mutex_lock_interruptible`, which returns non-zero when a
  signal interrupts the wait; each place in the code that takes a mutex is a
  *site*, and `mx` says which mutex a site takes.

  The same program has several readings:

  * `exec`: run alone, with no lock attempt interrupted;
  * `run`: run alone, the attempts at the sites in `intr` being interrupted; an
    uninterrupted attempt on a mutex the program holds already never returns
    (`none`);
  * `ends`: the same run, with the state in which a program that never returns
    waits;
  * `Disciplined`: the mutex operations of that run are properly nested.
-/
import Mathlib.Logic.Function.Basic
import Mathlib.Data.Nat.Notation
import Mathlib.Tactic.SplitIfs

/-- Programs over a state `σ`, lock sites `C`, mutexes `L` and disk blocks `B`, returning an
    `α`.  `step f k` replaces the state `s` by `f s` and continues with `k s`. -/
inductive Prog (σ C L B α : Type) : Type where
  | ret (a : α)
  | step (f : σ → σ) (k : σ → Prog σ C L B α)
  | mark (b : B) (k : Prog σ C L B α)
  | sync (b : B) (k : Prog σ C L B α)
  | lock (c : C) (k : Bool → Prog σ C L B α)
  | unlock (l : L) (k : Prog σ C L B α)

namespace Prog

variable {σ C L B α β γ : Type}

/-- Sequential composition. -/
def bind : Prog σ C L B α → (α → Prog σ C L B β) → Prog σ C L B β
  | ret a, g => g a
  | step f k, g => step f fun s => (k s).bind g
  | mark b k, g => mark b (k.bind g)
  | sync b k, g => sync b (k.bind g)
  | lock c k, g => lock c fun r => (k r).bind g
  | unlock l k, g => unlock l (k.bind g)

instance : Monad (Prog σ C L B) where
  pure := ret
  bind := bind

/-- Read the state. -/
def reads (g : σ → α) : Prog σ C L B α := step id fun s => ret (g s)

/-- Update the state. -/
def modify (f : σ → σ) : Prog σ C L B Unit := step f fun _ => ret ()

/-- `mark_buffer_dirty`. -/
def markBufferDirty (b : B) : Prog σ C L B Unit := mark b (ret ())

/-- `sync_dirty_buffer`. -/
def syncDirtyBuffer (b : B) : Prog σ C L B Unit := sync b (ret ())

/-- `mutex_lock_interruptible`: `true` (non-zero) if a signal interrupted the attempt. -/
def mutexLockInterruptible (c : C) : Prog σ C L B Bool := lock c ret

/-- `mutex_unlock`. -/
def mutexUnlock (l : L) : Prog σ C L B Unit := unlock l (ret ())

section
variable (g : α → Prog σ C L B β)

@[simp] theorem pure_def (a : α) : (pure a : Prog σ C L B α) = ret a := rfl
@[simp] theorem ret_bind (a : α) : (ret a >>= g) = g a := rfl
@[simp] theorem step_bind (f : σ → σ) (k : σ → Prog σ C L B α) :
    (step f k >>= g) = step f fun s => k s >>= g := rfl
@[simp] theorem mark_bind (b : B) (k : Prog σ C L B α) : (mark b k >>= g) = mark b (k >>= g) := rfl
@[simp] theorem sync_bind (b : B) (k : Prog σ C L B α) : (sync b k >>= g) = sync b (k >>= g) := rfl
@[simp] theorem lock_bind (c : C) (k : Bool → Prog σ C L B α) :
    (lock c k >>= g) = lock c fun r => k r >>= g := rfl
@[simp] theorem unlock_bind (l : L) (k : Prog σ C L B α) :
    (unlock l k >>= g) = unlock l (k >>= g) := rfl

end

theorem bind_ret (p : Prog σ C L B α) : p >>= ret = p := by
  induction p with
  | ret a => rfl
  | step f k ih => simp only [step_bind, ih]
  | mark b k ih => simp only [mark_bind, ih]
  | sync b k ih => simp only [sync_bind, ih]
  | lock c k ih => simp only [lock_bind, ih]
  | unlock l k ih => simp only [unlock_bind, ih]

theorem bind_assoc (p : Prog σ C L B α) (g : α → Prog σ C L B β) (h : β → Prog σ C L B γ) :
    (p >>= g) >>= h = p >>= fun a => g a >>= h := by
  induction p with
  | ret a => rfl
  | step f k ih => simp only [step_bind, ih]
  | mark b k ih => simp only [mark_bind, ih]
  | sync b k ih => simp only [sync_bind, ih]
  | lock c k ih => simp only [lock_bind, ih]
  | unlock l k ih => simp only [unlock_bind, ih]

/-! ## Running alone -/

/-- Run a program alone, no lock attempt being interrupted. -/
def exec : Prog σ C L B α → σ → α × σ
  | ret a, s => (a, s)
  | step f k, s => (k s).exec (f s)
  | mark _ k, s => k.exec s
  | sync _ k, s => k.exec s
  | lock _ k, s => (k false).exec s
  | unlock _ k, s => k.exec s

@[simp] theorem exec_ret (a : α) (s : σ) : (ret a : Prog σ C L B α).exec s = (a, s) := rfl

theorem exec_bind (p : Prog σ C L B α) (g : α → Prog σ C L B β) (s : σ) :
    (p >>= g).exec s = (g (p.exec s).1).exec (p.exec s).2 := by
  induction p generalizing s with
  | ret a => rfl
  | step f k ih => exact ih s (f s)
  | mark b k ih => exact ih s
  | sync b k ih => exact ih s
  | lock c k ih => exact ih false s
  | unlock l k ih => exact ih s

@[simp] theorem exec_reads (g : σ → α) (s : σ) :
    (reads g : Prog σ C L B α).exec s = (g s, s) := rfl
@[simp] theorem exec_modify (f : σ → σ) (s : σ) :
    (modify f : Prog σ C L B Unit).exec s = ((), f s) := rfl
@[simp] theorem exec_markBufferDirty (b : B) (s : σ) :
    (markBufferDirty b : Prog σ C L B Unit).exec s = ((), s) := rfl
@[simp] theorem exec_syncDirtyBuffer (b : B) (s : σ) :
    (syncDirtyBuffer b : Prog σ C L B Unit).exec s = ((), s) := rfl
@[simp] theorem exec_mutexLockInterruptible (c : C) (s : σ) :
    (mutexLockInterruptible c : Prog σ C L B Bool).exec s = (false, s) := rfl
@[simp] theorem exec_mutexUnlock (l : L) (s : σ) :
    (mutexUnlock l : Prog σ C L B Unit).exec s = ((), s) := rfl

/-! ## Interrupted lock attempts -/

/-- `P` holds of the result and the final state of a run, if it returns. -/
def Returns (P : α → σ → Prop) (o : Option (α × σ × (L → Bool))) : Prop :=
  ∀ a s h, o = some (a, s, h) → P a s

@[simp] theorem returns_none (P : α → σ → Prop) :
    Returns P (none : Option (α × σ × (L → Bool))) ↔ True := by simp [Returns]

@[simp] theorem returns_some (P : α → σ → Prop) (a : α) (s : σ) (h : L → Bool) :
    Returns P (some (a, s, h)) ↔ P a s := by
  constructor
  · intro hr
    exact hr a s h rfl
  · rintro hp _ _ _ ⟨⟩
    exact hp

section
variable [DecidableEq L] (mx : C → L) (intr : C → Bool)

/-- Run a program alone from state `s`, holding the mutexes `h`; the attempts at the sites in
    `intr` are interrupted.  `none`: the program waits for a mutex it holds itself. -/
def run : Prog σ C L B α → σ → (L → Bool) → Option (α × σ × (L → Bool))
  | ret a, s, h => some (a, s, h)
  | step f k, s, h => (k s).run (f s) h
  | mark _ k, s, h => k.run s h
  | sync _ k, s, h => k.run s h
  | lock c k, s, h =>
    if intr c then (k true).run s h
    else if h (mx c) then none
    else (k false).run s (Function.update h (mx c) true)
  | unlock l k, s, h => k.run s (Function.update h l false)

theorem run_bind (p : Prog σ C L B α) (g : α → Prog σ C L B β) (s : σ) (h : L → Bool) :
    (p >>= g).run mx intr s h =
      (p.run mx intr s h).bind fun r => (g r.1).run mx intr r.2.1 r.2.2 := by
  induction p generalizing s h with
  | ret a => rfl
  | step f k ih => exact ih s (f s) h
  | mark b k ih => exact ih s h
  | sync b k ih => exact ih s h
  | lock c k ih =>
    simp only [lock_bind, run]
    split_ifs
    · exact ih true s h
    · rfl
    · exact ih false s _
  | unlock l k ih => exact ih s _

section
variable (s : σ) (h : L → Bool)

@[simp] theorem run_ret (a : α) : (ret a : Prog σ C L B α).run mx intr s h = some (a, s, h) := rfl
@[simp] theorem run_reads (g : σ → α) :
    (reads g : Prog σ C L B α).run mx intr s h = some (g s, s, h) := rfl
@[simp] theorem run_step (f : σ → σ) (g : σ → α) :
    (step f fun s => ret (g s) : Prog σ C L B α).run mx intr s h = some (g s, f s, h) := rfl
@[simp] theorem run_modify (f : σ → σ) :
    (modify f : Prog σ C L B Unit).run mx intr s h = some ((), f s, h) := rfl
@[simp] theorem run_markBufferDirty (b : B) :
    (markBufferDirty b : Prog σ C L B Unit).run mx intr s h = some ((), s, h) := rfl
@[simp] theorem run_syncDirtyBuffer (b : B) :
    (syncDirtyBuffer b : Prog σ C L B Unit).run mx intr s h = some ((), s, h) := rfl
@[simp] theorem run_mutexLockInterruptible (c : C) :
    (mutexLockInterruptible c : Prog σ C L B Bool).run mx intr s h =
      if intr c then some (true, s, h)
      else if h (mx c) then none
      else some (false, s, Function.update h (mx c) true) := rfl
@[simp] theorem run_mutexUnlock (l : L) :
    (mutexUnlock l : Prog σ C L B Unit).run mx intr s h =
      some ((), s, Function.update h l false) := rfl

end

/-- The result of that run and the state it ends in; there is no result if the program waits for
    a mutex it holds itself. -/
def ends : Prog σ C L B α → σ → (L → Bool) → Option α × σ
  | ret a, s, _ => (some a, s)
  | step f k, s, h => (k s).ends (f s) h
  | mark _ k, s, h => k.ends s h
  | sync _ k, s, h => k.ends s h
  | lock c k, s, h =>
    if intr c then (k true).ends s h
    else if h (mx c) then (none, s)
    else (k false).ends s (Function.update h (mx c) true)
  | unlock l k, s, h => k.ends s (Function.update h l false)

theorem ends_of_run {p : Prog σ C L B α} {s : σ} {h : L → Bool} {r : α × σ × (L → Bool)}
    (hr : p.run mx intr s h = some r) : p.ends mx intr s h = (some r.1, r.2.1) := by
  induction p generalizing s h with
  | ret a => cases hr; rfl
  | step f k ih => exact ih s hr
  | mark b k ih => exact ih hr
  | sync b k ih => exact ih hr
  | lock c k ih =>
    simp only [run] at hr
    simp only [ends]
    split_ifs at hr ⊢
    · exact ih true hr
    · exact ih false hr
  | unlock l k ih => exact ih hr

/-- A program that returns goes on with the next. -/
theorem ends_bind {p : Prog σ C L B α} (g : α → Prog σ C L B β) {s : σ} {h : L → Bool}
    {r : α × σ × (L → Bool)} (hr : p.run mx intr s h = some r) :
    (p >>= g).ends mx intr s h = (g r.1).ends mx intr r.2.1 r.2.2 := by
  induction p generalizing s h with
  | ret a => cases hr; rfl
  | step f k ih => exact ih s hr
  | mark b k ih => exact ih hr
  | sync b k ih => exact ih hr
  | lock c k ih =>
    simp only [run] at hr
    simp only [lock_bind, ends]
    split_ifs at hr ⊢
    · exact ih true hr
    · exact ih false hr
  | unlock l k ih => exact ih hr

theorem ends_map (g : α → β) (p : Prog σ C L B α) (s : σ) (h : L → Bool) :
    (g <$> p).ends mx intr s h = ((p.ends mx intr s h).1.map g, (p.ends mx intr s h).2) := by
  change (p >>= fun a => ret (g a)).ends mx intr s h = _
  induction p generalizing s h with
  | ret a => rfl
  | step f k ih => exact ih s (f s) h
  | mark b k ih => exact ih s h
  | sync b k ih => exact ih s h
  | lock c k ih =>
    simp only [lock_bind, ends]
    split_ifs
    · exact ih true s h
    · rfl
    · exact ih false s _
  | unlock l k ih => exact ih s _

/-- The mutex operations of the run of a program are properly nested: a mutex is taken only
    while it is not held and all held ones have a smaller `rank`, and released only while it
    is held.  `Q` is what holds of the result, the final state and the mutexes held then. -/
def Disciplined (rank : L → ℕ) (Q : α → σ → (L → Bool) → Prop) :
    Prog σ C L B α → σ → (L → Bool) → Prop
  | ret a, s, h => Q a s h
  | step f k, s, h => (k s).Disciplined rank Q (f s) h
  | mark _ k, s, h => k.Disciplined rank Q s h
  | sync _ k, s, h => k.Disciplined rank Q s h
  | lock c k, s, h =>
    if intr c then (k true).Disciplined rank Q s h
    else h (mx c) = false ∧ (∀ l, h l = true → rank l < rank (mx c)) ∧
      (k false).Disciplined rank Q s (Function.update h (mx c) true)
  | unlock l k, s, h => h l = true ∧ k.Disciplined rank Q s (Function.update h l false)

theorem disciplined_bind (rank : L → ℕ) (Q : β → σ → (L → Bool) → Prop) (p : Prog σ C L B α)
    (g : α → Prog σ C L B β) (s : σ) (h : L → Bool) :
    (p >>= g).Disciplined mx intr rank Q s h ↔
      p.Disciplined mx intr rank (fun a s' h' => (g a).Disciplined mx intr rank Q s' h') s h := by
  induction p generalizing s h with
  | ret a => rfl
  | step f k ih => exact ih s (f s) h
  | mark b k ih => exact ih s h
  | sync b k ih => exact ih s h
  | lock c k ih => simp only [lock_bind, Disciplined, ih]
  | unlock l k ih => simp only [unlock_bind, Disciplined, ih]

section
variable (rank : L → ℕ) (s : σ) (h : L → Bool)

@[simp] theorem disciplined_ret (Q : α → σ → (L → Bool) → Prop) (a : α) :
    (ret a : Prog σ C L B α).Disciplined mx intr rank Q s h ↔ Q a s h := Iff.rfl
@[simp] theorem disciplined_reads (Q : α → σ → (L → Bool) → Prop) (g : σ → α) :
    (reads g : Prog σ C L B α).Disciplined mx intr rank Q s h ↔ Q (g s) s h := Iff.rfl
@[simp] theorem disciplined_step (Q : α → σ → (L → Bool) → Prop) (f : σ → σ) (g : σ → α) :
    (step f fun s => ret (g s) : Prog σ C L B α).Disciplined mx intr rank Q s h ↔ Q (g s) (f s) h :=
  Iff.rfl
@[simp] theorem disciplined_modify (Q : Unit → σ → (L → Bool) → Prop) (f : σ → σ) :
    (modify f : Prog σ C L B Unit).Disciplined mx intr rank Q s h ↔ Q () (f s) h := Iff.rfl
@[simp] theorem disciplined_markBufferDirty (Q : Unit → σ → (L → Bool) → Prop) (b : B) :
    (markBufferDirty b : Prog σ C L B Unit).Disciplined mx intr rank Q s h ↔ Q () s h := Iff.rfl
@[simp] theorem disciplined_syncDirtyBuffer (Q : Unit → σ → (L → Bool) → Prop) (b : B) :
    (syncDirtyBuffer b : Prog σ C L B Unit).Disciplined mx intr rank Q s h ↔ Q () s h := Iff.rfl
@[simp] theorem disciplined_mutexLockInterruptible (Q : Bool → σ → (L → Bool) → Prop) (c : C) :
    (mutexLockInterruptible c : Prog σ C L B Bool).Disciplined mx intr rank Q s h ↔
      if intr c then Q true s h
      else h (mx c) = false ∧ (∀ l, h l = true → rank l < rank (mx c)) ∧
        Q false s (Function.update h (mx c) true) := Iff.rfl
@[simp] theorem disciplined_mutexUnlock (Q : Unit → σ → (L → Bool) → Prop) (l : L) :
    (mutexUnlock l : Prog σ C L B Unit).Disciplined mx intr rank Q s h ↔
      h l = true ∧ Q () s (Function.update h l false) := Iff.rfl

end

variable {mx intr}

theorem Disciplined.mono {rank : L → ℕ} {Q Q' : α → σ → (L → Bool) → Prop}
    (hQ : ∀ a s h, Q a s h → Q' a s h) {p : Prog σ C L B α} {s : σ} {h : L → Bool}
    (hp : p.Disciplined mx intr rank Q s h) : p.Disciplined mx intr rank Q' s h := by
  induction p generalizing s h with
  | ret a => exact hQ _ _ _ hp
  | step f k ih => exact ih s hp
  | mark b k ih => exact ih hp
  | sync b k ih => exact ih hp
  | lock c k ih =>
    simp only [Disciplined] at hp ⊢
    split_ifs at hp ⊢
    · exact ih true hp
    · exact ⟨hp.1, hp.2.1, ih false hp.2.2⟩
  | unlock l k ih => exact ⟨hp.1, ih hp.2⟩

/-- A program with properly nested mutex operations returns. -/
theorem Disciplined.returns {rank : L → ℕ} {Q : α → σ → (L → Bool) → Prop}
    {p : Prog σ C L B α} {s : σ} {h : L → Bool} (hp : p.Disciplined mx intr rank Q s h) :
    ∃ a s' h', p.run mx intr s h = some (a, s', h') ∧ Q a s' h' := by
  induction p generalizing s h with
  | ret a => exact ⟨a, s, h, rfl, hp⟩
  | step f k ih => exact ih s hp
  | mark b k ih => exact ih hp
  | sync b k ih => exact ih hp
  | lock c k ih =>
    simp only [Disciplined] at hp
    simp only [run]
    split_ifs at hp ⊢ with hc hh
    · exact ih true hp
    · rw [hp.1] at hh
      simp at hh
    · exact ih false hp.2.2
  | unlock l k ih => exact ih hp.2

/-- With no attempt interrupted, a program that returns does what `exec` says. -/
theorem run_exec {p : Prog σ C L B α} {s : σ} {h : L → Bool} {r : α × σ × (L → Bool)}
    (hr : p.run mx (fun _ => false) s h = some r) : (r.1, r.2.1) = p.exec s := by
  induction p generalizing s h with
  | ret a => cases hr; rfl
  | step f k ih => exact ih s hr
  | mark b k ih => exact ih hr
  | sync b k ih => exact ih hr
  | lock c k ih =>
    simp only [run, Bool.false_eq_true, if_false] at hr
    split_ifs at hr
    exact ih false hr
  | unlock l k ih => exact ih hr

end

end Prog
