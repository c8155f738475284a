/-
  Queues of elements of any type, as their history shows them.

  A queue sees elements put in at its end, elements taken out at its front, and
  clears.  `history` collects what was put in and taken out since the last clear;
  what was taken out followed by what is left is what was put in (`Run.conserved`).
-/
import KernelLinux.Lib.Run

namespace Queue

variable {α : Type*}

inductive Event (α : Type*) where
  | put (d : List α)
  | got (d : List α)
  | cleared

/-- The content of a queue before and after an event; `none` is no event. -/
inductive Step : List α → Option (Event α) → List α → Prop
  | put (q d : List α) : Step q (some (.put d)) (q ++ d)
  | got (d q : List α) : Step (d ++ q) (some (.got d)) q
  | cleared (q : List α) : Step q (some .cleared) []
  | none (q : List α) : Step q none q

/-- What was put in and taken out since the last clear. -/
structure History (α : Type*) where
  accepted : List α
  delivered : List α

def History.record (h : History α) : Option (Event α) → History α
  | some (.put d) => ⟨h.accepted ++ d, h.delivered⟩
  | some (.got d) => ⟨h.accepted, h.delivered ++ d⟩
  | some .cleared => ⟨[], []⟩
  | none => h

def history (es : List (Option (Event α))) : History α := es.foldl History.record ⟨[], []⟩

theorem history_snoc (es : List (Option (Event α))) (e : Option (Event α)) :
    history (es ++ [e]) = (history es).record e := by
  simp [history]

/-- **Nothing is lost, duplicated or reordered.** -/
theorem conserved {q : List α} {es : List (Option (Event α))} (h : Run Step [] es q) :
    (history es).delivered ++ q = (history es).accepted := by
  generalize hq : ([] : List α) = q₀ at h
  induction h with
  | nil => subst hq; rfl
  | snoc _ hs ih =>
    rw [history_snoc]
    cases hs with
    | put q d => simp only [History.record, ← ih, List.append_assoc]
    | got d q => simp only [History.record, ← ih, List.append_assoc]
    | cleared q => rfl
    | none q => exact ih

end Queue
