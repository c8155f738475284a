/-
  brock — the device of `c6_io` (and of `c4`, where it is the same), on which
  reads and writes wait for each other.

  A task is in no call or waits in one; what a call does before and after its wait
  is one step.  `wait_event_interruptible` is left when its condition holds, or
  because of a signal, which it looks for after the condition; its result is not
  looked at.  `alternates_iff`: writes and reads succeed in turn in those runs in
  which no wait is left because of a signal.
-/
import KernelLinux.Lib.Run
import Mathlib.Data.List.Chain
import Mathlib.Logic.Function.Basic

namespace Brock

/-- The two entry points of the device. -/
inductive Op where
  | read
  | write
  deriving DecidableEq

/-- Error codes, returned negated in C. -/
inductive Errno where
  | eagain
  deriving DecidableEq

/-- What a call returns. -/
structure Ret where
  op : Op
  value : Except Errno ℕ

structure State where
  canReadFlag : Bool
  canWriteFlag : Bool
  /-- `waitQuene.canRead` -/
  canRead : Bool
  /-- `waitQuene.canWrite` -/
  canWrite : Bool
  /-- the call a task waits in, and its `size` -/
  waiting : ℕ → Option (Op × ℕ)

/-- The state after `brock_init`. -/
def brockInit : State := ⟨false, true, false, true, fun _ => none⟩

namespace State
variable (s : State)

/-- The flag that the call tests first. -/
def flag : Op → Bool
  | .read => s.canReadFlag
  | .write => s.canWriteFlag

/-- The condition that the call waits for. -/
def condition : Op → Bool
  | .read => s.canRead
  | .write => s.canWrite

/-- `brock_read` behind its wait. -/
def readBody : State × Ret :=
  ({ s with canRead := false, canReadFlag := false, canWriteFlag := true, canWrite := true },
    ⟨.read, .ok 0⟩)

/-- `brock_write` behind its wait. -/
def writeBody (size : ℕ) : State × Ret :=
  ({ s with canWriteFlag := false, canReadFlag := true, canWrite := false, canRead := true },
    ⟨.write, .ok size⟩)

/-- A call behind its wait. -/
def body (op : Op) (size : ℕ) : State × Ret :=
  match op with
  | .read => s.readBody
  | .write => s.writeBody size

/-- The call of the task `t` up to its wait, or to its end. -/
def enter (t : ℕ) (op : Op) (size : ℕ) (nonblock : Bool) : State × Option Ret :=
  if s.flag op = false then
    if nonblock then (s, some ⟨op, .error .eagain⟩)
    else if s.condition op then ((s.body op size).1, some (s.body op size).2)
    else ({ s with waiting := Function.update s.waiting t (some (op, size)) }, none)
  else ((s.body op size).1, some (s.body op size).2)

/-- `brock_read` -/
def brockRead (t size : ℕ) (nonblock : Bool) : State × Option Ret := s.enter t .read size nonblock

/-- `brock_write` -/
def brockWrite (t size : ℕ) (nonblock : Bool) : State × Option Ret := s.enter t .write size nonblock

/-- The task `t` has left its wait. -/
def resume (t : ℕ) (op : Op) (size : ℕ) : State × Option Ret :=
  let r := { s with waiting := Function.update s.waiting t none }.body op size
  (r.1, some r.2)

end State

/-- What may happen: a task begins a call, or leaves its wait. -/
inductive Event where
  | read (t size : ℕ) (nonblock : Bool)
  | write (t size : ℕ) (nonblock : Bool)
  /-- the condition holds -/
  | woken (t : ℕ)
  /-- a signal is pending -/
  | signal (t : ℕ)

/-- The state after an event, and what a call returned at it. -/
def State.step (s : State) : Event → Option (State × Option Ret)
  | .read t size nonblock => if s.waiting t = none then some (s.brockRead t size nonblock) else none
  | .write t size nonblock => if s.waiting t = none then some (s.brockWrite t size nonblock) else none
  | .woken t => match s.waiting t with
    | some (op, size) => if s.condition op then some (s.resume t op size) else none
    | none => none
  | .signal t => match s.waiting t with
    | some (op, size) => if s.condition op then none else some (s.resume t op size)
    | none => none

/-- An event, and what a call returned at it. -/
abbrev Label := Event × Option Ret

/-- The steps of the device. -/
def Step (s : State) (l : Label) (t : State) : Prop := s.step l.1 = some (t, l.2)

/-- The call that succeeded. -/
def Label.success : Label → Option Op
  | (_, some ⟨op, .ok _⟩) => some op
  | _ => none

/-- The calls that succeeded, in order. -/
def successes (ls : List Label) : List Op := ls.filterMap Label.success

/-- The first is a write, and no two successive ones are the same. -/
def Alternates (ops : List Op) : Prop := ops.head? ≠ some .read ∧ ops.IsChain (· ≠ ·)

/-- A wait is left because of a signal. -/
def Event.isSignal : Event → Bool
  | .signal _ => true
  | _ => false

/-! ## Whose turn it is -/

/-- Only `turn` may succeed without a wait, and only its wait has ended. -/
def Turn (turn : Op) (s : State) : Prop :=
  ∀ op, s.flag op = decide (op = turn) ∧ s.condition op = decide (op = turn)

def Op.other : Op → Op
  | .read => .write
  | .write => .read

/-- Which call is to succeed next. -/
def next (ops : List Op) : Op := (ops.getLast?.map Op.other).getD .write

theorem turn_init : Turn .write brockInit := by
  rintro (- | -) <;> decide

/-- After a call it is the turn of the other. -/
theorem turn_body (s : State) (op : Op) (size : ℕ) : Turn op.other (s.body op size).1 := by
  cases op
  · rintro (- | -) <;> exact ⟨rfl, rfl⟩
  · rintro (- | -) <;> exact ⟨rfl, rfl⟩

@[simp] theorem next_append (ops : List Op) (op : Op) : next (ops ++ [op]) = op.other := by simp [next]

theorem Op.ne_iff {op op' : Op} : op ≠ op' ↔ op' = op.other := by
  cases op <;> cases op' <;> decide

theorem alternates_append {ops : List Op} {op : Op} :
    Alternates (ops ++ [op]) ↔ Alternates ops ∧ op = next ops := by
  rcases List.eq_nil_or_concat' ops with rfl | ⟨ops, last, rfl⟩
  · cases op <;> simp [Alternates, next]
  · have hhead : ((ops ++ [last]) ++ [op]).head? = (ops ++ [last]).head? := by
      cases ops <;> rfl
    have hchain : ((ops ++ [last]) ++ [op]).IsChain (· ≠ ·) ↔
        (ops ++ [last]).IsChain (· ≠ ·) ∧ op = last.other := by
      rw [List.isChain_append, ← Op.ne_iff]
      simp
    rw [Alternates, Alternates, hhead, hchain, next_append, and_assoc]

@[simp] theorem successes_append (ls : List Label) (l : Label) :
    successes (ls ++ [l]) = successes ls ++ l.success.toList := by
  rw [successes, successes, List.filterMap_append]
  cases h : l.success <;> simp [h]

/-! ## What a step does -/

/-- No call succeeds, and it is still the turn of the same. -/
structure Idles (s : State) (l : Label) (s' : State) : Prop where
  success : l.success = none
  turn : ∀ turn, Turn turn s → Turn turn s'

/-- The call `op` succeeds. -/
structure Succeeds (op : Op) (l : Label) (s' : State) : Prop where
  success : l.success = some op
  turn : Turn op.other s'

section
variable {s s' : State} {r : Option Ret} {t size : ℕ} {op : Op} {nonblock : Bool} {e : Event}

theorem succeeds_body (s : State) (op : Op) (size : ℕ) (e : Event) :
    Succeeds op (e, some (s.body op size).2) (s.body op size).1 := by
  refine ⟨?_, turn_body s op size⟩
  cases op <;> rfl

/-- A call that begins: it fails or waits, or it was its turn. -/
theorem enter_cases (h : s.enter t op size nonblock = (s', r)) :
    Idles s (e, r) s' ∨ Succeeds op (e, r) s' ∧ (s.flag op = true ∨ s.condition op = true) := by
  unfold State.enter at h
  split_ifs at h with hflag hnonblock hcond
  · cases h
    exact Or.inl ⟨rfl, fun _ hturn => hturn⟩
  · cases h
    exact Or.inr ⟨succeeds_body s op size e, Or.inr hcond⟩
  · cases h
    exact Or.inl ⟨rfl, fun _ hturn => hturn⟩
  · cases h
    exact Or.inr ⟨succeeds_body s op size e, Or.inl (by simpa using hflag)⟩

/-- A step at which no wait is left because of a signal: a call succeeds only in its turn. -/
theorem Step.cases_of_not_signal {l : Label} (h : Step s l s') (hl : l.1.isSignal = false) :
    Idles s l s' ∨ ∃ op, Succeeds op l s' ∧ (s.flag op = true ∨ s.condition op = true) := by
  obtain ⟨e, r⟩ := l
  cases e with
  | read t size nonblock =>
    simp only [Step, State.step, Option.ite_none_right_eq_some, Option.some.injEq] at h
    exact (enter_cases h.2).imp id fun h => ⟨_, h⟩
  | write t size nonblock =>
    simp only [Step, State.step, Option.ite_none_right_eq_some, Option.some.injEq] at h
    exact (enter_cases h.2).imp id fun h => ⟨_, h⟩
  | woken t =>
    simp only [Step, State.step] at h
    split at h
    · rename_i op size _
      simp only [Option.ite_none_right_eq_some, Option.some.injEq] at h
      obtain ⟨hcond, hresume⟩ := h
      cases hresume
      exact Or.inr ⟨op, succeeds_body _ op size _, Or.inr hcond⟩
    · cases h
  | signal t => cases hl

/-- A step at which a wait is left because of a signal: the call succeeds out of its turn. -/
theorem Step.cases_of_signal {l : Label} (h : Step s l s') (hl : l.1.isSignal = true) :
    ∃ op, Succeeds op l s' ∧ s.condition op = false := by
  obtain ⟨e, r⟩ := l
  cases e with
  | signal t =>
    simp only [Step, State.step] at h
    split at h
    · rename_i op size _
      simp only [Option.ite_none_left_eq_some, Option.some.injEq] at h
      obtain ⟨hcond, hresume⟩ := h
      cases hresume
      exact ⟨op, succeeds_body _ op size _, by simpa using hcond⟩
    · cases h
  | read | write | woken => cases hl

end

/-! ## Runs -/

/-- What holds as long as no wait is left because of a signal. -/
structure InTurn (ls : List Label) (s : State) : Prop where
  alternates : Alternates (successes ls)
  turn : Turn (next (successes ls)) s

section
variable {ls : List Label} {l : Label} {s s' : State}

theorem InTurn.init : InTurn [] brockInit := ⟨⟨by simp [successes], .nil⟩, turn_init⟩

theorem InTurn.step (h : InTurn ls s) (hstep : Step s l s') (hl : l.1.isSignal = false) :
    InTurn (ls ++ [l]) s' := by
  obtain ⟨halt, hturn⟩ := h
  rcases hstep.cases_of_not_signal hl with ⟨hnone, hsame⟩ | ⟨op, ⟨hsome, hother⟩, hits⟩
  · constructor
    · simpa [hnone] using halt
    · simpa [hnone] using hsame _ hturn
  · have hop : op = next (successes ls) := by
      rcases hits with hflag | hcond
      · simpa [(hturn op).1] using hflag
      · simpa [(hturn op).2] using hcond
    constructor
    · rw [successes_append, hsome]
      exact alternates_append.2 ⟨halt, hop⟩
    · simpa [hsome] using hother

theorem InTurn.not_alternates (h : InTurn ls s) (hstep : Step s l s') (hl : l.1.isSignal = true) :
    ¬ Alternates (successes (ls ++ [l])) := by
  obtain ⟨op, ⟨hsome, -⟩, hcond⟩ := hstep.cases_of_signal hl
  intro halt
  rw [successes_append, hsome] at halt
  rw [(h.turn op).2, decide_eq_false_iff_not] at hcond
  exact hcond (alternates_append.1 halt).2

theorem not_alternates_append (h : ¬ Alternates (successes ls)) :
    ¬ Alternates (successes (ls ++ [l])) := by
  rw [successes_append]
  cases l.success with
  | none => simpa using h
  | some op => exact fun halt => h (alternates_append.1 halt).1

end

/-- **Writes and reads succeed in turn** in exactly those runs in which no wait is left because of
    a signal. -/
theorem alternates_iff {ls : List Label} {s : State} (h : Run Step brockInit ls s) :
    Alternates (successes ls) ↔ ∀ l ∈ ls, l.1.isSignal = false := by
  have hgood := h.good_iff (I := InTurn) (P := fun ls _ => Alternates (successes ls)) InTurn.init
    (fun _ _ h => h.alternates) (fun _ _ _ _ h hstep hl => h.step hstep hl)
    (fun _ _ _ _ h hstep hl => h.not_alternates hstep (by simpa using hl))
    (fun _ _ _ _ h _ => not_alternates_append h)
  rw [hgood, Run.and_iff]
  exact and_iff_right h

theorem alternates_iff_two : Alternates (successes
      [(.write 0 5 false, some ⟨.write, .ok 5⟩), (.read 1 5 true, some ⟨.read, .ok 0⟩)]) ↔
    ∀ l ∈ ([(.write 0 5 false, some ⟨.write, .ok 5⟩), (.read 1 5 true, some ⟨.read, .ok 0⟩)] :
      List Label), l.1.isSignal = false := by
  have hwrite : Step brockInit (.write 0 5 false, some ⟨.write, .ok 5⟩) (brockInit.writeBody 5).1 := rfl
  have hread : Step (brockInit.writeBody 5).1 (.read 1 5 true, some ⟨.read, .ok 0⟩)
    (brockInit.writeBody 5).1.readBody.1 := rfl
  exact alternates_iff ((Run.single hwrite).snoc hread)

/-- A task waits in `brock_read`. -/
def readWaits : State := { brockInit with waiting := Function.update brockInit.waiting 0 (some (.read, 5)) }

/-- The read of a task that gets a signal succeeds before any write. -/
theorem not_alternates_signal : ∃ s, Run Step brockInit
    [(.read 0 5 false, none), (.signal 0, some ⟨.read, .ok 0⟩)] s ∧
    ¬ Alternates (successes [(.read 0 5 false, none), (.signal 0, some ⟨.read, .ok 0⟩)]) := by
  have hread : Step brockInit (.read 0 5 false, none) readWaits := rfl
  have hsignal : Step readWaits (.signal 0, some ⟨.read, .ok 0⟩)
    { readWaits with waiting := Function.update readWaits.waiting 0 none }.readBody.1 := rfl
  refine ⟨_, (Run.single hread).snoc hsignal, ?_⟩
  rintro ⟨hhead, -⟩
  exact hhead rfl

end Brock
