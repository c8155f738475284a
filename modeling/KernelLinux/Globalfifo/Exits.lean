/-
  globalfifo — the exits of a transfer.

  `globalfifo_read` and `globalfifo_write` leave by `out`, with the mutex, or by `out2`,
  without it, after any number of waits.  Next to the device a log is kept for each
  task of what its call has done with the mutex and the wait queues, and whether a step
  of the call has changed the content of the FIFO; `Follows` says what the log is at each
  place of the code.  So every exit is clean (`transfer_clean`).
-/
import KernelLinux.Globalfifo.Fifo

namespace Globalfifo

open Bytes Queue

@[simp] theorem State.leave_self (s : State) (t : ℕ) : (s.leave t).task t = .idle :=
  Function.update_self _ _ _

/-- What a task does with the mutex and the wait queues. -/
inductive Op where
  | lock
  | unlock
  | addWaitQueue (q : WaitQueue)
  | removeWaitQueue (q : WaitQueue)
  deriving DecidableEq

def Op.onMutex : Op → Bool
  | lock | unlock => true
  | addWaitQueue _ | removeWaitQueue _ => false

/-- The log of a task's last call. -/
structure CallLog where
  call : Option Call
  ops : List Op
  /-- a step of the call has changed the content -/
  touched : Bool

/-- What a task does from one place to the next. -/
def Pc.ops (l : CallLog) : Pc → Pc → List Op
  | .enter c, .test _ =>
    -- the first `mutex_lock` of the call, or that at the end of the loop
    if l.ops = [] then .lock :: c.queue.toList.map .addWaitQueue else [.lock]
  | .test _, .asleep _ => [.unlock]
  | .out _, .idle => .unlock :: (l.call.bind Call.queue).toList.map .removeWaitQueue
  | .scheduled c, .idle => c.queue.toList.map .removeWaitQueue
  | _, _ => []

/-- What the call returns, if it does between these places. -/
def Pc.result : Pc → Pc → Option (Except Errno ℕ)
  | .enter (.ioctl _), .idle => some (.error .einval)
  | .out r, .idle => some r
  | .scheduled _, .idle => some (.error .erestartsys)
  | _, _ => none

/-- The log of task `t` after its step from `s` to `s'`. -/
def CallLog.after (l : CallLog) (t : ℕ) (s : State) (a : Act) (s' : State) : CallLog :=
  match a with
  | .call c => ⟨some c, [], false⟩
  | .run => ⟨l.call, l.ops ++ (s.task t).ops l (s'.task t), l.touched || s.content != s'.content⟩
  | .signal => l

/-- The device with the logs. -/
structure Traced where
  state : State
  log : ℕ → CallLog

structure Traced.Step (x : Traced) (l : Label) (x' : Traced) : Prop where
  step : Globalfifo.Step x.state l x'.state
  log : x'.log =
    Function.update x.log l.task ((x.log l.task).after l.task x.state l.act x'.state)

def Traced.init : Traced := ⟨Globalfifo.init, fun _ => ⟨none, [], false⟩⟩

theorem Traced.step_of {x : Traced} {l : Label} {s' : State} (h : Globalfifo.Step x.state l s') :
    ∃ x', x.Step l x' ∧ x'.state = s' := by
  let log := Function.update x.log l.task ((x.log l.task).after l.task x.state l.act s')
  exact ⟨⟨s', log⟩, ⟨h, rfl⟩, rfl⟩

/-- Every run of the device has its logs. -/
theorem run_traced {s : State} {ls : List Label} (h : Run Step init ls s) :
    ∃ x, Run Traced.Step Traced.init ls x ∧ x.state = s := by
  have hstep : ∀ s l s' (x : Traced), x.state = s → Step s l s' →
      ∃ x', Traced.Step x (id l) x' ∧ x'.state = s' := by
    rintro _ l s' x rfl hl
    exact Traced.step_of hl
  obtain ⟨x, hx, hs⟩ := Run.simulation id hstep (a := Traced.init) rfl h
  rw [List.map_id] at hx
  exact ⟨x, hx, hs⟩

/-! ## The log at each place -/

/-- The log at the condition of the loop, after `k` waits. -/
def looping (q : Option WaitQueue) (k : ℕ) : List Op :=
  .lock :: q.toList.map .addWaitQueue ++ (List.replicate k [Op.unlock, Op.lock]).flatten

/-- In `schedule`. -/
def waiting (q : Option WaitQueue) (k : ℕ) : List Op := looping q k ++ [.unlock]

theorem waiting_lock (q : Option WaitQueue) (k : ℕ) : waiting q k ++ [.lock] = looping q (k + 1) := by
  simp [waiting, looping, List.replicate_succ', List.flatten_append]

theorem waiting_ne (q : Option WaitQueue) (k : ℕ) : waiting q k ≠ [] := by
  simp [waiting]

/-- The call of the log, at the condition of the loop. -/
def CallLog.InLoop (l : CallLog) (c : Call) : Prop :=
  l.call = some c ∧ ∃ k, l.ops = looping c.queue k

/-- In `schedule`, not having changed the content. -/
def CallLog.Waiting (l : CallLog) (c : Call) : Prop :=
  l.call = some c ∧ l.touched = false ∧ ∃ k, l.ops = waiting c.queue k

/-- The log of a task at a place. -/
def Follows (l : CallLog) : Pc → Prop
  | .idle => True
  | .enter c => l.Waiting c ∨ l = ⟨some c, [], false⟩
  | .test c | .copy c => l.InLoop c ∧ l.touched = false
  | .wake _ _ => ∃ c, l.InLoop c
  | .out r => (∃ c, l.InLoop c) ∧ ∀ e, r = .error e → l.touched = false
  | .asleep c | .scheduled c => l.Waiting c

/-- A step leaves the place of another task, or wakes it. -/
theorem Trans.others {s s' : State} {t u : ℕ} {a : Act} {e : Option (Event UInt8)}
    (h : Trans s t a e s') (hu : u ≠ t) :
    s'.task u = s.task u ∨ ∃ c, s.task u = .asleep c ∧ s'.task u = .scheduled c := by
  have hup : ∀ p : Pc, Function.update s.task t p u = s.task u := by
    intro p
    exact Function.update_of_ne hu p s.task
  cases h with
  | signal => exact Or.inl rfl
  | call _ | badCmd _ _ | lock _ _ | again _ | sleep _ _ | pass _ _ | clear _ | unlock _
  | wakened _ _ | interrupted _ | retry _ => exact Or.inl (hup _)
  | @read count room _ _ =>
    rcases s.readBody_cases t count room with h | ⟨n, -, h⟩ <;> rw [h]
    all_goals exact Or.inl (hup _)
  | @write count buf _ _ =>
    rcases s.writeBody_cases t count buf with ⟨d, h⟩ | ⟨d, -, h⟩ <;> rw [h]
    all_goals exact Or.inl (hup _)
  | @wake q n _ =>
    rw [State.goto_ne _ hu]
    simp only [State.wakeUp]
    cases hp : s.task u with
    | asleep c =>
      dsimp only
      split_ifs
      · exact Or.inr ⟨c, rfl, rfl⟩
      · exact Or.inl rfl
    | _ => exact Or.inl rfl

/-- The log after a step that leaves the content. -/
theorem after_run {l : CallLog} {t : ℕ} {s s' : State} (h : s'.content = s.content) :
    l.after t s .run s' = ⟨l.call, l.ops ++ (s.task t).ops l (s'.task t), l.touched⟩ := by
  simp [CallLog.after, h]

/-- A step of the task itself. -/
theorem Trans.follows {s s' : State} {t : ℕ} {a : Act} {e : Option (Event UInt8)} {l : CallLog}
    (h : Trans s t a e s') (hl : Follows l (s.task t)) :
    Follows (l.after t s a s') (s'.task t) := by
  cases h with
  | call hp =>
    rw [State.goto_self]
    exact Or.inr rfl
  | signal => exact hl
  | badCmd hp _ =>
    rw [State.leave_self]
    trivial
  | @lock c hp hm =>
    rw [hp] at hl
    rw [after_run (by rfl), hp, State.goto_self]
    rcases hl with ⟨hc, ht, k, hk⟩ | rfl
    · refine ⟨⟨hc, k + 1, ?_⟩, ht⟩
      simp only [Pc.ops, hk, waiting_ne, if_false]
      exact waiting_lock _ _
    · exact ⟨⟨rfl, 0, by simp [Pc.ops, looping]⟩, rfl⟩
  | again hp =>
    rw [hp] at hl
    rw [after_run (by rfl), hp, State.goto_self]
    exact ⟨⟨_, hl.1.1, by simpa [Pc.ops] using hl.1.2⟩, fun _ _ => hl.2⟩
  | sleep hp _ =>
    rw [hp] at hl
    rw [after_run (by rfl), hp, State.goto_self]
    obtain ⟨⟨hc, k, hk⟩, ht⟩ := hl
    exact ⟨hc, ht, k, by rw [hk]; rfl⟩
  | pass hp _ =>
    rw [hp] at hl
    rw [after_run (by rfl), hp, State.goto_self]
    exact ⟨⟨hl.1.1, by simpa [Pc.ops] using hl.1.2⟩, hl.2⟩
  | @read count room b hp =>
    rw [hp] at hl
    rcases s.readBody_cases t count room with h | ⟨n, -, h⟩ <;> rw [h]
    · rw [after_run (by rfl), hp, State.goto_self]
      exact ⟨⟨_, hl.1.1, by simpa [Pc.ops] using hl.1.2⟩, fun _ _ => hl.2⟩
    · rw [State.goto_self]
      exact ⟨_, hl.1.1, by simpa [CallLog.after, hp, Pc.ops] using hl.1.2⟩
  | @write count buf b hp =>
    rw [hp] at hl
    rcases s.writeBody_cases t count buf with ⟨d, h⟩ | ⟨d, -, h⟩ <;> rw [h]
    · -- the bytes that arrived are behind the content
      have hkept : (s.mem.write s.currentLen d).read 0 s.currentLen = s.content :=
        Block.read_write_disjoint (Or.inl (by omega))
      rw [after_run (by exact hkept), hp, State.goto_self]
      exact ⟨⟨_, hl.1.1, by simpa [Pc.ops] using hl.1.2⟩, fun _ _ => hl.2⟩
    · rw [State.goto_self]
      exact ⟨_, hl.1.1, by simpa [CallLog.after, hp, Pc.ops] using hl.1.2⟩
  | clear hp =>
    rw [hp] at hl
    rw [State.clearBody_self]
    exact ⟨⟨_, hl.1.1, by simpa [CallLog.after, hp, Pc.ops] using hl.1.2⟩, by simp⟩
  | wake hp =>
    rw [hp] at hl
    rw [after_run (by rfl), hp, State.goto_self]
    obtain ⟨c, hc, hk⟩ := hl
    exact ⟨⟨c, hc, by simpa [Pc.ops] using hk⟩, by simp⟩
  | unlock hp | interrupted hp =>
    rw [State.leave_self]
    trivial
  | wakened hp _ =>
    rw [hp] at hl
    rw [after_run (by rfl), hp, State.goto_self]
    exact ⟨hl.1, hl.2.1, by simpa [Pc.ops] using hl.2.2⟩
  | retry hp =>
    rw [hp] at hl
    rw [after_run (by rfl), hp, State.goto_self]
    exact Or.inl ⟨hl.1, hl.2.1, by simpa [Pc.ops] using hl.2.2⟩

/-- **The logs follow the code.** -/
theorem follows {x : Traced} {ls : List Label} (h : Run Traced.Step Traced.init ls x) (t : ℕ) :
    Follows (x.log t) (x.state.task t) := by
  refine Run.inv (I := fun x => ∀ t, Follows (x.log t) (x.state.task t)) ?_
    (fun _ => show Follows _ .idle from trivial) h t
  intro x l x' hx hl u
  have htrans := step_trans hl.step
  rw [hl.log]
  by_cases hu : u = l.task
  · rw [hu, Function.update_self]
    exact htrans.follows (hx l.task)
  · rw [Function.update_of_ne hu]
    rcases htrans.others hu with hp | ⟨c, hp, hp'⟩
    · rw [hp]
      exact hx u
    · have := hx u
      rw [hp] at this
      rw [hp']
      exact this

theorem enter_ops (l : CallLog) (c : Call) :
    ∃ os, (Pc.enter c).ops l (.test c) = .lock :: os ∧ .unlock ∉ os := by
  unfold Pc.ops
  split_ifs
  · exact ⟨_, rfl, by simp⟩
  · exact ⟨_, rfl, by simp⟩

/-- What the log says of the mutex is what happens to it. -/
theorem Trans.mutex {s s' : State} {t : ℕ} {e : Option (Event UInt8)} (h : Trans s t .run e s')
    (ho : Owned s) (l : CallLog) :
    (s'.mutex = if .lock ∈ (s.task t).ops l (s'.task t) then some t
      else if .unlock ∈ (s.task t).ops l (s'.task t) then none else s.mutex) ∧
    (.lock ∈ (s.task t).ops l (s'.task t) → s.mutex = none) ∧
    (.unlock ∈ (s.task t).ops l (s'.task t) → s.mutex = some t) := by
  have hheld : (s.task t).holds = true → s.mutex = some t := (ho t).2
  cases h with
  | badCmd hp _ =>
    rw [hp, State.leave_self]
    simp [Pc.ops, State.leave]
  | @lock c hp hm =>
    obtain ⟨os, hos, hno⟩ := enter_ops l c
    rw [hp, State.goto_self, hos]
    simp [hm, State.goto, hno]
  | sleep hp _ =>
    rw [hp] at hheld ⊢
    rw [State.goto_self]
    simp [Pc.ops, State.goto, hheld rfl]
  | unlock hp =>
    rw [hp] at hheld ⊢
    rw [State.leave_self]
    simp [Pc.ops, State.leave, hheld rfl]
  | interrupted hp =>
    rw [hp, State.leave_self]
    simp [Pc.ops, State.leave]
  | @read count room b hp =>
    rcases s.readBody_cases t count room with h | ⟨n, -, h⟩ <;> rw [h, hp, State.goto_self] <;>
      simp [Pc.ops, State.goto]
  | @write count buf b hp =>
    rcases s.writeBody_cases t count buf with ⟨d, h⟩ | ⟨d, -, h⟩ <;> rw [h, hp, State.goto_self] <;>
      simp [Pc.ops, State.goto]
  | clear hp =>
    rw [hp, State.clearBody_self]
    simp [Pc.ops, State.clearBody, State.goto]
  | again hp | pass hp _ | wakened hp _ | retry hp =>
    rw [hp, State.goto_self]
    simp [Pc.ops, State.goto]
  | wake hp =>
    rw [hp, State.goto_self]
    simp [Pc.ops, State.goto, State.wakeUp]

/-! ## The exits -/

/-- The log of a transfer that has returned.  The mutex was locked and unlocked in turn, beginning
    with a lock and ending with an unlock.  The wait entry was put on its queue once, after the first
    lock, and removed once, at the end. -/
structure Clean (q : WaitQueue) (ops : List Op) : Prop where
  mutex : ∃ k, ops.filter Op.onMutex = (List.replicate (k + 1) [Op.lock, Op.unlock]).flatten
  wait : (ops.filter fun o => !o.onMutex) = [.addWaitQueue q, .removeWaitQueue q]
  entry : [.lock, .addWaitQueue q] <+: ops
  exit : [.unlock, .removeWaitQueue q] <:+ ops

theorem filter_looping (q : WaitQueue) (k : ℕ) :
    (looping (some q) k).filter Op.onMutex ++ [Op.unlock] =
      (List.replicate (k + 1) [Op.lock, Op.unlock]).flatten ∧
    ((looping (some q) k).filter fun o => !o.onMutex) = [.addWaitQueue q] := by
  induction k with
  | zero => exact ⟨rfl, rfl⟩
  | succ k ih =>
    obtain ⟨ih₁, ih₂⟩ := ih
    rw [← waiting_lock, waiting, List.filter_append, List.filter_append, List.filter_append,
      List.filter_append, List.replicate_succ', List.flatten_append, ← ih₁, ih₂]
    simp only [List.append_assoc]
    exact ⟨rfl, rfl⟩

/-- Both exits leave the same log. -/
theorem clean_exit (q : WaitQueue) (k : ℕ) :
    Clean q (looping (some q) k ++ [.unlock, .removeWaitQueue q]) := by
  obtain ⟨h₁, h₂⟩ := filter_looping q k
  refine ⟨⟨k, ?_⟩, ?_, ?_, List.suffix_append _ _⟩
  · rw [List.filter_append, ← h₁]
    rfl
  · rw [List.filter_append, h₂]
    rfl
  · exact ⟨_, by simp [looping]; rfl⟩

theorem result_cases {p p' : Pc} {r : Except Errno ℕ} (h : p.result p' = some r) :
    p' = .idle ∧ ((∃ cmd, p = .enter (.ioctl cmd)) ∨ p = .out r ∨
      ∃ c, p = .scheduled c ∧ r = .error .erestartsys) := by
  unfold Pc.result at h
  split at h
  · exact ⟨rfl, Or.inl ⟨_, rfl⟩⟩
  · obtain rfl := Option.some.inj h
    exact ⟨rfl, Or.inr (Or.inl rfl)⟩
  · obtain rfl := Option.some.inj h
    exact ⟨rfl, Or.inr (Or.inr ⟨_, rfl, rfl⟩)⟩
  · simp at h

/-- A call ends with a result, and its last step leaves the content. -/
theorem Trans.exit {s s' : State} {t : ℕ} {e : Option (Event UInt8)} (h : Trans s t .run e s')
    (hidle : s'.task t = .idle) :
    ((s.task t).result (s'.task t)).isSome = true ∧ s'.content = s.content := by
  cases h with
  | badCmd hp _ => exact ⟨by rw [hp, hidle]; rfl, rfl⟩
  | unlock hp => exact ⟨by rw [hp, hidle]; rfl, rfl⟩
  | interrupted hp => exact ⟨by rw [hp, hidle]; rfl, rfl⟩
  | @read count room b hp =>
    rcases s.readBody_cases t count room with h | ⟨n, -, h⟩ <;> rw [h] at hidle <;> simp at hidle
  | @write count buf b hp =>
    rcases s.writeBody_cases t count buf with ⟨d, h⟩ | ⟨d, -, h⟩ <;> rw [h] at hidle <;> simp at hidle
  | lock _ _ | again _ | sleep _ _ | pass _ _ | clear _ | wake _ | wakened _ _ | retry _ =>
    simp at hidle

/-- **Every exit of a transfer is clean.**  When a read or write returns, the mutex and its wait entry
    have been handled as they should, and with a negative result no step of the call has changed
    `current_len` or the bytes below it. -/
theorem transfer_clean {x x' : Traced} {ls : List Label} {l : Label} {c : Call} {q : WaitQueue}
    {r : Except Errno ℕ} (h : Run Traced.Step Traced.init ls x) (hstep : x.Step l x')
    (hrun : l.act = .run) (hc : (x.log l.task).call = some c) (hq : c.queue = some q)
    (hr : (x.state.task l.task).result (x'.state.task l.task) = some r) :
    Clean q (x'.log l.task).ops ∧ ∀ e, r = .error e → (x'.log l.task).touched = false := by
  obtain ⟨hidle, hplace⟩ := result_cases hr
  have hfollows := follows h l.task
  have hexit := (hrun ▸ step_trans hstep.step : Trans _ _ .run _ _).exit hidle
  rw [hstep.log, Function.update_self, hrun, after_run hexit.2, hidle]
  rcases hplace with ⟨cmd, hp⟩ | hp | ⟨c', hp, rfl⟩
  · -- an `ioctl` is no transfer
    rw [hp] at hfollows
    obtain rfl : c = .ioctl cmd := by
      rcases hfollows with hw | hw
      · exact Option.some.inj (hc.symm.trans hw.1)
      · rw [hw] at hc
        exact (Option.some.inj hc).symm
    simp [Call.queue] at hq
  · rw [hp] at hfollows ⊢
    obtain ⟨⟨c', hc', k, hk⟩, ht⟩ := hfollows
    obtain rfl := Option.some.inj (hc.symm.trans hc')
    refine ⟨?_, ht⟩
    simp only [Pc.ops, hk, hc, hq, Option.bind_some, Option.toList_some, List.map_singleton]
    exact clean_exit q k
  · rw [hp] at hfollows ⊢
    obtain ⟨hc', ht, k, hk⟩ := hfollows
    obtain rfl := Option.some.inj (hc.symm.trans hc')
    refine ⟨?_, fun _ _ => ht⟩
    simp only [Pc.ops, hk, hq, waiting, Option.toList_some, List.map_singleton, List.append_assoc]
    exact clean_exit q k

/-- A reader that sleeps on the empty device until it gets a signal. -/
def interruptedReader : List (ℕ × Act) :=
  [(0, .call (.read 1 1 false)), (0, .run), (0, .run), (0, .signal), (0, .run)]

/-- `transfer_clean` for its last step. -/
theorem interruptedReader_clean : ∃ ls x x', Run Traced.Step Traced.init ls x ∧
    x.Step ⟨0, .run, none⟩ x' ∧ x.state.task 0 = .scheduled (.read 1 1 false) ∧
    Clean .rWait (x'.log 0).ops ∧ (x'.log 0).touched = false := by
  obtain ⟨x, hx, hs⟩ := run_traced (play_run init interruptedReader)
  have hp : x.state.task 0 = .scheduled (.read 1 1 false) := by
    rw [hs]
    rfl
  have hleave : Step x.state ⟨0, .run, none⟩ (x.state.leave 0) := by
    rw [hs]
    rfl
  obtain ⟨x', hlast, hs'⟩ := Traced.step_of hleave
  have hidle : x'.state.task 0 = .idle := by rw [hs', State.leave_self]
  have hfollows := follows hx 0
  rw [hp] at hfollows
  have H := transfer_clean hx hlast rfl hfollows.1 rfl (by rw [hp, hidle]; rfl)
  exact ⟨_, x, x', hx, hlast, hp, H.1, H.2 _ rfl⟩

end Globalfifo
