/-
  globalfifo — the device and the tasks that use it (`ch12/globalfifo.c`; the
  entry points of `ch8` are the same but for the notification of `fasync`).

  A task is at one place of `globalfifo_read`, `globalfifo_write` or
  `globalfifo_ioctl` (`Pc`); `step` lets one task go on to its next place, start a
  call or get a signal.  What a task does between two places is atomic: each
  place but those before `mutex_lock` and in `schedule` is one where the task
  holds the mutex.  `Trans` lists the steps, and `step_trans` says that there are
  no others.
-/
import KernelLinux.Lib.Bytes
import KernelLinux.Lib.Queue
import Mathlib.Logic.Function.Basic

namespace Globalfifo

open Bytes Queue

def GLOBALFIFO_SIZE : ℕ := 0x1000
def FIFO_CLEAR : ℕ := 0x1

/-- Error codes, returned negated in C. -/
inductive Errno where
  | eagain | erestartsys | efault | einval
  deriving DecidableEq

/-- A call and its arguments.  Of the user buffer, `room` bytes can be written, or the bytes `buf`
    can be read. -/
inductive Call where
  | read (count room : ℕ) (nonblock : Bool)
  | write (count : ℕ) (buf : List UInt8) (nonblock : Bool)
  | ioctl (cmd : ℕ)

/-- The wait queues `r_wait` and `w_wait`. -/
inductive WaitQueue where
  | rWait
  | wWait
  deriving DecidableEq

/-- A place in the code. -/
inductive Pc where
  /-- in no call -/
  | idle
  /-- before `mutex_lock` -/
  | enter (c : Call)
  /-- at the condition of the loop -/
  | test (c : Call)
  /-- past the loop -/
  | copy (c : Call)
  /-- before `wake_up_interruptible` -/
  | wake (q : WaitQueue) (ret : ℕ)
  /-- at `out` -/
  | out (ret : Except Errno ℕ)
  /-- in `schedule`, with state `TASK_INTERRUPTIBLE` -/
  | asleep (c : Call)
  /-- after `schedule` -/
  | scheduled (c : Call)

structure State where
  currentLen : ℕ
  mem : Block
  /-- the task that holds the mutex -/
  mutex : Option ℕ
  task : ℕ → Pc
  /-- the tasks with a pending signal -/
  signal : ℕ → Bool

/-- `O_NONBLOCK` is set. -/
def Call.nonblock : Call → Bool
  | read _ _ b => b
  | write _ _ b => b
  | ioctl _ => false

/-- The condition of the loop. -/
def Call.waits (len : ℕ) : Call → Bool
  | read _ _ _ => len == 0
  | write _ _ _ => len == GLOBALFIFO_SIZE
  | ioctl _ => false

/-- The queue the call waits on. -/
def Call.queue : Call → Option WaitQueue
  | read _ _ _ => some .rWait
  | write _ _ _ => some .wWait
  | ioctl _ => none

namespace State
variable (s : State) (t : ℕ)

def goto (p : Pc) : State := { s with task := Function.update s.task t p }

@[simp] theorem goto_self (p : Pc) : (s.goto t p).task t = p := Function.update_self _ _ _

theorem goto_ne {t u : ℕ} (h : u ≠ t) (p : Pc) : (s.goto t p).task u = s.task u :=
  Function.update_of_ne h _ _

/-- The call returns; pending signals are delivered. -/
def leave : State :=
  { s with
    task := Function.update s.task t .idle
    signal := Function.update s.signal t false }

/-- `wake_up_interruptible` -/
def wakeUp (q : WaitQueue) : State :=
  { s with
    task := fun u => match s.task u with
      | .asleep c => if c.queue = some q then .scheduled c else .asleep c
      | p => p }

/-- `globalfifo_read` past the loop. -/
def readBody (count room : ℕ) : State × Option (Event UInt8) :=
  let n := min count s.currentLen
  if room < n then (s.goto t (.out (.error .efault)), none)
  else
    ({ s with
        mem := s.mem.copyAsc 0 n (s.currentLen - n)
        currentLen := s.currentLen - n }.goto t (.wake .wWait n),
      some (.got (s.mem.read 0 n)))

/-- `globalfifo_write` past the loop. -/
def writeBody (count : ℕ) (buf : List UInt8) : State × Option (Event UInt8) :=
  let n := min count (GLOBALFIFO_SIZE - s.currentLen)
  if buf.length < n then
    ({ s with mem := s.mem.write s.currentLen (copyFromUser buf n) }.goto t (.out (.error .efault)),
      none)
  else
    ({ s with
        mem := s.mem.write s.currentLen (buf.take n)
        currentLen := s.currentLen + n }.goto t (.wake .rWait n),
      some (.put (buf.take n)))

/-- `FIFO_CLEAR` in `globalfifo_ioctl`. -/
def clearBody : State × Option (Event UInt8) :=
  ({ s with
      currentLen := 0
      mem := s.mem.write 0 (List.replicate GLOBALFIFO_SIZE 0) }.goto t (.out (.ok 0)),
    some .cleared)

@[simp] theorem clearBody_self : (s.clearBody t).1.task t = .out (.ok 0) := goto_self _ _ _

theorem clearBody_ne {t u : ℕ} (h : u ≠ t) : (s.clearBody t).1.task u = s.task u :=
  goto_ne _ h _

/-- The task goes on in its call. -/
def run : Option (State × Option (Event UInt8)) :=
  match s.task t with
  | .idle => none
  | .enter (.ioctl cmd) =>
    if cmd ≠ FIFO_CLEAR then some (s.leave t, none)
    else if s.mutex = none then some ({ s with mutex := some t }.goto t (.test (.ioctl cmd)), none)
    else none
  | .enter c =>
    if s.mutex = none then some ({ s with mutex := some t }.goto t (.test c), none) else none
  | .test c =>
    if c.waits s.currentLen then
      if c.nonblock then some (s.goto t (.out (.error .eagain)), none)
      else some ({ s with mutex := none }.goto t (.asleep c), none)
    else some (s.goto t (.copy c), none)
  | .copy (.read count room _) => some (s.readBody t count room)
  | .copy (.write count buf _) => some (s.writeBody t count buf)
  | .copy (.ioctl _) => some (s.clearBody t)
  | .wake q n => some ((s.wakeUp q).goto t (.out (.ok n)), none)
  | .out _ => some ({ s with mutex := none }.leave t, none)
  | .asleep c => if s.signal t then some (s.goto t (.scheduled c), none) else none
  | .scheduled c => if s.signal t then some (s.leave t, none) else some (s.goto t (.enter c), none)

end State

/-- What happens to a task. -/
inductive Act where
  | call (c : Call)
  | run
  | signal

/-- One step of task `t`, and the event it is for the queue of bytes. -/
def step (s : State) (t : ℕ) : Act → Option (State × Option (Event UInt8))
  | .call c =>
    match s.task t with
    | .idle => some (s.goto t (.enter c), none)
    | _ => none
  | .run => s.run t
  | .signal => some ({ s with signal := Function.update s.signal t true }, none)

/-- A step in a run. -/
structure Label where
  task : ℕ
  act : Act
  event : Option (Event UInt8)

def Step (s : State) (l : Label) (s' : State) : Prop := step s l.task l.act = some (s', l.event)

/-- The device after its probe, with no task in a call. -/
def init : State := ⟨0, fun _ => 0, none, fun _ => .idle, fun _ => false⟩

/-- The tasks act in the given order; what is not possible is skipped. -/
def play (s : State) : List (ℕ × Act) → State × List Label
  | [] => (s, [])
  | (t, a) :: as =>
    match step s t a with
    | some (s', e) => ((play s' as).1, ⟨t, a, e⟩ :: (play s' as).2)
    | none => play s as

theorem play_run (s : State) (as : List (ℕ × Act)) : Run Step s (play s as).2 (play s as).1 := by
  induction as generalizing s with
  | nil => exact .nil s
  | cons x as ih =>
    obtain ⟨t, a⟩ := x
    unfold play
    split
    · rename_i s' e h
      exact .cons h (ih s')
    · exact ih s

/-! ## The steps -/

/-- The steps of task `t`, by its place. -/
inductive Trans (s : State) (t : ℕ) : Act → Option (Event UInt8) → State → Prop
  | call {c} : s.task t = .idle → Trans s t (.call c) none (s.goto t (.enter c))
  | signal : Trans s t .signal none { s with signal := Function.update s.signal t true }
  | badCmd {cmd} : s.task t = .enter (.ioctl cmd) → cmd ≠ FIFO_CLEAR →
      Trans s t .run none (s.leave t)
  | lock {c} : s.task t = .enter c → s.mutex = none →
      Trans s t .run none ({ s with mutex := some t }.goto t (.test c))
  | again {c} : s.task t = .test c → Trans s t .run none (s.goto t (.out (.error .eagain)))
  | sleep {c} : s.task t = .test c → c.waits s.currentLen = true →
      Trans s t .run none ({ s with mutex := none }.goto t (.asleep c))
  | pass {c} : s.task t = .test c → c.waits s.currentLen = false →
      Trans s t .run none (s.goto t (.copy c))
  | read {count room b} : s.task t = .copy (.read count room b) →
      Trans s t .run (s.readBody t count room).2 (s.readBody t count room).1
  | write {count buf b} : s.task t = .copy (.write count buf b) →
      Trans s t .run (s.writeBody t count buf).2 (s.writeBody t count buf).1
  | clear {cmd} : s.task t = .copy (.ioctl cmd) →
      Trans s t .run (s.clearBody t).2 (s.clearBody t).1
  | wake {q n} : s.task t = .wake q n →
      Trans s t .run none ((s.wakeUp q).goto t (.out (.ok n)))
  | unlock {r} : s.task t = .out r → Trans s t .run none ({ s with mutex := none }.leave t)
  | wakened {c} : s.task t = .asleep c → s.signal t = true →
      Trans s t .run none (s.goto t (.scheduled c))
  | interrupted {c} : s.task t = .scheduled c → Trans s t .run none (s.leave t)
  | retry {c} : s.task t = .scheduled c → Trans s t .run none (s.goto t (.enter c))

theorem run_trans {s s' : State} {t : ℕ} {e : Option (Event UInt8)}
    (h : s.run t = some (s', e)) : Trans s t .run e s' := by
  unfold State.run at h
  split at h
  · simp at h
  · rename_i cmd hp
    split_ifs at h with hc hm
    · obtain ⟨rfl, rfl⟩ := h
      exact .badCmd hp hc
    · obtain ⟨rfl, rfl⟩ := h
      exact .lock hp hm
  · rename_i c _ hp
    split_ifs at h with hm
    obtain ⟨rfl, rfl⟩ := h
    exact .lock hp hm
  · rename_i c hp
    split_ifs at h with hw hb
    · obtain ⟨rfl, rfl⟩ := h
      exact .again hp
    · obtain ⟨rfl, rfl⟩ := h
      exact .sleep hp hw
    · obtain ⟨rfl, rfl⟩ := h
      exact .pass hp (by simpa using hw)
  · rename_i hp
    have h := Option.some.inj h
    obtain rfl : _ = s' := congrArg Prod.fst h
    obtain rfl : _ = e := congrArg Prod.snd h
    exact .read hp
  · rename_i hp
    have h := Option.some.inj h
    obtain rfl : _ = s' := congrArg Prod.fst h
    obtain rfl : _ = e := congrArg Prod.snd h
    exact .write hp
  · rename_i hp
    obtain ⟨rfl, rfl⟩ := h
    exact .clear hp
  · rename_i hp
    obtain ⟨rfl, rfl⟩ := h
    exact .wake hp
  · rename_i hp
    obtain ⟨rfl, rfl⟩ := h
    exact .unlock hp
  · rename_i hp
    split_ifs at h with hs
    obtain ⟨rfl, rfl⟩ := h
    exact .wakened hp hs
  · rename_i hp
    split_ifs at h with hs
    · obtain ⟨rfl, rfl⟩ := h
      exact .interrupted hp
    · obtain ⟨rfl, rfl⟩ := h
      exact .retry hp

/-- **Every step is one of the listed ones.** -/
theorem step_trans {s s' : State} {l : Label} (h : Step s l s') :
    Trans s l.task l.act l.event s' := by
  obtain ⟨t, a, e⟩ := l
  cases a with
  | call c =>
    simp only [Step, step] at h
    split at h
    · rename_i hp
      obtain ⟨rfl, rfl⟩ := h
      exact .call hp
    · simp at h
  | run => exact run_trans h
  | signal =>
    simp only [Step, step, Option.some.injEq, Prod.mk.injEq] at h
    obtain ⟨rfl, rfl⟩ := h
    exact .signal

/-! ## The mutex -/

/-- A task at this place holds the mutex. -/
def Pc.holds : Pc → Bool
  | .test _ | .copy _ | .wake _ _ | .out _ => true
  | .idle | .enter _ | .asleep _ | .scheduled _ => false

/-- The holder of the mutex is the task at a place where it is held. -/
def Owned (s : State) : Prop := ∀ t, s.mutex = some t ↔ (s.task t).holds = true

/-- A step that moves one task, within a section or outside of all, keeps the ownership. -/
theorem Owned.goto {s s' : State} (h : Owned s) {t : ℕ} {p : Pc}
    (hp : p.holds = (s.task t).holds) (hm : s'.mutex = s.mutex)
    (ht : s'.task = Function.update s.task t p) : Owned s' := by
  intro u
  rw [hm, ht]
  by_cases hu : u = t
  · rw [hu, Function.update_self, hp]
    exact h t
  · rw [Function.update_of_ne hu]
    exact h u

/-- Taking the mutex. -/
theorem Owned.lock {s s' : State} (h : Owned s) {t : ℕ} {p : Pc} (hp : p.holds = true)
    (hfree : s.mutex = none) (hm : s'.mutex = some t) (ht : s'.task = Function.update s.task t p) :
    Owned s' := by
  intro u
  rw [hm, ht]
  by_cases hu : u = t
  · rw [hu, Function.update_self, hp]
    exact iff_of_true rfl rfl
  · rw [Function.update_of_ne hu, ← h u, hfree]
    exact iff_of_false (fun he => hu (Option.some.inj he).symm) (by simp)

/-- Releasing the mutex. -/
theorem Owned.unlock {s s' : State} (h : Owned s) {t : ℕ} {p : Pc} (hp : p.holds = false)
    (hheld : (s.task t).holds = true) (hm : s'.mutex = none)
    (ht : s'.task = Function.update s.task t p) : Owned s' := by
  intro u
  rw [hm, ht]
  refine iff_of_false (by simp) ?_
  by_cases hu : u = t
  · rw [hu, Function.update_self, hp]
    simp
  · rw [Function.update_of_ne hu]
    intro hheld'
    exact hu (Option.some.inj (((h u).2 hheld').symm.trans ((h t).2 hheld)))

theorem State.readBody_cases (s : State) (t count room : ℕ) :
    (s.readBody t count room = (s.goto t (.out (.error .efault)), none)) ∨
    ∃ n, n ≤ s.currentLen ∧ s.readBody t count room =
      ({ s with
          mem := s.mem.copyAsc 0 n (s.currentLen - n)
          currentLen := s.currentLen - n }.goto t (.wake .wWait n),
        some (.got (s.mem.read 0 n))) := by
  unfold readBody
  by_cases h : room < min count s.currentLen
  · exact Or.inl (if_pos h)
  · exact Or.inr ⟨_, min_le_right _ _, if_neg h⟩

theorem State.writeBody_cases (s : State) (t count : ℕ) (buf : List UInt8) :
    (∃ d, s.writeBody t count buf =
      ({ s with mem := s.mem.write s.currentLen d }.goto t (.out (.error .efault)), none)) ∨
    ∃ d : List UInt8, d.length ≤ GLOBALFIFO_SIZE - s.currentLen ∧ s.writeBody t count buf =
      ({ s with
          mem := s.mem.write s.currentLen d
          currentLen := s.currentLen + d.length }.goto t (.wake .rWait d.length),
        some (.put d)) := by
  unfold writeBody
  by_cases h : buf.length < min count (GLOBALFIFO_SIZE - s.currentLen)
  · exact Or.inl ⟨_, if_pos h⟩
  · right
    have hlen : (buf.take (min count (GLOBALFIFO_SIZE - s.currentLen))).length =
        min count (GLOBALFIFO_SIZE - s.currentLen) := by
      rw [List.length_take]
      omega
    refine ⟨buf.take (min count (GLOBALFIFO_SIZE - s.currentLen)), ?_, ?_⟩
    · rw [hlen]
      exact min_le_right _ _
    · rw [hlen]
      exact if_neg h

/-- **At most one task is in a section at a time.** -/
theorem Trans.owned {s s' : State} {t : ℕ} {a : Act} {e : Option (Event UInt8)}
    (h : Trans s t a e s') (ho : Owned s) : Owned s' := by
  cases h with
  | call hp => exact ho.goto (by rw [hp]; rfl) rfl rfl
  | signal => exact ho
  | badCmd hp _ => exact ho.goto (by rw [hp]; rfl) rfl rfl
  | lock hp hm => exact ho.lock rfl hm rfl rfl
  | again hp => exact ho.goto (by rw [hp]; rfl) rfl rfl
  | sleep hp _ => exact ho.unlock rfl (by rw [hp]; rfl) rfl rfl
  | pass hp _ => exact ho.goto (by rw [hp]; rfl) rfl rfl
  | @read count room b hp =>
    rcases s.readBody_cases t count room with h | ⟨n, -, h⟩ <;> rw [h]
    all_goals exact ho.goto (by rw [hp]; rfl) rfl rfl
  | @write count buf b hp =>
    rcases s.writeBody_cases t count buf with ⟨d, h⟩ | ⟨d, -, h⟩ <;> rw [h]
    all_goals exact ho.goto (by rw [hp]; rfl) rfl rfl
  | clear hp => exact ho.goto (by rw [hp]; rfl) rfl rfl
  | @wake q n hp =>
    have hw : Owned (s.wakeUp q) := by
      intro u
      rw [show (s.wakeUp q).mutex = s.mutex from rfl, ho u]
      show _ ↔ Pc.holds (match s.task u with
        | .asleep c => if c.queue = some q then .scheduled c else .asleep c
        | p => p) = true
      cases s.task u with
      | asleep c => simp only [Pc.holds]; split_ifs <;> simp
      | _ => rfl
    refine hw.goto ?_ rfl rfl
    show _ = Pc.holds (match s.task t with
      | .asleep c => if c.queue = some q then .scheduled c else .asleep c
      | p => p)
    rw [hp]
    rfl
  | unlock hp => exact ho.unlock rfl (by rw [hp]; rfl) rfl rfl
  | wakened hp _ => exact ho.goto (by rw [hp]; rfl) rfl rfl
  | interrupted hp => exact ho.goto (by rw [hp]; rfl) rfl rfl
  | retry hp => exact ho.goto (by rw [hp]; rfl) rfl rfl

end Globalfifo
