/-
  globalfifo — lost wake-ups.

  A task asleep on a queue waits for a condition on `current_len`; whoever makes
  it true must wake the queue before it gives up the mutex.  `globalfifo_read` and
  `globalfifo_write` do, `FIFO_CLEAR` empties the device without waking `w_wait`.
  `Served` (no task sleeps on while it could go on) holds in every state reached
  without a `FIFO_CLEAR` taking effect while a writer sleeps, and such a
  `FIFO_CLEAR` ends it (`served_iff_quiet`).
-/
import KernelLinux.Globalfifo.Device

namespace Globalfifo

open Bytes Queue

/-- The task is asleep on the queue. -/
def Asleep (s : State) (q : WaitQueue) (t : ℕ) : Prop :=
  ∃ c, s.task t = .asleep c ∧ c.queue = some q

def Pc.asleepOn (q : WaitQueue) : Pc → Bool
  | .asleep c => c.queue == some q
  | _ => false

theorem asleep_iff {s : State} {q : WaitQueue} {t : ℕ} :
    Asleep s q t ↔ (s.task t).asleepOn q = true := by
  constructor
  · rintro ⟨c, hc, hq⟩
    simp [hc, Pc.asleepOn, hq]
  · intro h
    cases hp : s.task t with
    | asleep c =>
      rw [hp] at h
      exact ⟨c, hp, beq_iff_eq.1 h⟩
    | _ =>
      rw [hp] at h
      simp [Pc.asleepOn] at h

instance (s : State) (q : WaitQueue) (t : ℕ) : Decidable (Asleep s q t) :=
  decidable_of_iff _ asleep_iff.symm

/-- What a task asleep on the queue waits for has not happened. -/
def Blocked (s : State) : WaitQueue → Prop
  | .rWait => s.currentLen = 0
  | .wWait => s.currentLen = GLOBALFIFO_SIZE

/-- While the mutex is free, no task is asleep on `r_wait` with bytes in the FIFO, and none on
    `w_wait` with room in it. -/
def Served (s : State) : Prop := s.mutex = none → ∀ q t, Asleep s q t → Blocked s q

/-- The step is not that of a `FIFO_CLEAR` taking effect while a task is asleep on `w_wait`. -/
def Quiet (s : State) (l : Label) : Prop :=
  ∀ cmd, l.act = .run → s.task l.task = .copy (.ioctl cmd) → ∀ t, ¬ Asleep s .wWait t

structure QuietStep (s : State) (l : Label) (s' : State) : Prop where
  step : Step s l s'
  quiet : Quiet s l

/-- Whoever made the condition of a sleeping task true still has its queue to wake. -/
structure WakeInv (s : State) : Prop where
  owned : Owned s
  asleep : ∀ q t, Asleep s q t → Blocked s q ∨ ∃ u n, s.task u = .wake q n

theorem WakeInv.served {s : State} (h : WakeInv s) : Served s := by
  intro hm q t ht
  rcases h.asleep q t ht with hb | ⟨u, n, hu⟩
  · exact hb
  · have := (h.owned u).2 (by rw [hu]; rfl)
    rw [hm] at this
    simp at this

/-- A step of a task in a section, to or from a place where it does not wake a queue, that does
    not put it to sleep and leaves `current_len`. -/
theorem asleep_goto {s s' : State} (h : WakeInv s) {t : ℕ} {p : Pc}
    (ht : s'.task = Function.update s.task t p) (hl : s'.currentLen = s.currentLen)
    (hw : ∀ q n, s.task t ≠ .wake q n) (hp : ∀ c, p ≠ .asleep c) :
    ∀ q u, Asleep s' q u → Blocked s' q ∨ ∃ v n, s'.task v = .wake q n := by
  rintro q u ⟨c, hc, hq⟩
  have hut : u ≠ t := by
    rintro rfl
    rw [ht, Function.update_self] at hc
    exact hp c hc
  rw [ht, Function.update_of_ne hut] at hc
  rcases h.asleep q u ⟨c, hc, hq⟩ with hb | ⟨v, n, hv⟩
  · left
    cases q
    · exact hl.trans hb
    · exact hl.trans hb
  · have hvt : v ≠ t := by
      rintro rfl
      exact hw q n hv
    exact Or.inr ⟨v, n, by rw [ht, Function.update_of_ne hvt, hv]⟩

/-- While a task is in its section, every other task asleep is blocked. -/
theorem WakeInv.blocked {s : State} (h : WakeInv s) {t : ℕ} (ht : (s.task t).holds = true)
    (hw : ∀ q n, s.task t ≠ .wake q n) {q : WaitQueue} {u : ℕ} (hu : Asleep s q u) :
    Blocked s q := by
  rcases h.asleep q u hu with hb | ⟨v, n, hv⟩
  · exact hb
  · have h1 := (h.owned v).2 (by rw [hv]; rfl)
    have h2 := (h.owned t).2 ht
    obtain rfl := Option.some.inj (h1.symm.trans h2)
    exact absurd hv (hw q n)

/-- After a change of `current_len` the task is about to wake the queue whose condition may have
    come true; the other queue's has not, unless its sleepers saw no change. -/
theorem asleep_wake {s s' : State} (h : WakeInv s) {t n : ℕ} {q : WaitQueue}
    (ht : (s.task t).holds = true) (hw : ∀ q n, s.task t ≠ .wake q n)
    (htask : s'.task = Function.update s.task t (.wake q n))
    (hother : ∀ q', q' ≠ q → Blocked s q' → Blocked s' q') :
    ∀ q' u, Asleep s' q' u → Blocked s' q' ∨ ∃ v n, s'.task v = .wake q' n := by
  rintro q' u ⟨c, hc, hq⟩
  by_cases hqq : q' = q
  · exact Or.inr ⟨t, n, by rw [htask, Function.update_self, hqq]⟩
  · have hut : u ≠ t := by
      rintro rfl
      rw [htask, Function.update_self] at hc
      simp at hc
    rw [htask, Function.update_of_ne hut] at hc
    exact Or.inl (hother q' hqq (h.blocked ht hw ⟨c, hc, hq⟩))

theorem init_wake : WakeInv init where
  owned t := iff_of_false (by simp [init]) (by simp [init, Pc.holds])
  asleep q t := by
    rintro ⟨c, hc, -⟩
    simp [init] at hc

/-- **A quiet step loses no wake-up.** -/
theorem Trans.wakeInv {s s' : State} {t : ℕ} {a : Act} {e : Option (Event UInt8)}
    (h : Trans s t a e s') (hq : Quiet s ⟨t, a, e⟩) (H : WakeInv s) : WakeInv s' := by
  refine ⟨h.owned H.owned, ?_⟩
  cases h with
  | signal => exact H.asleep
  | call hp => exact asleep_goto H rfl rfl (by simp [hp]) (by simp)
  | badCmd hp _ => exact asleep_goto H rfl rfl (by simp [hp]) (by simp)
  | lock hp _ => exact asleep_goto H rfl rfl (by simp [hp]) (by simp)
  | again hp => exact asleep_goto H rfl rfl (by simp [hp]) (by simp)
  | pass hp _ => exact asleep_goto H rfl rfl (by simp [hp]) (by simp)
  | unlock hp => exact asleep_goto H rfl rfl (by simp [hp]) (by simp)
  | wakened hp _ => exact asleep_goto H rfl rfl (by simp [hp]) (by simp)
  | interrupted hp => exact asleep_goto H rfl rfl (by simp [hp]) (by simp)
  | retry hp => exact asleep_goto H rfl rfl (by simp [hp]) (by simp)
  | @sleep c hp hw =>
    rintro q u ⟨c', hc, hcq⟩
    left
    by_cases hut : u = t
    · subst hut
      rw [State.goto_self] at hc
      obtain rfl := Pc.asleep.inj hc
      cases c with
      | read count room b =>
        obtain rfl := Option.some.inj hcq
        exact beq_iff_eq.1 hw
      | write count buf b =>
        obtain rfl := Option.some.inj hcq
        exact beq_iff_eq.1 hw
      | ioctl cmd => simp [Call.queue] at hcq
    · rw [State.goto_ne _ hut] at hc
      have hb := H.blocked (by rw [hp]; rfl) (by simp [hp]) ⟨c', hc, hcq⟩
      cases q
      · exact hb
      · exact hb
  | @read count room b hp =>
    rcases s.readBody_cases t count room with h | ⟨n, hn, h⟩ <;> rw [h]
    · exact asleep_goto H rfl rfl (by simp [hp]) (by simp)
    · refine asleep_wake (n := n) H (by rw [hp]; rfl) (by simp [hp]) rfl fun q hne hb => ?_
      cases q with
      | rWait =>
        have hb' : s.currentLen = 0 := hb
        show s.currentLen - n = 0
        omega
      | wWait => exact absurd rfl hne
  | @write count buf b hp =>
    rcases s.writeBody_cases t count buf with ⟨d, h⟩ | ⟨d, hd, h⟩ <;> rw [h]
    · exact asleep_goto H rfl rfl (by simp [hp]) (by simp)
    · refine asleep_wake (n := d.length) H (by rw [hp]; rfl) (by simp [hp]) rfl fun q hne hb => ?_
      cases q with
      | rWait => exact absurd rfl hne
      | wWait =>
        have hb' : s.currentLen = GLOBALFIFO_SIZE := hb
        show s.currentLen + d.length = GLOBALFIFO_SIZE
        omega
  | @clear cmd hp =>
    rintro q u ⟨c, hc, hcq⟩
    have hut : u ≠ t := by
      rintro rfl
      simp at hc
    rw [State.clearBody_ne _ hut] at hc
    cases q with
    | rWait => exact Or.inl rfl
    | wWait => exact absurd ⟨c, hc, hcq⟩ (hq cmd rfl hp u)
  | @wake q n hp =>
    rintro q' u ⟨c, hc, hcq⟩
    have hut : u ≠ t := by
      rintro rfl
      simp at hc
    rw [State.goto_ne _ hut] at hc
    have hboth : s.task u = .asleep c ∧ c.queue ≠ some q := by
      simp only [State.wakeUp] at hc
      split at hc
      · rename_i c' h
        split_ifs at hc with hq'
        obtain rfl := Pc.asleep.inj hc
        exact ⟨h, hq'⟩
      · rename_i hne
        exact absurd hc (hne c)
    left
    have hqq : q' ≠ q := fun h => hboth.2 (by rw [hcq, h])
    rcases H.asleep q' u ⟨c, hboth.1, hcq⟩ with hb | ⟨v, m, hv⟩
    · cases q'
      · exact hb
      · exact hb
    · have h1 := (H.owned v).2 (by rw [hv]; rfl)
      have h2 := (H.owned t).2 (by rw [hp]; rfl)
      obtain rfl := Option.some.inj (h1.symm.trans h2)
      rw [hp] at hv
      exact absurd (Pc.wake.inj hv).1.symm hqq

/-- A `FIFO_CLEAR` that takes effect while a writer sleeps leaves it asleep when the mutex is
    released. -/
theorem clear_not_served {s : State} {t u cmd : ℕ} (ht : s.task t = .copy (.ioctl cmd))
    (hu : Asleep s .wWait u) :
    Step s ⟨t, .run, some .cleared⟩ (s.clearBody t).1 ∧
    Step (s.clearBody t).1 ⟨t, .run, none⟩ ({ (s.clearBody t).1 with mutex := none }.leave t) ∧
    ¬ Served ({ (s.clearBody t).1 with mutex := none }.leave t) := by
  refine ⟨?_, ?_, fun h => ?_⟩
  · simp only [Step, step, State.run, ht]
    rfl
  · simp only [Step, step, State.run, State.clearBody_self]
  · obtain ⟨c, hc, hq⟩ := hu
    have hut : u ≠ t := by
      rintro rfl
      rw [ht] at hc
      simp at hc
    have hasleep : Asleep ({ (s.clearBody t).1 with mutex := none }.leave t) .wWait u := by
      refine ⟨c, ?_, hq⟩
      show Function.update (s.clearBody t).1.task t .idle u = _
      rw [Function.update_of_ne hut, State.clearBody_ne _ hut, hc]
    have hb : (0 : ℕ) = GLOBALFIFO_SIZE := h rfl .wWait u hasleep
    simp [GLOBALFIFO_SIZE] at hb

/-- **No wake-up is lost** in runs in which no `FIFO_CLEAR` takes effect while a task is asleep on
    `w_wait`; after any other next step, that of such a `FIFO_CLEAR`, the sleeper is lost. -/
theorem served_iff_quiet {s : State} {ls : List Label} (h : Run QuietStep init ls s) :
    Served s ∧ ∀ l s', Step s l s' → ¬ Quiet s l → ∃ l' s'', Step s' l' s'' ∧ ¬ Served s'' := by
  have H : WakeInv s := Run.inv (I := WakeInv)
    (fun _ _ _ hs (hl : QuietStep _ _ _) => (step_trans hl.step).wakeInv hl.quiet hs) init_wake h
  refine ⟨H.served, fun l s' hl hq => ?_⟩
  obtain ⟨t, a, e⟩ := l
  simp only [Quiet, not_forall, not_not] at hq
  obtain ⟨cmd, rfl, ht, u, hu⟩ := hq
  obtain ⟨h1, h2, h3⟩ := clear_not_served ht hu
  have : s' = (s.clearBody t).1 := by
    have hs : some (s', e) = some ((s.clearBody t).1, some .cleared) := hl.symm.trans h1
    exact congrArg Prod.fst (Option.some.inj hs)
  rw [this]
  exact ⟨_, _, h2, h3⟩

/-- A reader that goes to sleep on the empty device, from its call to `schedule`. -/
def reader : Call := .read 1 1 false
def readerEnters : State := init.goto 0 (.enter reader)
def readerTests : State := { readerEnters with mutex := some 0 }.goto 0 (.test reader)
def readerSleeps : State := { readerTests with mutex := none }.goto 0 (.asleep reader)

/-- `served_iff_quiet` for this run. -/
theorem readerSleeps_served : Asleep readerSleeps .rWait 0 ∧ Served readerSleeps := by
  have h1 : QuietStep init ⟨0, .call reader, none⟩ readerEnters := ⟨rfl, fun _ h => nomatch h⟩
  have h2 : QuietStep readerEnters ⟨0, .run, none⟩ readerTests :=
    ⟨rfl, fun _ _ h => by simp [readerEnters] at h⟩
  have h3 : QuietStep readerTests ⟨0, .run, none⟩ readerSleeps :=
    ⟨rfl, fun _ _ h => by simp [readerTests] at h⟩
  exact ⟨by decide, (served_iff_quiet (((Run.single h1).snoc h2).snoc h3)).1⟩

/-- Task 0 fills the FIFO, task 1 goes to sleep in a write, task 2 clears the FIFO. -/
def clearedWriter : List (ℕ × Act) :=
  (0, .call (.write GLOBALFIFO_SIZE (List.replicate GLOBALFIFO_SIZE 0) false)) ::
    List.replicate 5 (0, .run) ++
  (1, .call (.write 1 [0] false)) :: List.replicate 2 (1, .run) ++
  (2, .call (.ioctl FIFO_CLEAR)) :: List.replicate 4 (2, .run)

/-- The writer sleeps on, with the whole FIFO free. -/
theorem clearedWriter_lost : ∃ ls s, Run Step init ls s ∧ s.mutex = none ∧ s.currentLen = 0 ∧
    Asleep s .wWait 1 ∧ ¬ Served s := by
  have hm : (play init clearedWriter).1.mutex = none := by decide +kernel
  have hl : (play init clearedWriter).1.currentLen = 0 := by decide +kernel
  have ha : Asleep (play init clearedWriter).1 .wWait 1 := by decide +kernel
  refine ⟨_, _, play_run init clearedWriter, hm, hl, ha, fun h => ?_⟩
  have hb : (play init clearedWriter).1.currentLen = GLOBALFIFO_SIZE := h hm .wWait 1 ha
  rw [hl] at hb
  simp [GLOBALFIFO_SIZE] at hb

end Globalfifo
