/-
  adc — the device of `c5/adc/adc.c`: tasks in `adc_read`, and the interrupt that
  stores a sample.

  A task is in no call or waits in `adc_read`, which holds `ADC_LOCK_BT` then; what
  a call does before and after its wait is one step.  The wait is left when `ev_adc`
  is set, or because of a signal.  `sound_iff`: the semaphore is given back and each
  sample is handed out once in those runs in which no call keeps the semaphore
  (`-EAGAIN` is returned without `up`), no wait is left because of a signal, and no
  sample is copied to a buffer that cannot take it.
-/
import KernelLinux.Lib.Run
import Mathlib.Logic.Function.Basic

namespace Adc

/-- Error codes, returned negated in C. -/
inductive Errno where
  | ebusy | eagain
  deriving DecidableEq

/-- `sizeof(adc_data)` -/
def ADC_DATA_SIZE : ℕ := 4

structure State where
  /-- the count of `ADC_LOCK_BT` -/
  sem : ℕ
  evAdc : Bool
  adcData : ℕ
  /-- the tasks that wait in `adc_read`, and whether the user buffer can take a sample -/
  waiting : ℕ → Option Bool

/-- The state after the module was loaded. -/
def adcInit : State := ⟨1, false, 0, fun _ => none⟩

/-- What comes of a step: a sample is stored, or a call returns, with what arrived in its buffer. -/
inductive Out where
  | nothing
  | stored (v : ℕ)
  | returned (ret : Except Errno ℕ) (user : Option ℕ)

namespace State
variable (s : State)

/-- `adc_irq`; `adcdat0` is what the register `S3C2410_ADCDAT0` holds. -/
def adcIrq (adcdat0 : ℕ) : State × Out :=
  if s.evAdc = false then
    ({ s with adcData := adcdat0 &&& 0x3ff, evAdc := true }, .stored (adcdat0 &&& 0x3ff))
  else (s, .nothing)

/-- `adc_read` behind its wait; the result of `copy_to_user` is not looked at. -/
def readBody (user : Bool) : State × Out :=
  ({ s with evAdc := false, sem := s.sem + 1 },
    .returned (.ok ADC_DATA_SIZE) (if user then some s.adcData else none))

/-- `adc_read` of the task `t`, up to its wait or to its end. -/
def adcRead (t : ℕ) (nonblock user : Bool) : State × Out :=
  if s.sem = 0 then (s, .returned (.error .ebusy) none)
  else
    let s := { s with sem := s.sem - 1 }
    if s.evAdc = false then
      if nonblock then (s, .returned (.error .eagain) none)
      else ({ s with waiting := Function.update s.waiting t (some user) }, .nothing)
    else s.readBody user

/-- The task `t` has left its wait. -/
def resume (t : ℕ) (user : Bool) : State × Out :=
  { s with waiting := Function.update s.waiting t none }.readBody user

end State

/-- What may happen: a task begins a call, or leaves its wait, or the interrupt arrives. -/
inductive Event where
  | read (t : ℕ) (nonblock user : Bool)
  | irq (adcdat0 : ℕ)
  /-- the condition `ev_adc` holds -/
  | woken (t : ℕ)
  /-- a signal is pending -/
  | signal (t : ℕ)

/-- The state after an event, and what comes of it. -/
def State.step (s : State) : Event → Option (State × Out)
  | .read t nonblock user => if s.waiting t = none then some (s.adcRead t nonblock user) else none
  | .irq adcdat0 => some (s.adcIrq adcdat0)
  | .woken t => match s.waiting t with
    | some user => if s.evAdc then some (s.resume t user) else none
    | none => none
  | .signal t => match s.waiting t with
    | some user => if s.evAdc then none else some (s.resume t user)
    | none => none

/-- An event, and what came of it. -/
abbrev Label := Event × Out

/-- The steps of the device. -/
def Step (s : State) (l : Label) (t : State) : Prop := s.step l.1 = some (t, l.2)

/-- `adc_read` returned `sizeof(adc_data)`. -/
def Label.done : Label → Bool
  | (_, .returned (.ok _) _) => true
  | _ => false

/-- After the last call that returned `sizeof(adc_data)`, `v` was stored. -/
def StoredSince (ls : List Label) (v : ℕ) : Prop :=
  ∃ before after e, ls = before ++ (e, .stored v) :: after ∧ ∀ l ∈ after, Label.done l = false

/-- Each call that returned `sizeof(adc_data)` delivered what was stored since the last one. -/
def Fresh (ls : List Label) : Prop :=
  ∀ before e n user, before ++ [(e, .returned (.ok n) user)] <+: ls →
    ∃ v, user = some v ∧ StoredSince before v

/-- No call of `adc_read` is in progress. -/
def State.Quiet (s : State) : Prop := ∀ t, s.waiting t = none

/-- The device hands out each sample once and is not wedged. -/
structure Sound (ls : List Label) (s : State) : Prop where
  free : s.Quiet → s.sem ≠ 0
  busy : ∀ t nonblock user s', Step s (.read t nonblock user, .returned (.error .ebusy) none) s' →
    ∃ u, u ≠ t ∧ s.waiting u ≠ none
  fresh : Fresh ls

/-- The event does not reach a path that keeps the semaphore or delivers no new sample. -/
def Good (s : State) : Event → Prop
  | .read _ nonblock user => s.sem ≠ 0 → if s.evAdc then user = true else nonblock = false
  | .irq _ => True
  | .woken t => s.waiting t ≠ some false
  | .signal _ => False

/-! ## What was stored -/

section
variable {ls : List Label} {l : Label} {v : ℕ}

theorem storedSince_append :
    StoredSince (ls ++ [l]) v ↔ l.2 = .stored v ∨ l.done = false ∧ StoredSince ls v := by
  constructor
  · rintro ⟨before, after, e, heq, hafter⟩
    rcases List.eq_nil_or_concat' after with rfl | ⟨after, l', rfl⟩
    · obtain ⟨-, rfl⟩ := List.append_singleton_inj.1 heq
      exact Or.inl rfl
    · rw [← List.cons_append, ← List.append_assoc] at heq
      obtain ⟨rfl, rfl⟩ := List.append_singleton_inj.1 heq
      rw [List.forall_mem_append, List.forall_mem_singleton] at hafter
      exact Or.inr ⟨hafter.2, before, after, e, rfl, hafter.1⟩
  · rintro (h | ⟨hl, before, after, e, rfl, hafter⟩)
    · refine ⟨ls, [], l.1, ?_, by simp⟩
      rw [← h]
    · refine ⟨before, after ++ [l], e, by simp, ?_⟩
      rw [List.forall_mem_append, List.forall_mem_singleton]
      exact ⟨hafter, hl⟩

theorem fresh_append : Fresh (ls ++ [l]) ↔ Fresh ls ∧
    ∀ n user, l.2 = .returned (.ok n) user → ∃ v, user = some v ∧ StoredSince ls v := by
  constructor
  · intro h
    refine ⟨fun before e n user hpre => h before e n user (hpre.trans (List.prefix_append ls [l])),
      fun n user hl => ?_⟩
    obtain ⟨e, o⟩ := l
    cases hl
    exact h ls e n user List.prefix_rfl
  · rintro ⟨hls, hl⟩ before e n user hpre
    rcases List.prefix_concat_iff.1 hpre with heq | hpre
    · obtain ⟨rfl, rfl⟩ := List.append_singleton_inj.1 heq
      exact hl n user rfl
    · exact hls before e n user hpre

/-- Nothing is stored or delivered. -/
theorem storedSince_silent (hl : l.done = false) (hs : ∀ v, l.2 ≠ .stored v) :
    StoredSince (ls ++ [l]) v ↔ StoredSince ls v := by
  simp [storedSince_append, hl, hs v]

theorem fresh_not_done (hl : l.done = false) : Fresh (ls ++ [l]) ↔ Fresh ls := by
  rw [fresh_append]
  refine and_iff_left fun n user hret => ?_
  obtain ⟨e, o⟩ := l
  cases hret
  exact absurd hl (by simp [Label.done])

theorem not_storedSince_done (e : Event) (n : ℕ) (user : Option ℕ) :
    ¬ StoredSince (ls ++ [(e, .returned (.ok n) user)]) v := by
  simp [storedSince_append, Label.done]

theorem fresh_done {e : Event} {n : ℕ} {user : Option ℕ} :
    Fresh (ls ++ [(e, .returned (.ok n) user)]) ↔
      Fresh ls ∧ ∃ v, user = some v ∧ StoredSince ls v := by
  simp [fresh_append]

end

/-! ## What a step does -/

/-- What a call delivers. -/
def delivered (s : State) (user : Bool) : Out :=
  .returned (.ok ADC_DATA_SIZE) (if user then some s.adcData else none)

/-- The steps of the device, listed. -/
inductive Trans (s : State) : Label → State → Prop
  | busy {t nonblock user} (hsem : s.sem = 0) (ht : s.waiting t = none) :
    Trans s (.read t nonblock user, .returned (.error .ebusy) none) s
  /-- the semaphore is kept -/
  | miss {t user} (hsem : s.sem ≠ 0) (hev : s.evAdc = false) :
    Trans s (.read t true user, .returned (.error .eagain) none) { s with sem := s.sem - 1 }
  | wait {t user} (hsem : s.sem ≠ 0) (hev : s.evAdc = false) :
    Trans s (.read t false user, .nothing)
      { s with sem := s.sem - 1, waiting := Function.update s.waiting t (some user) }
  | hit {t nonblock user} (hsem : s.sem ≠ 0) (hev : s.evAdc = true) :
    Trans s (.read t nonblock user, delivered s user) { s with evAdc := false, sem := s.sem - 1 + 1 }
  | store {adcdat0} (hev : s.evAdc = false) :
    Trans s (.irq adcdat0, .stored (adcdat0 &&& 0x3ff))
      { s with adcData := adcdat0 &&& 0x3ff, evAdc := true }
  | ignore {adcdat0} (hev : s.evAdc = true) : Trans s (.irq adcdat0, .nothing) s
  | woken {t user} (ht : s.waiting t = some user) (hev : s.evAdc = true) :
    Trans s (.woken t, delivered s user)
      { s with waiting := Function.update s.waiting t none, evAdc := false, sem := s.sem + 1 }
  /-- the wait is left with no sample -/
  | signal {t user} (ht : s.waiting t = some user) (hev : s.evAdc = false) :
    Trans s (.signal t, delivered s user)
      { s with waiting := Function.update s.waiting t none, evAdc := false, sem := s.sem + 1 }

theorem Step.trans {s s' : State} {l : Label} (h : Step s l s') : Trans s l s' := by
  obtain ⟨e, o⟩ := l
  cases e with
  | read t nonblock user =>
    simp only [Step, State.step, Option.ite_none_right_eq_some, Option.some.injEq] at h
    obtain ⟨ht, h⟩ := h
    simp only [State.adcRead] at h
    split_ifs at h with hsem hev hnonblock
    · cases h
      exact .busy hsem ht
    · cases h
      subst hnonblock
      exact .miss hsem hev
    · cases h
      rw [Bool.not_eq_true] at hnonblock
      subst hnonblock
      exact .wait hsem hev
    · cases h
      exact .hit hsem (by simpa using hev)
  | irq adcdat0 =>
    simp only [Step, State.step, Option.some.injEq, State.adcIrq] at h
    split_ifs at h with hev
    · cases h
      exact .store hev
    · cases h
      exact .ignore (by simpa using hev)
  | woken t =>
    simp only [Step, State.step] at h
    split at h
    · rename_i user ht
      simp only [Option.ite_none_right_eq_some, Option.some.injEq] at h
      obtain ⟨hev, h⟩ := h
      cases h
      exact .woken ht hev
    · cases h
  | signal t =>
    simp only [Step, State.step] at h
    split at h
    · rename_i user ht
      simp only [Option.ite_none_left_eq_some, Option.some.injEq] at h
      obtain ⟨hev, h⟩ := h
      cases h
      exact .signal ht (by simpa using hev)
    · cases h

/-! ## Runs -/

section
variable {ls : List Label} {l : Label} {s s' : State}

/-- A call returns `-EBUSY` only if another one has the semaphore. -/
theorem sound_of_free (hfree : s.Quiet → s.sem ≠ 0) (hfresh : Fresh ls) : Sound ls s := by
  refine ⟨hfree, fun t nonblock user s' hstep => ?_, hfresh⟩
  by_contra hall
  push Not at hall
  cases hstep.trans with
  | busy hsem ht =>
    refine hfree (fun u => ?_) hsem
    rcases eq_or_ne u t with rfl | hu
    · exact ht
    · exact hall u hu

/-- What is lost is lost for good. -/
theorem Sound.of_append (h : Sound (ls ++ [l]) s') (hstep : Step s l s') : Sound ls s := by
  refine sound_of_free (fun hquiet hsem => ?_) (fresh_append.1 h.fresh).1
  cases hstep.trans with
  | busy => exact h.free hquiet hsem
  | miss hsem' | wait hsem' | hit hsem' => exact hsem' hsem
  | store | ignore => exact h.free hquiet hsem
  | woken ht | signal ht => simp [hquiet _] at ht

/-- What holds as long as all steps are good. -/
structure Kept (ls : List Label) (s : State) : Prop where
  lock : s.sem = 1 ∧ s.Quiet ∨ s.sem = 0 ∧ ∃ t, s.waiting t ≠ none ∧ ∀ u, u ≠ t → s.waiting u = none
  stored : s.evAdc = true → StoredSince ls s.adcData
  notStored : s.evAdc = false → ∀ v, ¬ StoredSince ls v
  fresh : Fresh ls

theorem Kept.init : Kept [] adcInit := by
  refine ⟨Or.inl ⟨rfl, fun _ => rfl⟩, by simp [adcInit], fun _ v => ?_, fun before e n user hpre => ?_⟩
  · rintro ⟨before, after, e, heq, -⟩
    simp at heq
  · simp at hpre

theorem Kept.sound (h : Kept ls s) : Sound ls s := by
  refine sound_of_free (fun hquiet hsem => ?_) h.fresh
  rcases h.lock with ⟨hone, -⟩ | ⟨-, t, ht, -⟩
  · omega
  · exact ht (hquiet t)

/-- A call that had to wait has the semaphore, and no other call does. -/
theorem Kept.quiet_after (h : Kept ls s) {t : ℕ} (ht : s.waiting t ≠ none) :
    s.sem = 0 ∧ ∀ u, Function.update s.waiting t none u = none := by
  rcases h.lock with ⟨-, hquiet⟩ | ⟨hsem, t', -, hothers⟩
  · exact absurd (hquiet t) ht
  · have htt' : t = t' := by
      by_contra hne
      exact ht (hothers t hne)
    subst htt'
    refine ⟨hsem, fun u => ?_⟩
    rcases eq_or_ne u t with rfl | hu
    · simp
    · rw [Function.update_of_ne hu, hothers u hu]

/-- A step without a store or a delivery. -/
theorem Kept.silent (h : Kept ls s) (hl : l.done = false) (hs : ∀ v, l.2 ≠ .stored v)
    (hev : s'.evAdc = s.evAdc) (hdata : s'.adcData = s.adcData)
    (hlock : s'.sem = 1 ∧ s'.Quiet ∨
      s'.sem = 0 ∧ ∃ t, s'.waiting t ≠ none ∧ ∀ u, u ≠ t → s'.waiting u = none) : Kept (ls ++ [l]) s' := by
  refine ⟨hlock, fun h' => ?_, fun h' v => ?_, (fresh_not_done hl).2 h.fresh⟩
  · rw [storedSince_silent hl hs, hdata]
    exact h.stored (hev ▸ h')
  · rw [storedSince_silent hl hs]
    exact h.notStored (hev ▸ h') v

/-- A step that delivers the sample that was stored. -/
theorem Kept.delivers (h : Kept ls s) (hev : s.evAdc = true) (e : Event)
    (hev' : s'.evAdc = false) (hlock : s'.sem = 1 ∧ s'.Quiet) :
    Kept (ls ++ [(e, delivered s true)]) s' := by
  refine ⟨Or.inl hlock, fun h' => ?_, fun _ v => not_storedSince_done _ _ _, ?_⟩
  · rw [hev'] at h'
    cases h'
  · exact fresh_done.2 ⟨h.fresh, _, rfl, h.stored hev⟩

theorem Kept.step (h : Kept ls s) (hstep : Step s l s') (hgood : Good s l.1) :
    Kept (ls ++ [l]) s' := by
  cases hstep.trans with
  | busy => exact h.silent rfl (by simp) rfl rfl h.lock
  | miss hsem hev =>
    have := hgood hsem
    simp [hev] at this
  | @wait t user hsem hev =>
    refine h.silent rfl (by simp) rfl rfl (Or.inr ?_)
    rcases h.lock with ⟨hone, hquiet⟩ | ⟨hzero, -⟩
    · refine ⟨by simp [hone], t, by simp, fun u hu => ?_⟩
      exact (Function.update_of_ne hu _ _).trans (hquiet u)
    · exact absurd hzero hsem
  | @hit t nonblock user hsem hev =>
    have huser : user = true := by simpa [hev] using hgood hsem
    subst huser
    refine h.delivers hev _ rfl ?_
    rcases h.lock with ⟨hone, hquiet⟩ | ⟨hzero, -⟩
    · exact ⟨by simp [hone], hquiet⟩
    · exact absurd hzero hsem
  | @store adcdat0 hev =>
    refine ⟨h.lock, fun _ => ?_, fun h' => ?_, (fresh_not_done rfl).2 h.fresh⟩
    · exact storedSince_append.2 (Or.inl rfl)
    · cases h'
  | ignore => exact h.silent rfl (by simp) rfl rfl h.lock
  | @woken t user ht hev =>
    have huser : user = true := by
      cases user with
      | true => rfl
      | false => exact absurd ht hgood
    subst huser
    obtain ⟨hsem, hquiet⟩ := h.quiet_after (t := t) (by simp [ht])
    exact h.delivers hev _ rfl ⟨by simp [hsem], hquiet⟩
  | signal => exact absurd hgood (by simp [Good])

theorem Kept.not_sound (h : Kept ls s) (hstep : Step s l s') (hgood : ¬ Good s l.1) :
    ¬ Sound (ls ++ [l]) s' := by
  intro hsound
  cases hstep.trans with
  | busy hsem => exact hgood fun h' => absurd hsem h'
  | miss hsem =>
    rcases h.lock with ⟨hone, hquiet⟩ | ⟨hzero, -⟩
    · exact hsound.free hquiet (by simp [hone])
    · exact hsem hzero
  | wait hsem hev => exact hgood fun _ => by simp [hev]
  | @hit t nonblock user hsem hev =>
    obtain ⟨-, v, hv, -⟩ := fresh_done.1 hsound.fresh
    cases user with
    | true => exact hgood fun _ => by simp [hev]
    | false => cases hv
  | store | ignore => exact hgood trivial
  | @woken t user ht hev =>
    obtain ⟨-, v, hv, -⟩ := fresh_done.1 hsound.fresh
    cases user with
    | true => exact hgood (by simp [Good, ht])
    | false => cases hv
  | signal ht hev =>
    obtain ⟨-, v, -, hv⟩ := fresh_done.1 hsound.fresh
    exact h.notStored hev v hv

end

/-- **The device is sound in the runs of good steps**, and in no others. -/
theorem sound_iff {ls : List Label} {s : State} (h : Run Step adcInit ls s) :
    Sound ls s ↔ Run (fun s l t => Step s l t ∧ Good s l.1) adcInit ls s :=
  h.good_iff (I := Kept) (P := Sound) Kept.init (fun _ _ h => h.sound)
    (fun _ _ _ _ h hstep hgood => h.step hstep hgood)
    (fun _ _ _ _ h hstep hgood => h.not_sound hstep hgood)
    (fun _ _ _ _ h hstep hsound => h (hsound.of_append hstep))

/-- The device with the sample 7, -/
def withSample : State := { adcInit with adcData := 7, evAdc := true }

/-- and after it was read. -/
def sampleRead : State := { withSample with evAdc := false }

theorem sound_iff_sampleRead :
    Sound [(.irq 7, .stored 7), (.read 0 true true, .returned (.ok 4) (some 7))] sampleRead ↔
      Run (fun s l t => Step s l t ∧ Good s l.1) adcInit
        [(.irq 7, .stored 7), (.read 0 true true, .returned (.ok 4) (some 7))] sampleRead := by
  have hirq : Step adcInit (.irq 7, .stored 7) withSample := rfl
  have hread : Step withSample (.read 0 true true, .returned (.ok 4) (some 7)) sampleRead := rfl
  exact sound_iff ((Run.single hirq).snoc hread)

/-- A non-blocking call that finds no sample keeps the semaphore. -/
theorem not_sound_miss : ∃ s, Run Step adcInit [(.read 0 true true, .returned (.error .eagain) none)] s ∧
    ¬ Sound [(.read 0 true true, .returned (.error .eagain) none)] s := by
  have hmiss : Step adcInit (.read 0 true true, .returned (.error .eagain) none)
    { adcInit with sem := 0 } := rfl
  exact ⟨_, Run.single hmiss, fun h => h.free (fun _ => rfl) rfl⟩

end Adc
