/-
  udevd — when the main loop sleeps.

  At `select` no exited process is overlooked, and events wait only for an event
  process that will exit, for a control message, or because the last pass of
  `msg_queue_manager` was cut short (`waits`).  In the last case nothing but a new
  event or a control message starts them, however idle the system gets
  (`throttled_stuck`).  `limit && childs_count++ > limit` lets the manager go two
  processes over its limit (`children_le`).
-/
import KernelLinux.Udev.Events

namespace Udev

/-! ## A pass of msg_queue_manager -/

theorem runningList_prefix_udevEventRun (answer : Option ℕ) (q : Queues) (m : Msg) :
    q.runningList <+: (udevEventRun answer q m).runningList := by
  rw [udevEventRun]
  cases fork answer q with
  | none => exact List.prefix_rfl
  | some pid => exact List.prefix_append _ _

theorem msgQueueManager.loop_running_mono (a : Answers) (maxChilds maxChildsRunning : ℤ) (k : ℕ)
    (kept rest : List Msg) (running : ℤ) (q : Queues) :
    q.runningList <+: (loop a maxChilds maxChildsRunning k kept rest running q).1.runningList := by
  induction rest generalizing k kept running q with
  | nil => exact List.prefix_rfl
  | cons msg rest ih =>
    rw [loop]
    generalize (if running ≥ maxChildsRunning then a.session k else running) = running'
    by_cases ht : running' ≥ maxChildsRunning
    · rw [if_pos ht]
    · rw [if_neg ht]
      by_cases hb : devpathBusy q msg maxChilds = 0
      · rw [if_neg (not_not.2 hb)]
        exact (runningList_prefix_udevEventRun _ { q with execList := kept ++ rest } msg).trans (ih _ _ _ _)
      · rw [if_pos hb]
        exact ih _ _ _ _

/-- The first message of `exec_list` waits for running ones only. -/
theorem devpathBusy_head {q : Queues} {msg : Msg} {rest : List Msg} {limit : ℤ}
    (hexec : q.execList = msg :: rest) (hrun : q.runningList = []) : devpathBusy q msg limit = 0 := by
  rw [devpathBusy_eq_zero_iff, hexec, hrun, List.takeWhile_cons_of_neg (by simp)]
  exact ⟨by simp, by simp, Or.inr (Or.inl rfl)⟩

/-- A pass that was not cut short and leaves no event running leaves none waiting. -/
theorem msgQueueManager.loop_starts (a : Answers) (maxChilds maxChildsRunning : ℤ) (k : ℕ)
    (rest : List Msg) (running : ℤ) (q : Queues) (hexec : q.execList = rest)
    (hflag : (loop a maxChilds maxChildsRunning k [] rest running q).2 = false)
    (hrun : (loop a maxChilds maxChildsRunning k [] rest running q).1.runningList = []) :
    (loop a maxChilds maxChildsRunning k [] rest running q).1.execList = [] := by
  induction rest generalizing k running q with
  | nil => exact hexec
  | cons msg rest ih =>
    have hidle : q.runningList = [] :=
      List.prefix_nil.1 (hrun ▸ loop_running_mono a maxChilds maxChildsRunning k [] (msg :: rest) running q)
    rw [loop] at hflag hrun ⊢
    generalize (if running ≥ maxChildsRunning then a.session k else running) = running' at *
    by_cases ht : running' ≥ maxChildsRunning
    · rw [if_pos ht] at hflag
      cases hflag
    · rw [if_neg ht, if_neg (not_not.2 (devpathBusy_head hexec hidle))] at hflag hrun ⊢
      exact ih _ _ _ (by simp) hflag hrun

theorem msgQueueManager_starts (a : Answers) (maxChilds maxChildsRunning : ℤ) (q : Queues)
    (hflag : (msgQueueManager a maxChilds maxChildsRunning q).2 = false)
    (hrun : (msgQueueManager a maxChilds maxChildsRunning q).1.runningList = []) :
    (msgQueueManager a maxChilds maxChildsRunning q).1.execList = [] := by
  rw [msgQueueManager] at hflag hrun ⊢
  by_cases h : q.execList = []
  · rw [if_pos h]
    exact h
  · rw [if_neg h] at hflag hrun ⊢
    exact msgQueueManager.loop_starts _ _ _ _ _ _ _ rfl hflag hrun

/-- A process that is forked has not exited. -/
theorem zombie_udevEventRun {answer : Option ℕ} {q : Queues} {m : Msg} {c : Child}
    (hc : c ∈ (udevEventRun answer q m).children) (hz : c.status ≠ none) : c ∈ q.children := by
  rw [udevEventRun] at hc
  cases hf : fork answer q with
  | none => simpa [hf] using hc
  | some pid =>
    rw [hf] at hc
    rcases List.mem_append.1 hc with hc | hc
    · exact hc
    · rw [List.mem_singleton.1 hc] at hz
      exact absurd rfl hz

theorem zombie_msgQueueInsert {answer : Option ℕ} {q : Queues} {m : Msg} {c : Child}
    (hc : c ∈ (msgQueueInsert answer q m).children) (hz : c.status ≠ none) : c ∈ q.children := by
  rw [msgQueueInsert] at hc
  by_cases ht : m.timeout ≠ 0
  · rw [if_pos ht] at hc
    have hc := zombie_udevEventRun hc hz
    exact hc
  · rw [if_neg ht] at hc
    exact hc

theorem msgQueueManager.zombie_loop {a : Answers} {maxChilds maxChildsRunning : ℤ} {k : ℕ}
    {kept rest : List Msg} {running : ℤ} {q : Queues} {c : Child}
    (hc : c ∈ (loop a maxChilds maxChildsRunning k kept rest running q).1.children)
    (hz : c.status ≠ none) : c ∈ q.children := by
  induction rest generalizing k kept running q with
  | nil => exact hc
  | cons msg rest ih =>
    rw [loop] at hc
    generalize (if running ≥ maxChildsRunning then a.session k else running) = running' at hc
    by_cases ht : running' ≥ maxChildsRunning
    · rw [if_pos ht] at hc
      exact hc
    · rw [if_neg ht] at hc
      by_cases hb : devpathBusy q msg maxChilds = 0
      · rw [if_neg (not_not.2 hb)] at hc
        have hc := zombie_udevEventRun (ih hc) hz
        exact hc
      · rw [if_pos hb] at hc
        exact ih hc

theorem zombie_manage {a : Answers} {s : State} {c : Child} (hc : c ∈ (s.manage a).queues.children)
    (hz : c.status ≠ none) : c ∈ s.queues.children := by
  rw [State.manage, msgQueueManager] at hc
  by_cases h : s.queues.execList = []
  · rw [if_pos h] at hc
    exact hc
  · rw [if_neg h] at hc
    exact msgQueueManager.zombie_loop hc hz

/-! ## The invariant -/

/-- Events wait only for a reason. -/
def Served (s : State) : Prop :=
  s.queues.execList = [] ∨ s.queues.runningList ≠ [] ∨ s.stopExecQ = true ∨ s.throttled = true

/-- The main loop has passed the manager and has not queued an event since. -/
def Pc.early : Pc → Bool
  | .top | .select | .control _ | .netlink _ | .insert _ _ => true
  | _ => false

structure Awake (s : State) : Prop where
  /-- an exited process is waited for, or will be -/
  zombie : (∃ c ∈ s.queues.children, c.status ≠ none) → s.sigchildsWaiting = true ∨ s.pc = .reap
  /-- a signal that has not been seen has left a byte in the pipe -/
  pipe : s.sigchildsWaiting = true → s.pipe ≠ 0 ∨ s.pc = .sigchilds
  queue : s.runExecQ = true ∨ Served s
  early : s.pc.early = true → s.runExecQ = false

theorem served_manage (a : Answers) (s : State) : Served (s.manage a) := by
  by_cases hflag : (msgQueueManager a s.maxChilds s.maxChildsRunning s.queues).2 = true
  · exact Or.inr (Or.inr (Or.inr hflag))
  · by_cases hrun : (msgQueueManager a s.maxChilds s.maxChildsRunning s.queues).1.runningList = []
    · exact Or.inl (msgQueueManager_starts a _ _ _ (Bool.eq_false_iff.2 hflag) hrun)
    · exact Or.inr (Or.inl hrun)

theorem Awake.manage {a : Answers} {s : State} (h : Awake s) : Awake (s.manage a) where
  zombie := fun ⟨c, hc, hz⟩ => h.zombie ⟨c, zombie_manage hc hz, hz⟩
  pipe := h.pipe
  queue := Or.inr (served_manage a s)
  early := h.early

theorem Awake.ctrl {a : Answers} {s : State} (h : Awake s) (hrun : s.runExecQ = false) (c : Ctrl) :
    Awake (getCtrlMsg a s c) := by
  have hserved : Served s := h.queue.resolve_left (by simp [hrun])
  cases c with
  | stopExecQueue => exact ⟨h.zombie, h.pipe, Or.inr (Or.inr (Or.inr (Or.inl rfl))), h.early⟩
  | startExecQueue =>
    exact ⟨fun ⟨c, hc, hz⟩ => h.zombie ⟨c, zombie_manage hc hz, hz⟩, h.pipe,
      Or.inr (served_manage a _), h.early⟩
  | setMaxChilds n => exact ⟨h.zombie, h.pipe, Or.inr hserved, h.early⟩
  | setMaxChildsRunning n => exact ⟨h.zombie, h.pipe, Or.inr hserved, h.early⟩
  | other => exact h

/-- The main loop goes on to where it may neither have seen a signal nor have been reaping. -/
theorem Awake.goto {s : State} (h : Awake s) (hsig : s.pc ≠ .sigchilds) (hreap : s.pc ≠ .reap) (pc : Pc)
    (hearly : pc.early = true → s.runExecQ = false) : Awake { s with pc := pc } where
  zombie := fun hz => Or.inl ((h.zombie hz).resolve_right hreap)
  pipe := fun hw => Or.inl ((h.pipe hw).resolve_right hsig)
  queue := h.queue
  early := hearly

theorem Awake.step {s s' : State} {l : Label} (h : Awake s) (hst : Step s l s') : Awake s' := by
  cases hst with
  | top hpc => exact h.goto (by simp [hpc]) (by simp [hpc]) _ fun _ => h.early (by simp [hpc, Pc.early])
  | interrupted hpc =>
    exact h.goto (by simp [hpc]) (by simp [hpc]) _ fun _ => h.early (by simp [hpc, Pc.early])
  | select r hpc =>
    exact h.goto (by simp [hpc]) (by simp [hpc]) _ fun _ => h.early (by simp [hpc, Pc.early])
  | @control r c a hpc =>
    have hrun : s.runExecQ = false := h.early (by simp [hpc, Pc.early])
    by_cases hr : r.control = true
    · rw [if_pos hr]
      have hpc' : (getCtrlMsg a s c).pc = .control r := by cases c <;> exact hpc
      have hrun' : (getCtrlMsg a s c).runExecQ = false := by cases c <;> exact hrun
      exact (h.ctrl hrun c).goto (by simp [hpc']) (by simp [hpc']) _ fun _ => hrun'
    · rw [if_neg hr]
      exact h.goto (by simp [hpc]) (by simp [hpc]) _ fun _ => hrun
  | @netlink r e hpc =>
    have h' := h.goto (by simp [hpc]) (by simp [hpc]) (.insert e r) fun _ => h.early (by simp [hpc, Pc.early])
    exact ⟨h'.zombie, h'.pipe, h'.queue, h'.early⟩
  | noNetlink hpc => exact h.goto (by simp [hpc]) (by simp [hpc]) _ (by simp [Pc.early])
  | @insert e r answer hpc =>
    refine ⟨fun ⟨c, hc, hz⟩ => ?_, fun hw => ?_, ?_, by simp [Pc.early]⟩
    · exact Or.inl ((h.zombie ⟨c, zombie_msgQueueInsert hc hz, hz⟩).resolve_right (by simp [hpc]))
    · exact Or.inl ((h.pipe hw).resolve_right (by simp [hpc]))
    · by_cases ht : e.timeout = 0
      · exact Or.inl (by simp [ht])
      · -- an event with a timeout starts at once and leaves the others as they were
        have hserved : Served s := h.queue.resolve_left (by simp [h.early (by simp [hpc, Pc.early])])
        have hins : msgQueueInsert answer s.queues ⟨e, 0, 0⟩ = udevEventRun answer _ ⟨e, 0, 0⟩ := if_pos ht
        refine Or.inr ?_
        rw [Served, hins, udevEventRun_execList]
        rcases hserved with hs | hs | hs
        · exact Or.inl hs
        · refine Or.inr (Or.inl fun hnil => hs ?_)
          exact List.prefix_nil.1 (hnil ▸ runningList_prefix_udevEventRun answer
            { s.queues with
              files := exportEventState s.queues ⟨e, 0, 0⟩ .queued
              log := s.queues.log ++ [.queued e] } ⟨e, 0, 0⟩)
        · exact Or.inr (Or.inr hs)
  | pipe hpc =>
    exact ⟨fun hz => Or.inl ((h.zombie hz).resolve_right (by simp [hpc])), fun _ => Or.inr rfl, h.queue,
      by simp [Pc.early]⟩
  | sigchilds hpc =>
    refine ⟨fun hz => Or.inr ?_, fun hw => absurd hw Bool.false_ne_true, h.queue, ?_⟩
    · exact if_pos ((h.zombie hz).resolve_right (by simp [hpc]))
    · dsimp only
      split <;> simp [Pc.early]
  | @waitpid cs ds pid status hpc hc =>
    refine ⟨fun _ => Or.inr hpc, fun hw => Or.inl ((h.pipe hw).resolve_right (by simp [hpc])), ?_,
      by simp [reap, hpc, Pc.early]⟩
    cases hd : udevDone pid (exitStatus status) { s.queues with children := cs ++ ds } with
    | none =>
      simpa only [reap, hd, Served, Option.getD_none, Option.isSome_none, Bool.or_false] using h.queue
    | some q => exact Or.inl (by simp [reap, hd])
  | noWaitpid hpc hz =>
    refine ⟨fun ⟨c, hc, hc'⟩ => absurd (hz c hc) hc', fun hw => ?_, h.queue, by simp [Pc.early]⟩
    exact Or.inl ((h.pipe hw).resolve_right (by simp [hpc]))
  | queue a hpc =>
    have hsig : s.sigchildsWaiting = true → s.pipe ≠ 0 := fun hw => (h.pipe hw).resolve_right (by simp [hpc])
    by_cases hr : s.runExecQ = true ∧ s.stopExecQ = false
    · rw [if_pos hr]
      refine ⟨fun ⟨c, hc, hz⟩ => ?_, fun hw => Or.inl (hsig hw), Or.inr (served_manage a _), fun _ => rfl⟩
      exact Or.inl ((h.zombie ⟨c, zombie_manage hc hz, hz⟩).resolve_right (by simp [hpc]))
    · rw [if_neg hr]
      refine ⟨fun hz => Or.inl ((h.zombie hz).resolve_right (by simp [hpc])), fun hw => Or.inl (hsig hw),
        Or.inr ?_, fun _ => rfl⟩
      rcases h.queue with hq | hq
      · exact Or.inr (Or.inr (Or.inl (by simpa [hq] using hr)))
      · exact hq
  | exit pid status hc =>
    exact ⟨fun _ => Or.inl rfl, fun _ => Or.inl (by simp [State.writePipe, pipeSize]), h.queue, h.early⟩
  | signal terminate =>
    exact ⟨h.zombie, fun _ => Or.inl (by simp [State.writePipe, pipeSize]), h.queue, h.early⟩

theorem awake {s : State} (h : Reachable s) : Awake s := by
  obtain ⟨maxChilds, maxChildsRunning, n, ls, h⟩ := h
  refine Run.inv (fun _ _ _ hs hst => hs.step hst) ⟨?_, ?_, Or.inr (Or.inl rfl), fun _ => rfl⟩ h
  · rintro ⟨c, hc, -⟩
    exact absurd hc List.not_mem_nil
  · exact fun h => absurd h Bool.false_ne_true

/-- At `select`: if a process has exited then `select` returns, and if events wait then an event
    process is alive or `select` returns, or the queue is stopped, or the last pass of
    `msg_queue_manager` has found too many processes running. -/
theorem waits {s : State} (h : Reachable s) (hpc : s.pc = .select) :
    ((∃ c ∈ s.queues.children, c.status ≠ none) → s.pipe ≠ 0) ∧
      (s.queues.execList ≠ [] → (∃ c ∈ s.queues.children, c.status = none) ∨ s.pipe ≠ 0 ∨
        s.stopExecQ = true ∨ s.throttled = true) := by
  have hawake := awake h
  have hzombie : (∃ c ∈ s.queues.children, c.status ≠ none) → s.pipe ≠ 0 := fun hz =>
    (hawake.pipe ((hawake.zombie hz).resolve_right (by simp [hpc]))).resolve_right (by simp [hpc])
  refine ⟨hzombie, fun hexec => ?_⟩
  have hserved : Served s := hawake.queue.resolve_left (by simp [hawake.early (by simp [hpc, Pc.early])])
  rcases hserved.resolve_left hexec with hrun | hstop
  · -- the process of a running event is alive or a zombie
    obtain ⟨m, hm⟩ := List.exists_mem_of_ne_nil _ hrun
    have hpid := (accounted h).pids.mem_iff.1 (List.mem_map_of_mem hm)
    obtain ⟨c, hc, -⟩ := List.mem_map.1 hpid
    by_cases hstatus : c.status = none
    · exact Or.inl ⟨c, hc, hstatus⟩
    · exact Or.inr (Or.inl (hzombie ⟨c, hc, hstatus⟩))
  · exact Or.inr (Or.inr hstop)

theorem waits_partition : ∃ s, Reachable s ∧ s.queues.execList ≠ [] ∧
    ((∃ c ∈ s.queues.children, c.status ≠ none) → s.pipe ≠ 0) ∧
      (s.queues.execList ≠ [] → (∃ c ∈ s.queues.children, c.status = none) ∨ s.pipe ≠ 0 ∨
        s.stopExecQ = true ∨ s.throttled = true) := by
  have h1 := reachable_init.run (round (addOf "/sda" 1) unloaded rfl rfl rfl rfl rfl rfl)
  have h2 := h1.run (round (addOf "/sda/1" 2) unloaded rfl rfl rfl rfl rfl rfl)
  have h3 := h2.step (.top rfl)
  exact ⟨_, h3, by decide, waits h3 rfl⟩

/-! ## Nothing to wait for -/

/-- No event process is alive, and the manager will not be called. -/
structure Idle (q : Queues) (s : State) : Prop where
  queues : s.queues = q
  children : q.children = []
  runExecQ : s.runExecQ = false
  pc : ∀ e r, s.pc ≠ .insert e r

/-- The step brings neither an event nor START_EXEC_QUEUE. -/
def Quiet (l : Label) : Prop :=
  (∀ e, l ≠ .netlink (some e)) ∧ ∀ a, l ≠ .control .startExecQueue a

theorem Idle.step {q : Queues} {s s' : State} {l : Label} (h : Idle q s) (hst : Step s l s')
    (hquiet : Quiet l) : Idle q s' := by
  obtain ⟨hq, hchildren, hrun, hpc⟩ := h
  cases hst with
  | @control r c a hpc' =>
    by_cases hr : r.control = true
    · rw [if_pos hr]
      cases c with
      | startExecQueue => exact absurd rfl (hquiet.2 a)
      | _ => exact ⟨hq, hchildren, hrun, by simp⟩
    · rw [if_neg hr]
      exact ⟨hq, hchildren, hrun, by simp⟩
  | netlink e => exact absurd rfl (hquiet.1 e)
  | insert answer hpc' => exact absurd hpc' (hpc _ _)
  | waitpid pid status _ hc => simp [hq, hchildren] at hc
  | exit pid status hc => simp [hq, hchildren] at hc
  | queue a =>
    rw [if_neg (by simp [hrun])]
    exact ⟨hq, hchildren, rfl, by simp⟩
  | top => exact ⟨hq, hchildren, hrun, fun e r => by dsimp only; split <;> simp⟩
  | sigchilds => exact ⟨hq, hchildren, hrun, fun e r => by dsimp only; split <;> simp⟩
  | signal => exact ⟨hq, hchildren, hrun, hpc⟩
  | _ => exact ⟨hq, hchildren, hrun, by simp⟩

/-- If events wait at `select` while no event process is alive, then they have been stopped or
    throttled, and nothing changes until a new event arrives or START_EXEC_QUEUE is received. -/
theorem throttled_stuck {s t : State} {ls : List Label} (h : Reachable s) (hpc : s.pc = .select)
    (hexec : s.queues.execList ≠ []) (hidle : s.queues.children = []) (hrun : Run Step s ls t)
    (hquiet : ∀ l ∈ ls, Quiet l) :
    (s.stopExecQ = true ∨ s.throttled = true) ∧ t.queues = s.queues := by
  have hawake := awake h
  have hearly : s.runExecQ = false := hawake.early (by simp [hpc, Pc.early])
  have hserved : Served s := hawake.queue.resolve_left (by simp [hearly])
  have hnone : s.queues.runningList = [] := by
    have hpids := (accounted h).pids
    rw [hidle, List.map_nil] at hpids
    exact List.map_eq_nil_iff.1 hpids.eq_nil
  refine ⟨(hserved.resolve_left hexec).resolve_left (not_not.2 hnone), ?_⟩
  have hinit : Idle s.queues s := ⟨rfl, hidle, hearly, by simp [hpc]⟩
  exact (Run.inv (fun _ _ _ hs hst => hs.step hst.1 hst.2) hinit (Run.and_iff.2 ⟨hrun, hquiet⟩)).queues

theorem interrupted {s : State} (hpc : s.pc = .select) (hexit : s.udevExit = false) :
    Run Step s [.interrupted, .top] s := by
  cases s
  dsimp only at hpc hexit
  subst hpc hexit
  exact ((Run.nil _).snoc (Step.interrupted rfl)).snoc (Step.top rfl)

/-- The system is loaded by others; when it no longer is, udevd sleeps on. -/
theorem throttled_disk : ∃ s t, Run Step s [.interrupted, .top] t ∧ s.queues.execList ≠ [] ∧
    (s.stopExecQ = true ∨ s.throttled = true) ∧ t.queues = s.queues := by
  have h1 := reachable_init.run (round (addOf "/sda" 1) ⟨100, fun _ => 100, fun _ => none⟩
    rfl rfl rfl rfl rfl rfl)
  have h2 := h1.step (.top rfl)
  exact ⟨_, _, interrupted rfl rfl, by decide,
    throttled_stuck h2 rfl (by decide) (by decide) (interrupted rfl rfl) (by simp [Quiet])⟩

/-! ## The limit of event processes -/

/-- At most `n` events run, if none has a timeout. -/
structure Bounded (n : ℤ) (q : Queues) : Prop where
  accounted : Accounted q
  length : (∀ e ∈ received q.log, e.timeout = 0) → q.runningList.length ≤ n

theorem Bounded.move {n limit : ℤ} (h0 : limit ≠ 0) (h1 : 1 ≤ n) (hn : limit + 2 ≤ n) {q r : Queues}
    (h : Bounded n q) (hm : Move limit q r) : Bounded n r := by
  refine ⟨h.accounted.move hm, fun htimeout => ?_⟩
  have hlen := h.length fun e he => htimeout e (hm.received_mono.subset he)
  cases hm with
  | forked kept rest msg pid hexec hbusy =>
    have hmem : msg.toUevent ∈ received q.log :=
      (h.accounted.mem_received _).2 (Or.inl (by simp [hexec]))
    have hroom := ((devpathBusy_eq_zero_iff q msg limit).1
      (hbusy (htimeout _ (by simpa using hmem)))).2.2
    rw [List.length_append, List.length_singleton]
    rcases hroom with h' | h' | h'
    · exact absurd h' h0
    · rw [h', List.length_nil]
      omega
    · omega
  | reap cs ds ms ns msg status hc hr =>
    rw [hr] at hlen
    simp only [msgQueueDelete_runningList, List.length_append, List.length_cons] at hlen ⊢
    omega
  | _ => exact hlen

theorem step_maxChilds {s s' : State} {l : Label} (h : Step s l s') :
    s'.maxChilds = s.maxChilds ∨ ∃ a, l = .control (.setMaxChilds s'.maxChilds) a := by
  cases h with
  | @control r c a hpc =>
    by_cases hr : r.control = true
    · rw [if_pos hr]
      cases c with
      | setMaxChilds k => exact Or.inr ⟨a, rfl⟩
      | _ => exact Or.inl rfl
    · rw [if_neg hr]
      exact Or.inl rfl
  | queue a =>
    left
    split <;> rfl
  | _ => exact Or.inl rfl

/-- As long as `max_childs` is set to no more than `limit`, and not to 0, and no event has a timeout,
    at most `limit + 2` event processes exist, or 1. -/
theorem children_le {maxChilds maxChildsRunning limit : ℤ} {n : ℕ} {ls : List Label} {s : State}
    (h : Run Step (init maxChilds maxChildsRunning n) ls s) (h0 : maxChilds ≠ 0)
    (hle : maxChilds ≤ limit)
    (hset : ∀ k a, .control (.setMaxChilds k) a ∈ ls → k ≠ 0 ∧ k ≤ limit)
    (htimeout : ∀ e ∈ received s.queues.log, e.timeout = 0) :
    s.queues.children.length ≤ max 1 (limit + 2) := by
  let I := fun s : State => s.maxChilds ≠ 0 ∧ s.maxChilds ≤ limit ∧ Bounded (max 1 (limit + 2)) s.queues
  have hinit : I (init maxChilds maxChildsRunning n) :=
    ⟨h0, hle, ⟨.nil, .nil, .nil, List.nodup_nil⟩, fun _ => by simp only [init, List.length_nil]; omega⟩
  have hok : ∀ l ∈ ls, ∀ k a, l = .control (.setMaxChilds k) a → k ≠ 0 ∧ k ≤ limit := by
    rintro l hl k a rfl
    exact hset k a hl
  have hstep : ∀ s l s', I s → (Step s l s' ∧ ∀ k a, l = .control (.setMaxChilds k) a → k ≠ 0 ∧ k ≤ limit) →
      I s' := by
    rintro s l s' ⟨hs0, hsle, hbounded⟩ ⟨hst, hok⟩
    have hlim : s'.maxChilds ≠ 0 ∧ s'.maxChilds ≤ limit := by
      rcases step_maxChilds hst with hmax | ⟨a, hl⟩
      · rw [hmax]
        exact ⟨hs0, hsle⟩
      · exact hok _ a hl
    exact ⟨hlim.1, hlim.2, (step_moves hst).inv
      (fun _ _ => Bounded.move hs0 (by omega) (by omega)) hbounded⟩
  obtain ⟨-, -, hbounded⟩ := Run.inv hstep hinit (Run.and_iff.2 ⟨h, hok⟩)
  rw [← List.length_map (·.pid), ← hbounded.accounted.pids.length_eq, List.length_map]
  exact hbounded.length htimeout

/-- Three disks, and `max_childs` is 1. -/
theorem children_le_disks : ∃ ls s, Run Step (init 1 8 0) ls s ∧ s.queues.children.length = 3 ∧
    s.queues.children.length ≤ max 1 (1 + 2 : ℤ) := by
  let pid (n : ℕ) : Answers := ⟨0, fun _ => 0, fun _ => some n⟩
  have h1 := round (s := init 1 8 0) (addOf "/sda" 1) (pid 7) rfl rfl rfl rfl rfl rfl
  have h2 := h1.append (round (addOf "/sdb" 2) (pid 8) rfl rfl rfl rfl rfl rfl)
  have h3 := h2.append (round (addOf "/sdc" 3) (pid 9) rfl rfl rfl rfl rfl rfl)
  exact ⟨_, _, h3, by decide, children_le h3 (by decide) (by decide) (by simp) (by decide)⟩

end Udev
