/-
  udevd — the exported event state.

  The queue directory has a file for each device with a pending event and no
  other, and it exists exactly while an event is pending.  The failed directory
  has a file for each device whose last event was an "add" that failed, as long as
  nothing is pending for it (`exported`).  This needs device paths whose escaped
  form is a file name, of no more than NAME_MAX bytes.
-/
import KernelLinux.Udev.Events

namespace Udev

/-! ## Directories -/

/-- The names in a directory. -/
def names (dir : Option (List Str)) : List Str := dir.getD []

theorem mem_names_unlink {name n : Str} {dir : Option (List Str)} :
    n ∈ names (unlink name dir) ↔ n ∈ names dir ∧ n ≠ name := by
  cases dir <;> simp [names, unlink]

theorem mem_names_deletePath {n : Str} {dir : Option (List Str)} :
    n ∈ names (deletePath dir) ↔ n ∈ names dir := by
  rw [deletePath]
  split_ifs with h
  · simp [h, names]
  · rfl

theorem mem_names_create {name n : Str} {dir : Option (List Str)} (hname : name.length ≤ nameMax) :
    n ∈ names (create name (createPath dir)) ↔ n = name ∨ n ∈ names dir := by
  simp [create, if_pos hname, createPath, names]

theorem deletePath_ne (dir : Option (List Str)) : deletePath dir ≠ some [] := by
  rw [deletePath]
  split_ifs with h
  · simp
  · exact h

theorem eq_none_iff_names {dir : Option (List Str)} (h : dir ≠ some []) : dir = none ↔ names dir = [] := by
  cases dir with
  | none => simp [names]
  | some ns => simpa [names] using h

/-! ## export_event_state -/

/-- The events that are queued or running. -/
def pending (q : Queues) : List Msg := q.runningList ++ q.execList

section
variable (q : Queues) (msg : Msg)

/-- Another event of the device is pending. -/
def Busy : Prop := msg.devpath ∈ (pending q).map (·.devpath)

instance : Decidable (Busy q msg) := inferInstanceAs (Decidable (_ ∈ _))

theorem export_queued (hname : (escape msg.devpath).length ≤ nameMax) :
    (∀ n, n ∈ names (exportEventState q msg .queued).queue ↔
      n = escape msg.devpath ∨ n ∈ names q.files.queue) ∧
    (exportEventState q msg .queued).queue ≠ some [] ∧
    ∀ n, n ∈ names (exportEventState q msg .queued).failed ↔
      n ∈ names q.files.failed ∧ n ≠ escape msg.devpath := by
  refine ⟨fun n => mem_names_create hname, ?_, fun n => ?_⟩
  · simp only [exportEventState, create, if_pos hname, createPath, Option.map_some, ne_eq,
      Option.some.injEq]
    exact List.ne_nil_of_mem List.mem_insert_self
  · rw [exportEventState, mem_names_deletePath, mem_names_unlink]

theorem export_finished {state : EventState} (hstate : state ≠ .queued)
    (hname : (escape msg.devpath).length ≤ nameMax) (hmem : escape msg.devpath ∈ names q.files.queue)
    (htidy : q.files.queue ≠ some []) :
    (∀ n, n ∈ names (exportEventState q msg state).queue ↔
      n ∈ names q.files.queue ∧ (n = escape msg.devpath → Busy q msg)) ∧
    (exportEventState q msg state).queue ≠ some [] ∧
    ∀ n, n ∈ names (exportEventState q msg state).failed ↔
      (n ∈ names q.files.failed ∧ n ≠ escape msg.devpath) ∨
        (n = escape msg.devpath ∧ state = .failed ∧ ¬ Busy q msg) := by
  by_cases hb : Busy q msg
  · -- don't remove, if events for the same path are still pending
    have heq : exportEventState q msg state =
        ⟨q.files.queue, deletePath (unlink (escape msg.devpath) q.files.failed)⟩ := by
      cases state with
      | queued => exact absurd rfl hstate
      | _ => exact if_pos hb
    rw [heq]
    refine ⟨fun n => by simp [hb], htidy, fun n => ?_⟩
    rw [mem_names_deletePath, mem_names_unlink]
    simp [hb]
  · cases state with
    | queued => exact absurd rfl hstate
    | finished =>
      have heq : exportEventState q msg .finished = ⟨deletePath (unlink (escape msg.devpath) q.files.queue),
          deletePath (unlink (escape msg.devpath) q.files.failed)⟩ := if_neg hb
      rw [heq]
      refine ⟨fun n => ?_, deletePath_ne _, fun n => ?_⟩
      · rw [mem_names_deletePath, mem_names_unlink]
        simp [hb]
      · rw [mem_names_deletePath, mem_names_unlink]
        simp
    | failed =>
      have heq : exportEventState q msg .failed = ⟨deletePath (unlink (escape msg.devpath) q.files.queue),
          create (escape msg.devpath)
            (createPath (deletePath (unlink (escape msg.devpath) q.files.failed)))⟩ :=
        (if_neg hb).trans (if_pos ⟨hmem, hname⟩)
      rw [heq]
      refine ⟨fun n => ?_, deletePath_ne _, fun n => ?_⟩
      · rw [mem_names_deletePath, mem_names_unlink]
        simp [hb]
      · rw [mem_names_create hname, mem_names_deletePath, mem_names_unlink]
        simp only [hb, not_false_eq_true, and_true]
        exact or_comm

end

/-! ## The invariant -/

/-- The name of the event's files is a file name. -/
def Short (e : Uevent) : Prop := 0 ∉ e.devpath ∧ (escape e.devpath).length ≤ nameMax

/-- The last event of the device with the name that is over was an "add" that failed, and no other
    has been queued since. -/
def outcome (name : Str) : List Entry → Bool :=
  List.foldl (fun b x =>
    match x with
    | .queued e => b && escape e.devpath ≠ name
    | .forked _ _ => b
    | .forkFailed e => b && escape e.devpath ≠ name
    | .exit e status => if escape e.devpath = name then status ≠ 0 ∧ e.action = add else b) false

structure Exported (q : Queues) : Prop where
  clean : ∀ m ∈ pending q, m.exitstatus = 0
  queue : ∀ n, n ∈ names q.files.queue ↔ ∃ m ∈ pending q, escape m.devpath = n
  tidy : q.files.queue ≠ some []
  failed : ∀ n, n ∈ names q.files.failed ↔
    outcome n q.log = true ∧ ∀ m ∈ pending q, escape m.devpath ≠ n

theorem busy_iff {q : Queues} {msg : Msg} (hq : ∀ m ∈ pending q, Short m.toUevent)
    (hmsg : Short msg.toUevent) :
    Busy q msg ↔ ∃ m ∈ pending q, escape m.devpath = escape msg.devpath := by
  rw [Busy, List.mem_map]
  constructor
  · rintro ⟨m, hm, h⟩
    exact ⟨m, hm, congrArg escape h⟩
  · rintro ⟨m, hm, h⟩
    exact ⟨m, hm, escape_inj (hq m hm).1 hmsg.1 h⟩

/-- A message leaves the queues. -/
theorem Exported.delete {q r : Queues} {msg msg' : Msg} {x : Entry} (h : Exported q)
    (hpending : ∀ m, m ∈ pending q ↔ m = msg ∨ m ∈ pending r) (hfiles : r.files = q.files)
    (hlog : r.log = q.log ++ [x]) (hmsg : msg'.toUevent = msg.toUevent)
    (hshort : ∀ m ∈ pending q, Short m.toUevent)
    (houtcome : ∀ n, outcome n (q.log ++ [x]) =
      if n = escape msg.devpath then decide (msg'.exitstatus ≠ 0 ∧ msg'.action = add)
      else outcome n q.log) :
    Exported (msgQueueDelete r msg') := by
  have hdevpath : msg'.devpath = msg.devpath := congrArg Uevent.devpath hmsg
  have hmem : msg ∈ pending q := (hpending msg).2 (Or.inl rfl)
  have hsub : ∀ m ∈ pending r, m ∈ pending q := fun m hm => (hpending m).2 (Or.inr hm)
  have hname : escape msg'.devpath ∈ names r.files.queue := by
    rw [hfiles, hdevpath]
    exact (h.queue _).2 ⟨msg, hmem, rfl⟩
  have hbusy : Busy r msg' ↔ ∃ m ∈ pending r, escape m.devpath = escape msg.devpath := by
    rw [← hdevpath]
    exact busy_iff (fun m hm => hshort m (hsub m hm)) (hmsg ▸ hshort msg hmem)
  let state : EventState := if msg'.exitstatus ≠ 0 ∧ msg'.action = add then .failed else .finished
  have hstate : state ≠ .queued := by
    simp only [state]
    split <;> simp
  have hfailed : state = .failed ↔ msg'.exitstatus ≠ 0 ∧ msg'.action = add := by
    simp only [state]
    split <;> simp_all
  obtain ⟨hqueue, htidy, hfail⟩ := export_finished r msg' hstate (hdevpath ▸ (hshort msg hmem).2) hname
    (hfiles ▸ h.tidy)
  rw [hdevpath, hfiles] at hqueue hfail
  refine ⟨fun m hm => h.clean m (hsub m hm), fun n => (hqueue n).trans ?_, htidy,
    fun n => (hfail n).trans ?_⟩
  · rw [h.queue, hbusy]
    constructor
    · rintro ⟨⟨m, hm, rfl⟩, hn⟩
      rcases (hpending m).1 hm with rfl | hm
      · exact hn rfl
      · exact ⟨m, hm, rfl⟩
    · rintro ⟨m, hm, rfl⟩
      exact ⟨⟨m, hsub m hm, rfl⟩, fun h => ⟨m, hm, h⟩⟩
  · rw [msgQueueDelete_log, hlog, houtcome, hfailed, h.failed, hbusy]
    by_cases hn : n = escape msg.devpath
    · subst hn
      simp [pending]
    · simp only [hn, if_false, ne_eq, not_false_eq_true, and_true, false_and, or_false]
      refine and_congr_right fun _ => ⟨fun hne m hm => hne m (hsub m hm), fun hne m hm => ?_⟩
      rcases (hpending m).1 hm with rfl | hm
      · exact Ne.symm hn
      · exact hne m hm

theorem outcome_snoc (n : Str) (log : List Entry) (x : Entry) :
    outcome n (log ++ [x]) =
      match x with
      | .queued e => outcome n log && escape e.devpath ≠ n
      | .forked _ _ => outcome n log
      | .forkFailed e => outcome n log && escape e.devpath ≠ n
      | .exit e status =>
        if escape e.devpath = n then decide (status ≠ 0 ∧ e.action = add) else outcome n log := by
  rw [outcome, List.foldl_append]
  rfl

/-- Only the devices and the exit status of the pending messages matter. -/
theorem Exported.congr {q r : Queues} (h : Exported q) (hfiles : r.files = q.files)
    (hlog : ∀ n, outcome n r.log = outcome n q.log)
    (hpending : ∀ d k, (∃ m ∈ pending r, m.devpath = d ∧ m.exitstatus = k) ↔
      ∃ m ∈ pending q, m.devpath = d ∧ m.exitstatus = k) : Exported r := by
  have hto : ∀ m ∈ pending r, ∃ m' ∈ pending q, m'.devpath = m.devpath ∧ m'.exitstatus = m.exitstatus :=
    fun m hm => (hpending _ _).1 ⟨m, hm, rfl, rfl⟩
  have hof : ∀ m ∈ pending q, ∃ m' ∈ pending r, m'.devpath = m.devpath ∧ m'.exitstatus = m.exitstatus :=
    fun m hm => (hpending _ _).2 ⟨m, hm, rfl, rfl⟩
  refine ⟨fun m hm => ?_, fun n => ?_, hfiles ▸ h.tidy, fun n => ?_⟩
  · obtain ⟨m', hm', -, hstatus⟩ := hto m hm
    exact hstatus ▸ h.clean m' hm'
  · rw [hfiles, h.queue]
    constructor
    · rintro ⟨m, hm, rfl⟩
      obtain ⟨m', hm', hd, -⟩ := hof m hm
      exact ⟨m', hm', congrArg escape hd⟩
    · rintro ⟨m, hm, rfl⟩
      obtain ⟨m', hm', hd, -⟩ := hto m hm
      exact ⟨m', hm', congrArg escape hd⟩
  · rw [hfiles, hlog, h.failed]
    refine and_congr_right fun _ => ⟨fun hne m hm => ?_, fun hne m hm => ?_⟩
    · obtain ⟨m', hm', hd, -⟩ := hto m hm
      exact hd ▸ hne m' hm'
    · obtain ⟨m', hm', hd, -⟩ := hof m hm
      exact hd ▸ hne m' hm'

theorem Exported.move {limit : ℤ} {q r : Queues} (h : Exported q) (hm : Move limit q r)
    (hacc : Accounted q) (hshort : ∀ e ∈ received r.log, Short e) : Exported r := by
  have hpending : ∀ m ∈ pending q, Short m.toUevent := fun m hm' => by
    refine hshort _ (hm.received_mono.subset ((hacc.mem_received _).2 ?_))
    rcases List.mem_append.1 hm' with hm' | hm'
    · exact Or.inr (Or.inl (List.mem_map_of_mem hm'))
    · exact Or.inl (List.mem_map_of_mem hm')
  cases hm with
  | enqueue e =>
    obtain ⟨hqueue, htidy, hfail⟩ := export_queued q ⟨e, 0, 0⟩ (hshort e (by simp)).2
    have hmem : ∀ m, m ∈ q.runningList ++ (q.execList ++ [⟨e, 0, 0⟩]) ↔ m ∈ pending q ∨ m = ⟨e, 0, 0⟩ := by
      simp [pending, or_assoc]
    refine ⟨fun m hm => ?_, fun n => (hqueue n).trans ?_, htidy, fun n => (hfail n).trans ?_⟩
    · rcases (hmem m).1 hm with hm | rfl
      · exact h.clean m hm
      · rfl
    · rw [h.queue]
      constructor
      · rintro (rfl | ⟨m, hm, rfl⟩)
        · exact ⟨_, (hmem _).2 (Or.inr rfl), rfl⟩
        · exact ⟨m, (hmem _).2 (Or.inl hm), rfl⟩
      · rintro ⟨m, hm, rfl⟩
        rcases (hmem m).1 hm with hm | rfl
        · exact Or.inr ⟨m, hm, rfl⟩
        · exact Or.inl rfl
    · rw [h.failed, outcome_snoc]
      simp only [Bool.and_eq_true, decide_eq_true_eq, ne_eq, and_assoc]
      refine and_congr_right fun _ => ⟨fun ⟨hne, hn⟩ => ⟨Ne.symm hn, fun m hm => ?_⟩,
        fun ⟨hn, hne⟩ => ⟨fun m hm => hne m ((hmem m).2 (Or.inl hm)), Ne.symm hn⟩⟩
      rcases (hmem m).1 hm with hm | rfl
      · exact hne m hm
      · exact Ne.symm hn
  | forked kept rest msg pid hexec =>
    refine h.congr rfl (fun n => outcome_snoc n _ _) fun d k => ?_
    simp only [pending, hexec, List.mem_append, List.mem_cons, List.mem_nil_iff, or_false]
    constructor
    · rintro ⟨m, (hm | rfl) | hm, hd⟩
      · exact ⟨m, Or.inl hm, hd⟩
      · exact ⟨msg, Or.inr (Or.inr (Or.inl rfl)), hd⟩
      · exact ⟨m, Or.inr (by tauto), hd⟩
    · rintro ⟨m, hm | hm | rfl | hm, hd⟩
      · exact ⟨m, Or.inl (Or.inl hm), hd⟩
      · exact ⟨m, Or.inr (Or.inl hm), hd⟩
      · exact ⟨_, Or.inl (Or.inr rfl), hd⟩
      · exact ⟨m, Or.inr (Or.inr hm), hd⟩
  | forkFailed kept rest msg hexec =>
    have hmsg : msg.exitstatus = 0 := h.clean msg (by simp [pending, hexec])
    refine h.delete (fun m => ?_) rfl rfl rfl hpending fun n => ?_
    · simp only [pending, hexec, List.mem_append, List.mem_cons]
      tauto
    · rw [outcome_snoc]
      by_cases hn : n = escape msg.devpath
      · simp [hn, hmsg]
      · simp [hn, Ne.symm hn]
  | reap cs ds ms ns msg status hc hr =>
    refine @Exported.delete q _ msg _ _ h (fun m => ?_) rfl rfl rfl hpending fun n => ?_
    · simp only [pending, hr, List.mem_append, List.mem_cons]
      tauto
    · rw [outcome_snoc]
      simp only [eq_comm]
  | _ => exact ⟨h.clean, h.queue, h.tidy, h.failed⟩

/-- The files tell which devices have a pending event, and for which the last one has failed. -/
theorem exported {s : State} (h : Reachable s) (hshort : ∀ e ∈ received s.queues.log, Short e) :
    Exported s.queues := by
  let I := fun q : Queues => Accounted q ∧ ((∀ e ∈ received q.log, Short e) → Exported q)
  have hinit : I ⟨[], [], [], ⟨none, none⟩, []⟩ := by
    refine ⟨⟨.nil, .nil, .nil, List.nodup_nil⟩, fun _ => ⟨by simp [pending], ?_, by simp, ?_⟩⟩
    · simp [names, pending]
    · simp [names, outcome]
  have hI : I s.queues := h.inv hinit fun limit q r hq hm =>
    ⟨hq.1.move hm, fun hr => (hq.2 fun e he => hr e (hm.received_mono.subset he)).move hm hq.1 hr⟩
  exact hI.2 hshort

theorem Exported.queue_eq_none_iff {q : Queues} (h : Exported q) : q.files.queue = none ↔ pending q = [] := by
  rw [eq_none_iff_names h.tidy]
  constructor
  · intro hnames
    refine List.eq_nil_iff_forall_not_mem.2 fun m hm => ?_
    exact absurd ((h.queue _).2 ⟨m, hm, rfl⟩) (hnames ▸ List.not_mem_nil)
  · intro hpending
    refine List.eq_nil_iff_forall_not_mem.2 fun n hn => ?_
    obtain ⟨m, hm, -⟩ := (h.queue n).1 hn
    exact absurd hm (hpending ▸ List.not_mem_nil)

end Udev
