/-
  udevd — no event is lost, and events that belong together do not overlap.

  In every reachable state an event that has been queued is in exactly one place
  (`accounted`), two running events without a timeout are not in conflict
  (`exclusive`), and, as long as the kernel numbers the events in the order in
  which they arrive, an event starts after the earlier ones that conflict with
  it have ended (`inOrder`).
-/
import KernelLinux.Udev.Daemon
import Mathlib.Data.List.Count
import Mathlib.Data.List.Perm.Basic

namespace Udev

/-! ## The log -/

/-- The events that have been queued. -/
def received (log : List Entry) : List Uevent :=
  log.filterMap fun | .queued e => some e | _ => none

/-- The events for which a process has been forked. -/
def started (log : List Entry) : List Uevent :=
  log.filterMap fun | .forked e _ => some e | _ => none

/-- The events whose process has been reaped. -/
def finished (log : List Entry) : List Uevent :=
  log.filterMap fun | .exit e _ => some e | _ => none

/-- The events for which the fork has failed. -/
def dropped (log : List Entry) : List Uevent :=
  log.filterMap fun | .forkFailed e => some e | _ => none

@[simp] theorem received_snoc (l : List Entry) (x : Entry) :
    received (l ++ [x]) = received l ++ (match x with | .queued e => [e] | _ => []) := by
  cases x <;> simp [received]

@[simp] theorem started_snoc (l : List Entry) (x : Entry) :
    started (l ++ [x]) = started l ++ (match x with | .forked e _ => [e] | _ => []) := by
  cases x <;> simp [started]

@[simp] theorem finished_snoc (l : List Entry) (x : Entry) :
    finished (l ++ [x]) = finished l ++ (match x with | .exit e _ => [e] | _ => []) := by
  cases x <;> simp [finished]

@[simp] theorem dropped_snoc (l : List Entry) (x : Entry) :
    dropped (l ++ [x]) = dropped l ++ (match x with | .forkFailed e => [e] | _ => []) := by
  cases x <;> simp [dropped]

theorem Move.log_extends {limit : ℤ} {q r : Queues} (h : Move limit q r) : q.log <+: r.log := by
  cases h with
  | exit => exact List.prefix_rfl
  | stray => exact List.prefix_rfl
  | _ => exact List.prefix_append _ _

theorem received_mono {l l' : List Entry} (h : l <+: l') : received l <+: received l' := h.filterMap _

theorem Move.received_mono {limit : ℤ} {q r : Queues} (h : Move limit q r) :
    received q.log <+: received r.log := Udev.received_mono h.log_extends

theorem Moves.log_extends {limit : ℤ} {q r : Queues} (h : Moves limit q r) : q.log <+: r.log := by
  induction h with
  | refl => exact List.prefix_rfl
  | tail _ hm ih => exact ih.trans hm.log_extends

/-! ## Events and processes -/

/-- Where the events are, and which process is whose. -/
structure Accounted (q : Queues) : Prop where
  received : (received q.log).Perm (q.execList.map (·.toUevent) ++ q.runningList.map (·.toUevent) ++
    finished q.log ++ dropped q.log)
  started : (started q.log).Perm (q.runningList.map (·.toUevent) ++ finished q.log)
  pids : (q.runningList.map (·.pid)).Perm (q.children.map (·.pid))
  nodup : (q.children.map (·.pid)).Nodup

theorem Accounted.move {limit : ℤ} {q r : Queues} (h : Accounted q) (hm : Move limit q r) :
    Accounted r := by
  obtain ⟨hrec, hst, hpids, hnodup⟩ := h
  have hreceived := fun a => hrec.count_eq a
  have hstarted := fun a => hst.count_eq a
  simp only [List.count_append] at hreceived hstarted
  cases hm with
  | enqueue e =>
    refine ⟨List.perm_iff_count.2 fun a => ?_, List.perm_iff_count.2 fun a => ?_, hpids, hnodup⟩
    · have := hreceived a
      simp only [received_snoc, finished_snoc, dropped_snoc, List.map_append, List.count_append,
        List.map_cons, List.map_nil, List.append_nil]
      omega
    · simpa using hstarted a
  | forked kept rest msg pid hq hbusy h0 hfresh =>
    refine ⟨List.perm_iff_count.2 fun a => ?_, List.perm_iff_count.2 fun a => ?_, ?_, ?_⟩
    · have := hreceived a
      simp only [hq, received_snoc, finished_snoc, dropped_snoc, List.map_append, List.count_append,
        List.map_cons, List.map_nil, List.append_nil, List.count_cons, List.count_nil] at this ⊢
      omega
    · have := hstarted a
      simp only [started_snoc, finished_snoc, List.map_append, List.count_append,
        List.map_cons, List.map_nil, List.append_nil] at this ⊢
      omega
    · simpa using hpids.append_right [pid]
    · simpa [List.nodup_append, hnodup] using hfresh
  | forkFailed kept rest msg hq =>
    refine ⟨List.perm_iff_count.2 fun a => ?_, List.perm_iff_count.2 fun a => ?_, hpids, hnodup⟩
    · have := hreceived a
      simp only [hq, msgQueueDelete, received_snoc, finished_snoc, dropped_snoc, List.map_append,
        List.count_append, List.map_cons, List.append_nil, List.count_cons, List.count_nil] at this ⊢
      omega
    · simpa using hstarted a
  | exit cs ds pid status hc =>
    refine ⟨hrec, hst, ?_, ?_⟩
    · simpa [hc] using hpids
    · simpa [hc] using hnodup
  | reap cs ds ms ns msg status hc hr =>
    refine ⟨List.perm_iff_count.2 fun a => ?_, List.perm_iff_count.2 fun a => ?_, ?_, ?_⟩
    · have := hreceived a
      simp only [hr, msgQueueDelete, received_snoc, finished_snoc, dropped_snoc, List.map_append,
        List.count_append, List.map_cons, List.append_nil, List.count_cons, List.count_nil] at this ⊢
      omega
    · have := hstarted a
      simp only [hr, msgQueueDelete, started_snoc, finished_snoc, List.map_append,
        List.count_append, List.map_cons, List.append_nil, List.count_cons, List.count_nil] at this ⊢
      omega
    · rw [hr, hc] at hpids
      simp only [List.map_append, List.map_cons] at hpids
      simpa using (List.perm_middle.symm.trans (hpids.trans List.perm_middle)).cons_inv
    · rw [hc] at hnodup
      exact hnodup.sublist (by simp)
  | stray cs ds pid status hc hr =>
    have hpid : pid ∈ q.runningList.map (·.pid) := hpids.mem_iff.2 (by simp [hc])
    obtain ⟨m, hm, hmp⟩ := List.mem_map.1 hpid
    exact absurd hmp (hr m hm)

theorem accounted {s : State} (h : Reachable s) : Accounted s.queues :=
  h.inv ⟨.nil, .nil, .nil, List.nodup_nil⟩ fun _ _ _ => Accounted.move

/-- A disk runs, a partition of it waits. -/
theorem accounted_partition : ∃ s, Reachable s ∧ s.queues.execList.length = 1 ∧
    s.queues.runningList.length = 1 ∧ Accounted s.queues := by
  have h1 := reachable_init.run (round (addOf "/sda" 1) unloaded rfl rfl rfl rfl rfl rfl)
  have h2 := h1.run (round (addOf "/sda/1" 2) unloaded rfl rfl rfl rfl rfl rfl)
  exact ⟨_, h2, by decide, by decide, accounted h2⟩

/-! ## Events in conflict do not overlap -/

/-- Whatever the event that has started later is in conflict with was not running then. -/
def Apart (q : Queues) : Prop :=
  q.runningList.Pairwise fun a b => b.timeout = 0 → ¬ Conflict a.toUevent b.toUevent

theorem Apart.move {limit : ℤ} {q r : Queues} (h : Apart q) (hm : Move limit q r) : Apart r := by
  cases hm with
  | forked kept rest msg pid hq hbusy h0 hfresh =>
    refine List.pairwise_append.2 ⟨h, List.pairwise_singleton _ _, fun a ha b hb => ?_⟩
    obtain rfl := List.mem_singleton.1 hb
    exact fun htimeout => ((devpathBusy_eq_zero_iff q msg limit).1 (hbusy htimeout)).2.1 a ha
  | reap cs ds ms ns msg status hc hr =>
    rw [Apart, hr] at h
    exact h.sublist (by simp)
  | _ => exact h

/-- Two events that run at the same time: unless the later one has a timeout, their devices are
    not the same and none is an ancestor of the other, and the physical device that the later one
    adds to is not that of the earlier one, an ancestor or a descendant. -/
theorem exclusive {s : State} (h : Reachable s) :
    s.queues.runningList.Pairwise fun a b => b.timeout = 0 →
      ¬ (Related a.devpath b.devpath ∧ min a.devpath.length b.devpath.length < pathSize) ∧
      ∀ phys, b.physdevpath = some phys → b.action = add →
        ¬ (Related a.devpath phys ∧ min a.devpath.length phys.length < pathSize) := by
  have hapart : Apart s.queues := h.inv List.Pairwise.nil fun _ _ _ => Apart.move
  refine hapart.imp fun {a b} hab htimeout => ?_
  have hab := hab htimeout
  simp only [Conflict, compareDevpath_ne_zero_iff, not_or, not_exists, not_and] at hab
  exact ⟨not_and.2 hab.1, fun phys hphys hadd => not_and.2 (hab.2 phys hphys hadd)⟩

/-- Two disks run at the same time. -/
theorem exclusive_disks : ∃ s, Reachable s ∧ s.queues.runningList.length = 2 ∧
    s.queues.runningList.Pairwise fun a b => b.timeout = 0 →
      ¬ (Related a.devpath b.devpath ∧ min a.devpath.length b.devpath.length < pathSize) ∧
      ∀ phys, b.physdevpath = some phys → b.action = add →
        ¬ (Related a.devpath phys ∧ min a.devpath.length phys.length < pathSize) := by
  have h1 := reachable_init.run (round (addOf "/sda" 1) ⟨0, fun _ => 0, fun _ => some 7⟩ rfl rfl rfl rfl rfl rfl)
  have h2 := h1.run (round (addOf "/sdb" 2) ⟨0, fun _ => 0, fun _ => some 8⟩ rfl rfl rfl rfl rfl rfl)
  exact ⟨_, h2, by decide, exclusive h2⟩

/-! ## The order of events in conflict -/

/-- The events arrive in the order of their numbers. -/
def InOrder (log : List Entry) : Prop := (received log).Pairwise fun a b => a.seqnum < b.seqnum

theorem InOrder.nodup {log : List Entry} (h : InOrder log) : (received log).Nodup :=
  h.imp fun {a b} hab hne => by rw [hne] at hab; exact absurd hab (Nat.lt_irrefl _)

/-- When an event without a timeout is started, the earlier ones in conflict with it are over. -/
def Ordered (log : List Entry) : Prop :=
  ∀ l b pid l', log = l ++ .forked b pid :: l' → b.timeout = 0 →
    ∀ a ∈ received log, a.seqnum < b.seqnum → Conflict a b → a ∈ finished l ∨ a ∈ dropped l

theorem mem_started {l l' : List Entry} {b : Uevent} {pid : ℕ} :
    b ∈ started (l ++ .forked b pid :: l') := by
  simp [started]

theorem Ordered.snoc {log : List Entry} {x : Entry} (h : Ordered log)
    (hold : ∀ b ∈ started log, ∀ a ∈ received (log ++ [x]), a.seqnum < b.seqnum → a ∈ received log)
    (hnew : ∀ b pid, x = .forked b pid → b.timeout = 0 → ∀ a ∈ received log, a.seqnum < b.seqnum →
      Conflict a b → a ∈ finished log ∨ a ∈ dropped log) : Ordered (log ++ [x]) := by
  intro l b pid l' hlog htimeout a ha hlt hconf
  rcases l'.eq_nil_or_concat with rfl | ⟨l', y, rfl⟩
  · obtain ⟨rfl, hx⟩ := List.append_inj' hlog rfl
    have hx := (List.cons.inj hx).1
    subst hx
    exact hnew b pid rfl htimeout a (by simpa using ha) hlt hconf
  · have hlog' : log ++ [x] = (l ++ .forked b pid :: l') ++ [y] := by simpa using hlog
    obtain ⟨rfl, -⟩ := List.append_inj' hlog' rfl
    exact h l b pid l' rfl htimeout a (hold b mem_started a ha hlt) hlt hconf

/-- In a list sorted by a number, the elements below a bound come first. -/
theorem mem_takeWhile_of_pairwise {α : Type} {f : α → ℕ} {xs : List α} {n : ℕ} {a : α}
    (hs : xs.Pairwise fun x y => f x < f y) (ha : a ∈ xs) (hn : f a < n) :
    a ∈ xs.takeWhile fun x => f x < n := by
  induction xs with
  | nil => exact absurd ha List.not_mem_nil
  | cons x xs ih =>
    obtain ⟨hx, hs⟩ := List.pairwise_cons.1 hs
    rcases List.mem_cons.1 ha with rfl | ha
    · rw [List.takeWhile_cons_of_pos (by simpa using hn)]
      exact List.mem_cons_self
    · have hlt : f x < n := (hx a ha).trans hn
      rw [List.takeWhile_cons_of_pos (by simpa using hlt)]
      exact List.mem_cons_of_mem _ (ih hs ha)

/-- What holds as long as the events arrive in order. -/
structure Arrival (q : Queues) : Prop where
  accounted : Accounted q
  /-- `exec_list` is in the order of arrival -/
  arrival : (q.execList.map (·.toUevent)).Sublist (received q.log)
  ordered : InOrder q.log → Ordered q.log

theorem Accounted.mem_received {q : Queues} (h : Accounted q) (a : Uevent) :
    a ∈ Udev.received q.log ↔ a ∈ q.execList.map (·.toUevent) ∨ a ∈ q.runningList.map (·.toUevent) ∨
      a ∈ finished q.log ∨ a ∈ dropped q.log := by
  rw [h.received.mem_iff]
  simp only [List.mem_append, or_assoc]

theorem Accounted.started_subset {q : Queues} (h : Accounted q) {b : Uevent}
    (hb : b ∈ Udev.started q.log) : b ∈ Udev.received q.log := by
  rw [h.mem_received]
  rcases List.mem_append.1 (h.started.mem_iff.1 hb) with hb | hb
  · exact Or.inr (Or.inl hb)
  · exact Or.inr (Or.inr (Or.inl hb))

/-- What `devpath_busy` lets start is not in conflict with an earlier event that is pending. -/
theorem Arrival.free {q : Queues} (h : Arrival q) (horder : InOrder q.log) {limit : ℤ} {msg : Msg}
    (hbusy : devpathBusy q msg limit = 0) {a : Uevent} (hlt : a.seqnum < msg.seqnum)
    (hpending : a ∈ q.execList.map (·.toUevent) ∨ a ∈ q.runningList.map (·.toUevent)) :
    ¬ Conflict a msg.toUevent := by
  obtain ⟨hwait, hrun, -⟩ := (devpathBusy_eq_zero_iff q msg limit).1 hbusy
  rcases hpending with ha | ha
  · -- `exec_list` is sorted, so the loop does not end before it
    obtain ⟨m, hm, rfl⟩ := List.mem_map.1 ha
    have hsorted := List.pairwise_map.1 (horder.sublist h.arrival)
    exact hwait m (mem_takeWhile_of_pairwise hsorted hm hlt)
  · obtain ⟨m, hm, rfl⟩ := List.mem_map.1 ha
    exact hrun m hm

/-- An entry that is not that of a new event or a fork keeps the order. -/
theorem Ordered.snoc_other {log : List Entry} {x : Entry} (h : InOrder log → Ordered log)
    (hq : ∀ e, x ≠ .queued e) (hf : ∀ b pid, x ≠ .forked b pid) :
    InOrder (log ++ [x]) → Ordered (log ++ [x]) := by
  have hrec : received (log ++ [x]) = received log := by cases x <;> simp_all
  intro horder
  rw [InOrder, hrec] at horder
  exact (h horder).snoc (fun _ _ a ha _ => hrec ▸ ha) fun b pid hx => absurd hx (hf b pid)

theorem Arrival.move {limit : ℤ} {q r : Queues} (h : Arrival q) (hm : Move limit q r) : Arrival r := by
  have hacc := h.accounted.move hm
  have hfree := h.free
  obtain ⟨hq, harr, hord⟩ := h
  cases hm with
  | enqueue e =>
    refine ⟨hacc, ?_, fun horder => ?_⟩
    · simpa using harr.append (List.Sublist.refl [e])
    · simp only [InOrder, received_snoc] at horder
      obtain ⟨horder, -, hlast⟩ := List.pairwise_append.1 horder
      refine (hord horder).snoc (fun b hb a ha hlt => ?_) fun _ _ hx => by cases hx
      simp only [received_snoc, List.mem_append, List.mem_singleton] at ha
      rcases ha with ha | rfl
      · exact ha
      · have := hlast b (hq.started_subset hb) a (List.mem_singleton_self a)
        omega
  | forked kept rest msg pid hexec hbusy h0 hfresh =>
    refine ⟨hacc, ?_, fun horder => ?_⟩
    · rw [received_snoc, List.append_nil]
      exact (List.Sublist.map _ (by simp [hexec])).trans harr
    · simp only [InOrder, received_snoc, List.append_nil] at horder
      refine (hord horder).snoc (fun _ _ a ha _ => by simpa using ha) ?_
      rintro b pid' hx htimeout a ha hlt hconf
      obtain ⟨rfl, -⟩ := Entry.forked.inj hx
      rcases (hq.mem_received a).1 ha with ha | ha | ha
      · exact absurd hconf (hfree horder (hbusy htimeout) hlt (Or.inl ha))
      · exact absurd hconf (hfree horder (hbusy htimeout) hlt (Or.inr ha))
      · exact ha
  | forkFailed kept rest msg hexec =>
    refine ⟨hacc, ?_, Ordered.snoc_other hord (fun _ => Entry.noConfusion) fun _ _ => Entry.noConfusion⟩
    simp only [msgQueueDelete, received_snoc, List.append_nil]
    exact (List.Sublist.map _ (by simp [hexec])).trans harr
  | reap cs ds ms ns msg status hc hr =>
    refine ⟨hacc, ?_, Ordered.snoc_other hord (fun _ => Entry.noConfusion) fun _ _ => Entry.noConfusion⟩
    simpa only [msgQueueDelete, received_snoc, List.append_nil] using harr
  | _ => exact ⟨hacc, harr, hord⟩

theorem arrival {s : State} (h : Reachable s) : Arrival s.queues :=
  h.inv ⟨⟨.nil, .nil, .nil, List.nodup_nil⟩, List.Sublist.refl _, fun _ l b pid l' hl => by
    simp at hl⟩ fun _ _ _ => Arrival.move

/-- If the events arrive in order, an event without a timeout is started only after every event
    with a smaller number that it is in conflict with is over. -/
theorem inOrder {s : State} (h : Reachable s) (horder : InOrder s.queues.log) {l l' : List Entry}
    {a b : Uevent} {pid : ℕ} (hlog : s.queues.log = l ++ .forked b pid :: l') (hb : b.timeout = 0)
    (ha : a ∈ received s.queues.log) (hlt : a.seqnum < b.seqnum) (hconf : Conflict a b) :
    a ∈ finished l ∨ a ∈ dropped l :=
  (arrival h).ordered horder l b pid l' hlog hb a ha hlt hconf

/-- A partition starts once the event of its disk is over, be it that its fork has failed. -/
theorem inOrder_partition : ∃ s l, Reachable s ∧ s.queues.log = l ++ [.forked (addOf "/sda/1" 2) 7] ∧
    (addOf "/sda" 1 ∈ finished l ∨ addOf "/sda" 1 ∈ dropped l) := by
  have h1 := reachable_init.run (round (addOf "/sda" 1) noForks rfl rfl rfl rfl rfl rfl)
  have h2 := h1.run (round (addOf "/sda/1" 2) unloaded rfl rfl rfl rfl rfl rfl)
  refine ⟨_, [.queued (addOf "/sda" 1), .forkFailed (addOf "/sda" 1), .queued (addOf "/sda/1" 2)], h2,
    by decide, ?_⟩
  exact @inOrder _ h2 (by unfold InOrder; decide) _ [] (addOf "/sda" 1) (addOf "/sda/1" 2) 7 (by decide)
    rfl (by decide) (by decide) (Or.inl (by decide))

end Udev
