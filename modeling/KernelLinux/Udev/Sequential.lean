/-
  udevd — handling events concurrently is handling them in order.

  The event processes act on a shared world: sysfs, /dev, the database.  If the
  events arrive in the order of their numbers, and handlers of events that are not
  in conflict commute, then the world is at every time as if the events had been
  handled one by one in the order of their numbers (`oneByOne`).  The queues
  refine the machine of `Lib/Serial` (`Move.simulates`).
-/
import KernelLinux.Lib.Serial
import KernelLinux.Udev.Events
import Mathlib.Data.List.Nodup

namespace Udev

variable {α σ : Type} {act : Uevent → α → σ → σ}

/-- The daemon, what the process of each event has done so far, and the world. -/
structure Monitored (α σ : Type) where
  state : State
  did : Uevent → List α
  world : σ

/-- The daemon steps, or the process of a running event acts on the world. -/
inductive Monitored.Step (act : Uevent → α → σ → σ) : Monitored α σ → Monitored α σ → Prop
  | daemon {s s' : State} {l : Label} {did : Uevent → List α} {w : σ} : Udev.Step s l s' →
      Monitored.Step act ⟨s, did, w⟩ ⟨s', did, w⟩
  | act {s : State} {did : Uevent → List α} {w : σ} (m : Msg) (a : α) : m ∈ s.queues.runningList →
      ⟨m.pid, none⟩ ∈ s.queues.children →
      Monitored.Step act ⟨s, did, w⟩
        ⟨s, Function.update did m.toUevent (did m.toUevent ++ [a]), act m.toUevent a w⟩

/-- What a run of the daemon with its event processes reaches from the world `w₀`. -/
def Monitored.Reachable (act : Uevent → α → σ → σ) (w₀ : σ) (x : Monitored α σ) : Prop :=
  ∃ maxChilds maxChildsRunning n, Relation.ReflTransGen (Monitored.Step act)
    ⟨init maxChilds maxChildsRunning n, fun _ => [], w₀⟩ x

/-- Where an event is. -/
def phase (q : Queues) (e : Uevent) : Serial.Phase :=
  if e ∈ q.execList.map (·.toUevent) then .queued
  else if e ∈ q.runningList.map (·.toUevent) then .running
  else .over

/-- What the queues and the world are an implementation of. -/
def abstract (q : Queues) (did : Uevent → List α) (w : σ) : Serial.State Uevent α σ :=
  ⟨(received q.log).map fun e => ⟨e, phase q e, did e⟩, w⟩

/-- The events arrive in the order of their numbers, and none has a timeout. -/
structure Plain (log : List Entry) : Prop where
  inOrder : InOrder log
  timeout : ∀ e ∈ received log, e.timeout = 0

/-! ## Moves -/

theorem Plain.mono {log log' : List Entry} (h : Plain log') (hp : received log <+: received log') :
    Plain log :=
  ⟨h.inOrder.sublist hp.sublist, fun e he => h.timeout e (hp.subset he)⟩

/-- An event is in one place only. -/
theorem Accounted.disjoint {q : Queues} (h : Accounted q) (horder : InOrder q.log) {e : Uevent}
    (he : e ∈ q.runningList.map (·.toUevent)) : e ∉ q.execList.map (·.toUevent) := fun h' => by
  have hnodup := h.received.nodup_iff.1 horder.nodup
  rw [List.append_assoc, List.append_assoc] at hnodup
  exact (List.nodup_append.1 hnodup).2.2 e h' e (List.mem_append_left _ he) rfl

theorem Accounted.running_nodup {q : Queues} (h : Accounted q) (horder : InOrder q.log) :
    (q.runningList.map (·.toUevent)).Nodup := by
  have hnodup := h.received.nodup_iff.1 horder.nodup
  rw [List.append_assoc, List.append_assoc] at hnodup
  exact (List.nodup_append.1 (List.nodup_append.1 hnodup).2.1).1

theorem phase_congr {q r : Queues} {e : Uevent}
    (hexec : e ∈ r.execList.map (·.toUevent) ↔ e ∈ q.execList.map (·.toUevent))
    (hrun : e ∈ r.runningList.map (·.toUevent) ↔ e ∈ q.runningList.map (·.toUevent)) :
    phase r e = phase q e := by
  simp only [phase, hexec, hrun]

/-- Only the entry of the event `e` changes. -/
theorem abstract_step {q r : Queues} {did did' : Uevent → List α} {w w' : σ} {e : Uevent}
    (horder : InOrder q.log) (he : e ∈ received q.log) (hrec : received r.log = received q.log)
    (hphase : ∀ a ≠ e, phase r a = phase q a) (hdid : ∀ a ≠ e, did' a = did a)
    (hstep : ∀ es fs, (∀ d ∈ es, ∃ a, d = ⟨a, phase q a, did a⟩ ∧ a.seqnum < e.seqnum) →
      Serial.Step Conflict act ⟨es ++ ⟨e, phase q e, did e⟩ :: fs, w⟩
        ⟨es ++ ⟨e, phase r e, did' e⟩ :: fs, w'⟩) :
    Serial.Step Conflict act (abstract q did w) (abstract r did' w') := by
  obtain ⟨es, fs, hsplit⟩ := List.append_of_mem he
  have hnodup := horder.nodup
  rw [hsplit, List.nodup_middle, List.nodup_cons, List.mem_append, not_or] at hnodup
  have hcongr : ∀ l : List Uevent, e ∉ l →
      l.map (fun a => (⟨a, phase r a, did' a⟩ : Serial.Entry Uevent α)) =
        l.map fun a => ⟨a, phase q a, did a⟩ := fun l hl =>
    List.map_congr_left fun a ha => by
      rw [hphase a (ne_of_mem_of_not_mem ha hl), hdid a (ne_of_mem_of_not_mem ha hl)]
  rw [abstract, abstract, hrec, hsplit, List.map_append, List.map_append, List.map_cons, List.map_cons,
    hcongr es hnodup.1.1, hcongr fs hnodup.1.2]
  refine hstep _ _ fun d hd => ?_
  obtain ⟨a, ha, rfl⟩ := List.mem_map.1 hd
  rw [InOrder, hsplit] at horder
  exact ⟨a, rfl, (List.pairwise_append.1 horder).2.2 a ha e List.mem_cons_self⟩

/-- Events that have not been started have done nothing. -/
def Fresh (q : Queues) (did : Uevent → List α) : Prop :=
  ∀ e, e ∈ q.execList.map (·.toUevent) ∨ e ∉ received q.log → did e = []

theorem Fresh.mono {q r : Queues} {did : Uevent → List α} (h : Fresh q did)
    (hexec : (r.execList.map (·.toUevent)).Sublist (q.execList.map (·.toUevent)))
    (hrec : received r.log = received q.log) : Fresh r did := by
  rintro a (ha | ha)
  · exact h a (Or.inl (hexec.subset ha))
  · exact h a (Or.inr (hrec ▸ ha))

theorem phase_exec {q : Queues} {e : Uevent} (h : e ∈ q.execList.map (·.toUevent)) :
    phase q e = .queued := if_pos h

theorem phase_running {q : Queues} {e : Uevent} (h : e ∉ q.execList.map (·.toUevent))
    (h' : e ∈ q.runningList.map (·.toUevent)) : phase q e = .running := by
  rw [phase, if_neg h, if_pos h']

theorem phase_over {q : Queues} {e : Uevent} (h : e ∉ q.execList.map (·.toUevent))
    (h' : e ∉ q.runningList.map (·.toUevent)) : phase q e = .over := by
  rw [phase, if_neg h, if_neg h']

theorem pending_of_phase {q : Queues} {e : Uevent} (h : phase q e ≠ .over) :
    e ∈ q.execList.map (·.toUevent) ∨ e ∈ q.runningList.map (·.toUevent) := by
  by_contra hne
  rw [not_or] at hne
  exact h (phase_over hne.1 hne.2)

theorem notMem_middle {kept rest : List Msg} {msg : Msg}
    (h : ((kept ++ msg :: rest).map (·.toUevent)).Nodup) :
    msg.toUevent ∉ (kept ++ rest).map (·.toUevent) := by
  rw [List.map_append, List.map_cons, List.nodup_middle, List.nodup_cons] at h
  rw [List.map_append]
  exact h.1

theorem mem_middle {kept rest : List Msg} {msg : Msg} {a : Uevent} (h : a ≠ msg.toUevent) :
    a ∈ (kept ++ rest).map (·.toUevent) ↔ a ∈ (kept ++ msg :: rest).map (·.toUevent) := by
  simp [h]

/-- A move of the queues is a step of the machine, or none. -/
theorem Move.simulates {limit : ℤ} {q r : Queues} {did : Uevent → List α} (w : σ) (h : Move limit q r)
    (hq : Arrival q) (hplain : Plain r.log) (hfresh : Fresh q did) :
    Relation.ReflTransGen (Serial.Step Conflict act) (abstract q did w) (abstract r did w) ∧
      Fresh r did := by
  have hplain' := hplain.mono h.received_mono
  have horder := hplain'.inOrder
  have hexec_nodup := horder.nodup.sublist hq.arrival
  cases h with
  | enqueue e =>
    have horder' := hplain.inOrder
    rw [InOrder, received_snoc] at horder'
    have hne : ∀ a ∈ received q.log, a ≠ e := by
      rintro a ha rfl
      exact absurd ((List.pairwise_append.1 horder').2.2 a ha a (List.mem_singleton_self a))
        (Nat.lt_irrefl _)
    have hnew : e ∉ received q.log := fun he => hne e he rfl
    refine ⟨.single ?_, ?_⟩
    · have hentries : ∀ a ∈ received q.log, phase
          { q with
            execList := q.execList ++ [⟨e, 0, 0⟩]
            files := exportEventState q ⟨e, 0, 0⟩ .queued
            log := q.log ++ [.queued e] } a = phase q a := fun a ha =>
        phase_congr (by simp [hne a ha]) Iff.rfl
      simp only [abstract, received_snoc, List.map_append, List.map_singleton]
      rw [List.map_congr_left fun a ha => congrArg (Serial.Entry.mk a · (did a)) (hentries a ha),
        phase_exec (by simp), hfresh e (Or.inr hnew)]
      exact .arrive _ w e
    · rintro a (ha | ha)
      · rw [List.map_append, List.mem_append] at ha
        rcases ha with ha | ha
        · exact hfresh a (Or.inl ha)
        · obtain rfl : a = e := List.mem_singleton.1 ha
          exact hfresh a (Or.inr hnew)
      · exact hfresh a (Or.inr fun h => ha (by simp [h]))
  | forked kept rest msg pid hexec hbusy h0 hpid =>
    have hmem : msg.toUevent ∈ q.execList.map (·.toUevent) := by simp [hexec]
    have hrec := (hq.accounted.mem_received _).2 (Or.inl hmem)
    rw [hexec] at hexec_nodup
    refine ⟨.single ?_, hfresh.mono (List.Sublist.map _ (by simp [hexec])) (by simp)⟩
    refine abstract_step horder hrec (by simp) (fun a ha => phase_congr ?_ (by simp [ha]))
      (fun _ _ => rfl) fun es fs hes => ?_
    · rw [hexec]
      exact mem_middle ha
    · rw [phase_exec hmem, phase_running (notMem_middle hexec_nodup) (by simp), hfresh _ (Or.inl hmem)]
      refine .start es fs w msg.toUevent fun d hd hover => ?_
      obtain ⟨a, rfl, hlt⟩ := hes d hd
      exact hq.free horder (hbusy (hplain'.timeout _ hrec)) hlt (pending_of_phase hover)
  | forkFailed kept rest msg hexec =>
    have hmem : msg.toUevent ∈ q.execList.map (·.toUevent) := by simp [hexec]
    have hrec := (hq.accounted.mem_received _).2 (Or.inl hmem)
    have hrun : msg.toUevent ∉ q.runningList.map (·.toUevent) := fun h =>
      hq.accounted.disjoint horder h hmem
    rw [hexec] at hexec_nodup
    refine ⟨.single ?_, hfresh.mono (List.Sublist.map _ (by simp [hexec])) (by simp)⟩
    refine abstract_step horder hrec (by simp) (fun a ha => phase_congr ?_ Iff.rfl)
      (fun _ _ => rfl) fun es fs hes => ?_
    · rw [hexec]
      exact mem_middle ha
    · rw [phase_exec hmem, hfresh _ (Or.inl hmem), phase_over]
      · exact .drop es fs w msg.toUevent
      · exact notMem_middle hexec_nodup
      · exact hrun
  | exit cs ds pid status hc => exact ⟨.refl, hfresh⟩
  | reap cs ds ms ns msg status hc hrun =>
    have hmem : msg.toUevent ∈ q.runningList.map (·.toUevent) := by simp [hrun]
    have hexec := hq.accounted.disjoint horder hmem
    have hrec := (hq.accounted.mem_received _).2 (Or.inr (Or.inl hmem))
    have hrun_nodup := hq.accounted.running_nodup horder
    rw [hrun] at hrun_nodup
    refine ⟨.single ?_, hfresh.mono (List.Sublist.refl _) (by simp)⟩
    refine abstract_step horder hrec (by simp) (fun a ha => phase_congr Iff.rfl ?_)
      (fun _ _ => rfl) fun es fs hes => ?_
    · rw [hrun]
      exact mem_middle ha
    · rw [phase_running hexec hmem, phase_over]
      · exact .finish es fs w msg.toUevent _
      · exact hexec
      · exact notMem_middle hrun_nodup
  | stray cs ds pid status hc hrun => exact ⟨.refl, hfresh⟩

theorem Moves.simulates {limit : ℤ} {q r : Queues} {did : Uevent → List α} (w : σ) (h : Moves limit q r)
    (hq : Arrival q) (hplain : Plain r.log) (hfresh : Fresh q did) :
    Relation.ReflTransGen (Serial.Step Conflict act) (abstract q did w) (abstract r did w) ∧
      Fresh r did := by
  induction h with
  | refl => exact ⟨.refl, hfresh⟩
  | tail hqp hm ih =>
    obtain ⟨hsim, hfresh⟩ := ih (hplain.mono hm.received_mono)
    obtain ⟨hsim', hfresh⟩ := hm.simulates w (Moves.inv (fun _ _ => Arrival.move) hqp hq) hplain hfresh
    exact ⟨hsim.trans hsim', hfresh⟩

/-! ## Runs -/

namespace Monitored
variable {w₀ : σ} {x : Monitored α σ}

theorem arrival (h : Reachable act w₀ x) : Arrival x.state.queues := by
  obtain ⟨maxChilds, maxChildsRunning, n, h⟩ := h
  induction h with
  | refl => exact Udev.arrival ⟨maxChilds, maxChildsRunning, n, [], .nil _⟩
  | tail _ hst ih =>
    cases hst with
    | daemon hst => exact (step_moves hst).inv (fun _ _ => Arrival.move) ih
    | act m a hm hc => exact ih

theorem Reachable.step {y : Monitored α σ} (h : Reachable act w₀ x) (hst : Step act x y) :
    Reachable act w₀ y := by
  obtain ⟨maxChilds, maxChildsRunning, n, h⟩ := h
  exact ⟨maxChilds, maxChildsRunning, n, h.tail hst⟩

/-- The machine of `Lib/Serial` follows the daemon and its event processes. -/
theorem simulates (h : Reachable act w₀ x) (hplain : Plain x.state.queues.log) :
    Relation.ReflTransGen (Serial.Step Conflict act) ⟨[], w₀⟩
      (abstract x.state.queues x.did x.world) ∧ Fresh x.state.queues x.did := by
  obtain ⟨maxChilds, maxChildsRunning, n, h⟩ := h
  induction h with
  | refl => exact ⟨.refl, fun _ _ => rfl⟩
  | @tail y z hy hst ih =>
    have hreach : Reachable act w₀ y := ⟨maxChilds, maxChildsRunning, n, hy⟩
    have harr := arrival hreach
    cases hst with
    | @daemon s s' l did w hst =>
      have hmoves := step_moves hst
      obtain ⟨hsim, hfresh⟩ := ih (hplain.mono (received_mono hmoves.log_extends))
      obtain ⟨hsim', hfresh⟩ := hmoves.simulates w harr hplain hfresh
      exact ⟨hsim.trans hsim', hfresh⟩
    | @act s did w m a hm hc =>
      obtain ⟨hsim, hfresh⟩ := ih hplain
      have hmem : m.toUevent ∈ s.queues.runningList.map (·.toUevent) := List.mem_map_of_mem hm
      have hexec := harr.accounted.disjoint hplain.inOrder hmem
      have hrec := (harr.accounted.mem_received _).2 (Or.inr (Or.inl hmem))
      refine ⟨hsim.tail ?_, ?_⟩
      · refine abstract_step hplain.inOrder hrec rfl (fun _ _ => rfl)
          (fun b hb => Function.update_of_ne hb _ _) fun es fs _ => ?_
        rw [phase_running hexec hmem]
        dsimp only
        rw [Function.update_self]
        exact .act es fs w m.toUevent _ a
      · rintro b hb
        have hne : b ≠ m.toUevent := by
          rintro rfl
          exact hb.elim hexec fun h => h hrec
        exact (Function.update_of_ne hne _ _).trans (hfresh b hb)

/-- The world that the event processes have made is the one that their actions make when the events
    are handled one after the other, in the order of their numbers. -/
theorem oneByOne
    (hcomm : ∀ d e, ¬ Conflict d e → ∀ a b w, act e b (act d a w) = act d a (act e b w))
    (h : Reachable act w₀ x) (horder : InOrder x.state.queues.log)
    (htimeout : ∀ e ∈ received x.state.queues.log, e.timeout = 0) :
    x.world = (received x.state.queues.log).foldl
      (fun w e => (x.did e).foldl (fun w a => act e a w) w) w₀ := by
  have hworld := (Serial.sequential hcomm (simulates h ⟨horder, htimeout⟩).1).world
  rw [Serial.replay, abstract, List.foldl_map] at hworld
  exact hworld

theorem run {s t : State} {ls : List Label} (did : Uevent → List α) (w : σ) (h : Run Udev.Step s ls t) :
    Relation.ReflTransGen (Step act) ⟨s, did, w⟩ ⟨t, did, w⟩ := by
  induction h with
  | nil => exact .refl
  | snoc _ hst ih => exact ih.tail (.daemon hst)

/-- A handler writes the entry of its device. -/
def writeEntry (e : Uevent) (a : ℕ) (w : Str → ℕ) : Str → ℕ :=
  if e.devpath.length < pathSize then Function.update w e.devpath a else w

theorem writeEntry_comm (d e : Uevent) (h : ¬ Conflict d e) (a b : ℕ) (w : Str → ℕ) :
    writeEntry e b (writeEntry d a w) = writeEntry d a (writeEntry e b w) := by
  by_cases hd : d.devpath.length < pathSize
  · by_cases he : e.devpath.length < pathSize
    · have hne : e.devpath ≠ d.devpath := fun heq => by
        refine h (Or.inl ((compareDevpath_ne_zero_iff _ _).2 ⟨Or.inl (Or.inl heq.symm), ?_⟩))
        exact lt_of_le_of_lt (min_le_left _ _) hd
      rw [writeEntry, writeEntry, writeEntry, writeEntry, if_pos hd, if_pos he, if_pos hd, if_pos he]
      exact (Function.update_comm hne b a w).symm
    · simp only [writeEntry, he, if_false]
  · simp only [writeEntry, hd, if_false]

/-- The process of a disk writes 3 to its entry while the event of another disk is started. -/
theorem oneByOne_disks : ∃ x : Monitored ℕ (Str → ℕ), Reachable writeEntry (fun _ => 0) x ∧
    x.world (ascii "/sda") = 3 ∧ x.world = (received x.state.queues.log).foldl
      (fun w e => (x.did e).foldl (fun w a => writeEntry e a w) w) fun _ => 0 := by
  have h1 := round (s := init 4 8 0) (addOf "/sda" 1) ⟨0, fun _ => 0, fun _ => some 7⟩
    rfl rfl rfl rfl rfl rfl
  have hact : Relation.ReflTransGen (Step writeEntry) _ _ := (run (fun _ => []) (fun _ => 0) h1).tail
    (.act ⟨addOf "/sda" 1, 7, 0⟩ 3 (by decide) (by decide))
  have hreach : Reachable writeEntry (fun _ => 0) _ := ⟨4, 8, 0, hact.trans (run _ _
    (round (addOf "/sdb" 2) ⟨0, fun _ => 0, fun _ => some 8⟩ rfl rfl rfl rfl rfl rfl))⟩
  exact ⟨_, hreach, rfl, oneByOne writeEntry_comm hreach (by unfold InOrder; decide) (by decide)⟩

end Monitored

end Udev
