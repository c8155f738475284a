/-
  udevsettle — waiting until all events are handled.

  udevsettle looks for the queue directory first and for the number of the last
  event that udevd has read afterwards.  When it exits with 0, udevd has read all
  events of the kernel, but those that it has read since udevsettle looked for the
  directory may still be pending (`settled`).
-/
import KernelLinux.Udev.QueueFiles

namespace Udev

/-- Where udevsettle is.  `log` is what udevd had done when the queue directory was not there. -/
inductive SettlePc where
  /-- at `stat(queuename)` -/
  | stat
  /-- before the number that udevd has exported is read -/
  | readUdev (log : List Entry)
  /-- before the number of the kernel is read -/
  | readKernel (log : List Entry) (seqUdev : ℕ)
  /-- exits with 0, or with 1 after a timeout -/
  | exit (rc : ℕ)

/-- udevd, udevsettle, and the kernel with its uevent_seqnum and the events in udevd's socket. -/
structure System where
  daemon : State
  kernel : ℕ
  socket : List Uevent
  settle : SettlePc

/-- A step of udevd takes an event from the socket only if it reads one. -/
def recv : Label → List Uevent → Option (List Uevent)
  | .netlink (some e), e' :: es => if e = e' then some es else none
  | .netlink (some _), [] => none
  | _, es => some es

inductive System.Step : System → System → Prop
  | uevent {x : System} (e : Uevent) : e.seqnum = x.kernel + 1 →
      System.Step x { x with kernel := x.kernel + 1, socket := x.socket ++ [e] }
  | daemon {x : System} {l : Label} {s : State} {es : List Uevent} : Udev.Step x.daemon l s →
      recv l x.socket = some es → System.Step x { x with daemon := s, socket := es }
  -- if the directory is there, udevsettle looks again later
  | stat {x : System} : x.settle = .stat → x.daemon.queues.files.queue = none →
      System.Step x { x with settle := .readUdev x.daemon.queues.log }
  | readUdev {x : System} {log : List Entry} : x.settle = .readUdev log →
      System.Step x { x with settle := .readKernel log x.daemon.seqnum }
  | readKernel {x : System} {log : List Entry} {seqUdev : ℕ} : x.settle = .readKernel log seqUdev →
      System.Step x { x with settle := if seqUdev ≥ x.kernel then .exit 0 else .stat }
  | timeout {x : System} : System.Step x { x with settle := .exit 1 }

/-- udevd starts when the kernel has counted to `n`. -/
def System.init (maxChilds maxChildsRunning : ℤ) (n : ℕ) : System :=
  ⟨Udev.init maxChilds maxChildsRunning n, n, [], .stat⟩

def System.Reachable (x : System) : Prop := ∃ maxChilds maxChildsRunning n,
  Relation.ReflTransGen System.Step (System.init maxChilds maxChildsRunning n) x

/-! ## The numbers -/

/-- The events in the socket are those with the next numbers. -/
def Numbered : ℕ → List Uevent → Prop
  | _, [] => True
  | n, e :: es => e.seqnum = n + 1 ∧ Numbered (n + 1) es

theorem Numbered.snoc {n : ℕ} {es : List Uevent} {e : Uevent} (h : Numbered n es)
    (he : e.seqnum = n + es.length + 1) : Numbered n (es ++ [e]) := by
  induction es generalizing n with
  | nil => exact ⟨he, trivial⟩
  | cons d es ih => exact ⟨h.1, ih h.2 (by rw [he, List.length_cons]; omega)⟩

@[simp] theorem received_udevEventRun (answer : Option ℕ) (q : Queues) (m : Msg) :
    received (udevEventRun answer q m).log = received q.log := by
  rw [udevEventRun]
  cases fork answer q <;> simp

theorem received_msgQueueInsert (answer : Option ℕ) (q : Queues) (e : Uevent) :
    received (msgQueueInsert answer q ⟨e, 0, 0⟩).log = received q.log ++ [e] := by
  rw [msgQueueInsert]
  split_ifs <;> simp

theorem received_loop (a : Answers) (maxChilds maxChildsRunning : ℤ) (k : ℕ) (kept rest : List Msg)
    (running : ℤ) (q : Queues) :
    received (msgQueueManager.loop a maxChilds maxChildsRunning k kept rest running q).1.log =
      received q.log := by
  induction rest generalizing k kept running q with
  | nil => rfl
  | cons msg rest ih =>
    rw [msgQueueManager.loop]
    generalize (if running ≥ maxChildsRunning then a.session k else running) = running'
    by_cases ht : running' ≥ maxChildsRunning
    · rw [if_pos ht]
    · rw [if_neg ht]
      by_cases hb : devpathBusy q msg maxChilds = 0
      · rw [if_neg (not_not.2 hb), ih, received_udevEventRun]
      · rw [if_pos hb, ih]

@[simp] theorem received_manage (a : Answers) (s : State) :
    received (s.manage a).queues.log = received s.queues.log := by
  rw [State.manage, msgQueueManager]
  by_cases h : s.queues.execList = []
  · rw [if_pos h]
  · rw [if_neg h, received_loop]

/-- What a step of udevd does to the events that it has read. -/
theorem step_received {s s' : State} {l : Label} (h : Step s l s') :
    (∃ e r, l = .netlink (some e) ∧ s'.seqnum = e.seqnum ∧ s'.pc = .insert e r ∧
      received s'.queues.log = received s.queues.log) ∨
    (∃ e r, (∀ d, l ≠ .netlink (some d)) ∧ s'.seqnum = s.seqnum ∧ s.pc = .insert e r ∧
      (∀ d t, s'.pc ≠ .insert d t) ∧ received s'.queues.log = received s.queues.log ++ [e]) ∨
    ((∀ d, l ≠ .netlink (some d)) ∧ s'.seqnum = s.seqnum ∧ (∀ d t, s'.pc = .insert d t → s.pc = .insert d t) ∧
      received s'.queues.log = received s.queues.log) := by
  cases h with
  | @netlink r e hpc => exact Or.inl ⟨e, r, rfl, rfl, rfl, rfl⟩
  | @insert e r answer hpc =>
    exact Or.inr (Or.inl ⟨e, r, by simp, rfl, hpc, by simp, received_msgQueueInsert answer s.queues e⟩)
  | @control r c a hpc =>
    refine Or.inr (Or.inr ⟨by simp, ?_, by simp, ?_⟩)
    · by_cases hr : r.control = true
      · rw [if_pos hr]
        cases c <;> rfl
      · rw [if_neg hr]
    · by_cases hr : r.control = true
      · rw [if_pos hr]
        cases c with
        | startExecQueue => exact received_manage a _
        | _ => rfl
      · rw [if_neg hr]
  | queue a hpc =>
    refine Or.inr (Or.inr ⟨by simp, ?_, ?_, ?_⟩)
    · split_ifs <;> rfl
    · split_ifs <;> simp [State.manage]
    · split_ifs
      · exact received_manage a _
      · rfl
  | @waitpid cs ds pid status hpc hc =>
    refine Or.inr (Or.inr ⟨by simp, rfl, fun d t h => h, ?_⟩)
    cases hd : udevDone pid (exitStatus status) { s.queues with children := cs ++ ds } with
    | none => simp [reap, hd]
    | some q =>
      rw [udevDone] at hd
      cases hp : pick (fun m => decide (m.pid = pid)) s.queues.runningList with
      | none => simp [hp] at hd
      | some r =>
        simp only [hp, Option.some.injEq] at hd
        simp [reap, udevDone, hp]
  | top hpc => exact Or.inr (Or.inr ⟨by simp, rfl, fun d t => by dsimp only; split <;> simp, rfl⟩)
  | sigchilds hpc => exact Or.inr (Or.inr ⟨by simp, rfl, fun d t => by dsimp only; split <;> simp, rfl⟩)
  | exit => exact Or.inr (Or.inr ⟨by simp, rfl, fun d t h => h, rfl⟩)
  | signal => exact Or.inr (Or.inr ⟨by simp, rfl, fun d t h => h, rfl⟩)
  | _ => exact Or.inr (Or.inr ⟨by simp, rfl, by simp, rfl⟩)

/-! ## The invariant -/

/-- The log when udevsettle last found that the queue directory was not there. -/
def SettlePc.Seen (log : List Entry) : SettlePc → Prop
  | .readUdev l => l = log
  | .readKernel l _ => l = log
  | _ => False

structure Counted (x : System) : Prop where
  reachable : Udev.Reachable x.daemon
  kernel : x.kernel = x.daemon.seqnum + x.socket.length
  numbered : Numbered x.daemon.seqnum x.socket
  last : ∀ e ∈ received x.daemon.queues.log, e.seqnum ≤ x.daemon.seqnum
  hand : ∀ e r, x.daemon.pc = .insert e r →
    e.seqnum = x.daemon.seqnum ∧ ∀ d ∈ received x.daemon.queues.log, d.seqnum < e.seqnum
  inOrder : InOrder x.daemon.queues.log
  /-- whatever had been queued then was over -/
  seen : ∀ log, x.settle.Seen log → log <+: x.daemon.queues.log ∧
    ∀ e ∈ received log, e ∈ finished log ∨ e ∈ dropped log
  read : ∀ log u, x.settle = .readKernel log u → u ≤ x.daemon.seqnum

theorem recv_other {l : Label} {es fs : List Uevent} (hl : ∀ e, l ≠ .netlink (some e))
    (h : recv l es = some fs) : fs = es := by
  cases l with
  | netlink e =>
    cases e with
    | none => exact (Option.some.inj h).symm
    | some e => exact absurd rfl (hl e)
  | _ => exact (Option.some.inj h).symm

theorem Counted.daemon {x : System} (h : Counted x) {l : Label} {s : State} {es : List Uevent}
    (hst : Udev.Step x.daemon l s) (hrecv : recv l x.socket = some es) :
    Counted { x with daemon := s, socket := es } := by
  have hreach := h.reachable.step hst
  have hseen : ∀ log, x.settle.Seen log → log <+: s.queues.log ∧
      ∀ e ∈ received log, e ∈ finished log ∨ e ∈ dropped log := fun log hlog =>
    ⟨(h.seen log hlog).1.trans (step_moves hst).log_extends, (h.seen log hlog).2⟩
  rcases step_received hst with ⟨e, r, rfl, hseq, hpc, hrec⟩ | ⟨e, r, hl, hseq, hpc, hpc', hrec⟩ |
    ⟨hl, hseq, hpc, hrec⟩
  · -- an event is read
    have hnum := h.numbered
    have hkernel := h.kernel
    cases hsock : x.socket with
    | nil => simp [hsock, recv] at hrecv
    | cons e' es' =>
      rw [hsock] at hrecv hnum hkernel
      simp only [recv, Option.ite_none_right_eq_some, Option.some.injEq] at hrecv
      obtain ⟨rfl, rfl⟩ := hrecv
      obtain ⟨he, hnum⟩ := hnum
      rw [List.length_cons] at hkernel
      refine ⟨hreach, ?_, ?_, fun d hd => ?_, fun d t hd => ?_, ?_, hseen, fun log u hu => ?_⟩
      · dsimp only
        omega
      · rw [hseq, he]
        exact hnum
      · have := h.last d (hrec ▸ hd)
        dsimp only
        omega
      · obtain ⟨rfl, -⟩ := Pc.insert.inj (hpc.symm.trans hd)
        refine ⟨hseq.symm, fun d hd => ?_⟩
        have := h.last d (hrec ▸ hd)
        omega
      · rw [InOrder, hrec]
        exact h.inOrder
      · have := h.read log u hu
        dsimp only
        omega
  · -- an event is queued
    obtain rfl := recv_other hl hrecv
    obtain ⟨he, hlast⟩ := h.hand e r hpc
    refine ⟨hreach, hseq ▸ h.kernel, hseq ▸ h.numbered, fun d hd => ?_, fun d t hd => absurd hd (hpc' d t),
      ?_, hseen, fun log u hu => hseq ▸ h.read log u hu⟩
    · rw [hrec, List.mem_append, List.mem_singleton] at hd
      rw [hseq]
      rcases hd with hd | rfl
      · exact h.last d hd
      · exact he.le
    · rw [InOrder, hrec]
      refine List.pairwise_append.2 ⟨h.inOrder, List.pairwise_singleton _ _, fun d hd f hf => ?_⟩
      rw [List.mem_singleton.1 hf]
      exact hlast d hd
  · obtain rfl := recv_other hl hrecv
    refine ⟨hreach, hseq ▸ h.kernel, hseq ▸ h.numbered, fun d hd => ?_, fun d t hd => ?_, ?_, hseen,
      fun log u hu => hseq ▸ h.read log u hu⟩
    · rw [hseq]
      exact h.last d (hrec ▸ hd)
    · rw [hseq, hrec]
      exact h.hand d t (hpc d t hd)
    · rw [InOrder, hrec]
      exact h.inOrder

theorem Counted.step {x y : System} (h : Counted x) (hst : System.Step x y)
    (hshort : ∀ e ∈ received y.daemon.queues.log, Short e) : Counted y := by
  cases hst with
  | uevent e he =>
    refine ⟨h.reachable, ?_, h.numbered.snoc ?_, h.last, h.hand, h.inOrder, h.seen, h.read⟩
    · have := h.kernel
      simp only [List.length_append, List.length_singleton]
      omega
    · have := h.kernel
      omega
  | daemon hst hrecv => exact h.daemon hst hrecv
  | stat hpc hdir =>
    refine ⟨h.reachable, h.kernel, h.numbered, h.last, h.hand, h.inOrder, fun log hlog => ?_,
      fun _ _ hu => by cases hu⟩
    obtain rfl : x.daemon.queues.log = log := hlog
    -- no directory, no pending event
    have hnone := (exported h.reachable hshort).queue_eq_none_iff.1 hdir
    obtain ⟨hrun, hexec⟩ := List.append_eq_nil_iff.1 hnone
    refine ⟨List.prefix_rfl, fun e he => ?_⟩
    have hwhere := ((accounted h.reachable).mem_received e).1 he
    rw [hrun, hexec] at hwhere
    simpa using hwhere
  | @readUdev log hpc =>
    refine ⟨h.reachable, h.kernel, h.numbered, h.last, h.hand, h.inOrder, fun l hl => ?_, fun l u hu => ?_⟩
    · exact h.seen l (by rw [hpc]; exact hl)
    · obtain ⟨-, rfl⟩ := SettlePc.readKernel.inj hu
      exact le_rfl
  | readKernel hpc =>
    refine ⟨h.reachable, h.kernel, h.numbered, h.last, h.hand, h.inOrder, fun l hl => ?_, fun l u hu => ?_⟩
    · dsimp only at hl
      split at hl <;> exact hl.elim
    · dsimp only at hu
      split at hu <;> cases hu
  | timeout =>
    exact ⟨h.reachable, h.kernel, h.numbered, h.last, h.hand, h.inOrder, fun _ hl => hl.elim,
      fun _ _ hu => by cases hu⟩

/-- A pending event is not over. -/
theorem Accounted.pending_not_over {q : Queues} (h : Accounted q) (horder : InOrder q.log) {m : Msg}
    (hm : m ∈ pending q) : m.toUevent ∉ finished q.log ++ dropped q.log := fun hover => by
  have hnodup := h.received.nodup_iff.1 horder.nodup
  rw [List.append_assoc] at hnodup
  refine (List.nodup_append.1 hnodup).2.2 m.toUevent ?_ _ hover rfl
  rcases List.mem_append.1 hm with hm | hm
  · exact List.mem_append_right _ (List.mem_map_of_mem hm)
  · exact List.mem_append_left _ (List.mem_map_of_mem hm)

theorem received_step {x y : System} (hst : System.Step x y) :
    received x.daemon.queues.log <+: received y.daemon.queues.log := by
  cases hst with
  | daemon hst => exact received_mono (step_moves hst).log_extends
  | _ => exact List.prefix_rfl

theorem counted {x : System} (h : x.Reachable) (hshort : ∀ e ∈ received x.daemon.queues.log, Short e) :
    Counted x := by
  obtain ⟨maxChilds, maxChildsRunning, n, h⟩ := h
  induction h with
  | refl =>
    refine ⟨⟨_, _, n, [], .nil _⟩, rfl, trivial, fun e he => ?_, fun e r hpc => Pc.noConfusion hpc,
      List.Pairwise.nil, fun _ hl => hl.elim, fun _ _ hu => by cases hu⟩
    cases he
  | tail _ hst ih => exact (ih fun e he => hshort e ((received_step hst).subset he)).step hst hshort

/-- When udevsettle exits with 0, udevd has read every event of the kernel, and an event that is
    still pending had not been queued when udevsettle looked for the queue directory. -/
theorem settled {x : System} {log : List Entry} {seqUdev : ℕ} (h : x.Reachable)
    (hshort : ∀ e ∈ received x.daemon.queues.log, Short e)
    (hsettle : x.settle = .readKernel log seqUdev) (hexit : seqUdev ≥ x.kernel) :
    x.socket = [] ∧ log <+: x.daemon.queues.log ∧
      ∀ m ∈ pending x.daemon.queues, m.toUevent ∉ received log := by
  have hcount := counted h hshort
  have hread := hcount.read log seqUdev hsettle
  have hkernel := hcount.kernel
  obtain ⟨hlog, hover⟩ := hcount.seen log (by rw [hsettle]; exact rfl)
  refine ⟨List.eq_nil_of_length_eq_zero (by omega), hlog, fun m hm hrec => ?_⟩
  refine (accounted hcount.reachable).pending_not_over hcount.inOrder hm (List.mem_append.2 ?_)
  rcases hover m.toUevent hrec with hf | hd
  · exact Or.inl ((hlog.filterMap _).subset hf)
  · exact Or.inr ((hlog.filterMap _).subset hd)

theorem recv_steps {x : System} {s : State} {ls : List Label} (h : Run Udev.Step x.daemon ls s)
    (hls : ∀ l ∈ ls, recv l x.socket = some x.socket) :
    Relation.ReflTransGen System.Step x { x with daemon := s } := by
  induction h with
  | nil => exact .refl
  | snoc _ hst ih =>
    rw [List.forall_mem_append, List.forall_mem_singleton] at hls
    exact (ih hls.1).tail (.daemon hst hls.2)

/-- udevsettle exits with 0 while the only event is running: it has looked for the queue directory
    before udevd has read the event, and for the number after that. -/
theorem settled_early : ∃ x : System, x.Reachable ∧ x.settle = .readKernel [] 1 ∧ x.kernel = 1 ∧
    pending x.daemon.queues ≠ [] ∧
    x.socket = [] ∧ [] <+: x.daemon.queues.log ∧
      ∀ m ∈ pending x.daemon.queues, m.toUevent ∉ received [] := by
  let e := addOf "/sda" 1
  let x : System := System.init 4 8 0
  have h1 : Relation.ReflTransGen System.Step x _ := (Relation.ReflTransGen.single (.stat rfl rfl)).tail (.uevent e rfl)
  have h2 := (Run.nil (init 4 8 0)).snoc (Step.top rfl)
  have h3 := h2.snoc (Step.select netlinkReady rfl rfl (by decide))
  have h4 := h3.snoc (Step.control .other unloaded rfl)
  have h5 := (h1.trans (recv_steps h4 (by decide))).tail (.daemon (Step.netlink e rfl rfl) rfl)
  have h6 := (h5.tail (.readUdev rfl)).tail (.daemon (Step.insert none rfl) rfl)
  have hreach : System.Reachable _ := ⟨4, 8, 0, h6⟩
  exact ⟨_, hreach, rfl, rfl, by decide,
    settled hreach (by unfold Short; decide) rfl (by decide)⟩

end Udev
