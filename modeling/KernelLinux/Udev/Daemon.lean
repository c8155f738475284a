/-
  udevd — the main loop.

  The daemon is interleaved with its event processes, which exit whenever they
  like, and with signals.  A round of the loop reads a control message and a
  uevent, if `select` has told of them, reaps the processes that have exited if a
  SIGCHLD has arrived, and runs `msg_queue_manager` if there may be something for
  it to do.
-/
import KernelLinux.Lib.Run
import KernelLinux.Udev.Queue

namespace Udev

/-- The descriptors that `select` has found ready. -/
structure Ready where
  control : Bool
  netlink : Bool
  pipe : Bool
  inotify : Bool

/-- Where the main loop is. -/
inductive Pc where
  /-- at the condition of the loop -/
  | top
  | select
  | control (r : Ready)
  | netlink (r : Ready)
  /-- in `msg_queue_insert`, after the number of the event has been written to EVENT_SEQNUM -/
  | insert (e : Uevent) (r : Ready)
  | pipe (r : Ready)
  /-- at `if (sigchilds_waiting)` -/
  | sigchilds
  /-- in `reap_sigchilds` -/
  | reap
  /-- at `if (run_exec_q)` -/
  | queue
  | exit

/-- The control messages that reach the queues; all others, and those that are ignored, are
    `other`. -/
inductive Ctrl where
  | stopExecQueue
  | startExecQueue
  | setMaxChilds (n : ℤ)
  | setMaxChildsRunning (n : ℤ)
  | other

structure State where
  queues : Queues
  pc : Pc
  runExecQ : Bool
  stopExecQ : Bool
  sigchildsWaiting : Bool
  udevExit : Bool
  maxChilds : ℤ
  maxChildsRunning : ℤ
  /-- the bytes in the signal pipe -/
  pipe : ℕ
  /-- the content of EVENT_SEQNUM -/
  seqnum : ℕ
  /-- the last pass of `msg_queue_manager` has been cut short -/
  throttled : Bool

inductive Label where
  | top
  | interrupted
  | select (r : Ready)
  | control (c : Ctrl) (a : Answers)
  | netlink (e : Option Uevent)
  | insert (answer : Option ℕ)
  | pipe
  | sigchilds
  | waitpid (pid : Option ℕ)
  | queue (a : Answers)
  /-- an event process exits; the daemon gets a SIGCHLD -/
  | exit (pid : ℕ) (status : WaitStatus)
  /-- the daemon gets a SIGHUP, or a SIGINT or SIGTERM -/
  | signal (terminate : Bool)

/-! ## The functions -/

/-- What the signal pipe holds at most. -/
def pipeSize : ℕ := 65536

/-- The end of `sig_handler`: the pipe is not waited for if it is full. -/
def State.writePipe (s : State) : State := { s with pipe := min (s.pipe + 1) pipeSize }

def State.manage (a : Answers) (s : State) : State :=
  let r := msgQueueManager a s.maxChilds s.maxChildsRunning s.queues
  { s with queues := r.1, throttled := r.2 }

/-- `get_ctrl_msg`, from its switch on -/
def getCtrlMsg (a : Answers) (s : State) : Ctrl → State
  | .stopExecQueue => { s with stopExecQ := true }
  | .startExecQueue => { s with stopExecQ := false }.manage a
  | .setMaxChilds n => { s with maxChilds := n }
  | .setMaxChildsRunning n => { s with maxChildsRunning := n }
  | .other => s

/-- What `waitpid` has returned is handed to `udev_done`. -/
def reap (pid : ℕ) (status : WaitStatus) (s : State) : State :=
  { s with
    queues := (udevDone pid (exitStatus status) s.queues).getD s.queues
    runExecQ := s.runExecQ || (udevDone pid (exitStatus status) s.queues).isSome }

inductive Step : State → Label → State → Prop
  | top {s : State} : s.pc = .top →
      Step s .top { s with pc := if s.udevExit then .exit else .select }
  | interrupted {s : State} : s.pc = .select → Step s .interrupted { s with pc := .top }
  -- select returns when something is ready
  | select {s : State} (r : Ready) : s.pc = .select → (r.control || r.netlink || r.pipe || r.inotify) →
      (r.pipe ↔ s.pipe ≠ 0) → Step s (.select r) { s with pc := .control r }
  | control {s : State} {r : Ready} (c : Ctrl) (a : Answers) : s.pc = .control r →
      Step s (.control c a) { (if r.control then getCtrlMsg a s c else s) with pc := .netlink r }
  | netlink {s : State} {r : Ready} (e : Uevent) : s.pc = .netlink r → r.netlink →
      Step s (.netlink (some e)) { s with seqnum := e.seqnum, pc := .insert e r }
  -- nothing there, or nothing valid
  | noNetlink {s : State} {r : Ready} : s.pc = .netlink r → Step s (.netlink none) { s with pc := .pipe r }
  | insert {s : State} {e : Uevent} {r : Ready} (answer : Option ℕ) : s.pc = .insert e r →
      Step s (.insert answer) { s with
        queues := msgQueueInsert answer s.queues ⟨e, 0, 0⟩
        runExecQ := s.runExecQ || decide (e.timeout = 0)
        pc := .pipe r }
  | pipe {s : State} {r : Ready} : s.pc = .pipe r →
      Step s .pipe { s with pipe := if r.pipe then s.pipe - 256 else s.pipe, pc := .sigchilds }
  | sigchilds {s : State} : s.pc = .sigchilds →
      Step s .sigchilds { s with
        sigchildsWaiting := false, pc := if s.sigchildsWaiting then .reap else .queue }
  | waitpid {s : State} {cs ds : List Child} (pid : ℕ) (status : WaitStatus) : s.pc = .reap →
      s.queues.children = cs ++ ⟨pid, some status⟩ :: ds →
      Step s (.waitpid (some pid)) (reap pid status { s with queues := { s.queues with children := cs ++ ds } })
  | noWaitpid {s : State} : s.pc = .reap → (∀ c ∈ s.queues.children, c.status = none) →
      Step s (.waitpid none) { s with pc := .queue }
  | queue {s : State} (a : Answers) : s.pc = .queue →
      Step s (.queue a)
        (if s.runExecQ ∧ s.stopExecQ = false then { s with runExecQ := false, pc := .top }.manage a
        else { s with runExecQ := false, pc := .top })
  | exit {s : State} {cs ds : List Child} (pid : ℕ) (status : WaitStatus) :
      s.queues.children = cs ++ ⟨pid, none⟩ :: ds →
      Step s (.exit pid status) { s.writePipe with
        queues := { s.queues with children := cs ++ ⟨pid, some status⟩ :: ds }
        sigchildsWaiting := true }
  | signal {s : State} (terminate : Bool) :
      Step s (.signal terminate) { s.writePipe with udevExit := s.udevExit || terminate }

/-- The daemon when it enters its main loop. -/
def init (maxChilds maxChildsRunning : ℤ) (seqnum : ℕ) : State where
  queues := ⟨[], [], [], ⟨none, none⟩, []⟩
  pc := .top
  runExecQ := false
  stopExecQ := false
  sigchildsWaiting := false
  udevExit := false
  maxChilds := maxChilds
  maxChildsRunning := maxChildsRunning
  pipe := 0
  seqnum := seqnum
  throttled := false

/-- A state of the daemon, started with some limits, that some run reaches. -/
def Reachable (s : State) : Prop := ∃ maxChilds maxChildsRunning n ls,
  Run Step (init maxChilds maxChildsRunning n) ls s

/-! ## Steps -/

theorem manage_moves (a : Answers) (s : State) : Moves s.maxChilds s.queues (s.manage a).queues :=
  msgQueueManager_moves a s.maxChilds s.maxChildsRunning s.queues

theorem getCtrlMsg_moves (a : Answers) (s : State) (c : Ctrl) :
    Moves s.maxChilds s.queues (getCtrlMsg a s c).queues := by
  cases c with
  | startExecQueue => exact manage_moves a { s with stopExecQ := false }
  | _ => exact .refl

/-- A step changes the queues by moves. -/
theorem step_moves {s s' : State} {l : Label} (h : Step s l s') :
    Moves s.maxChilds s.queues s'.queues := by
  cases h with
  | @control r c a hpc =>
    cases hr : r.control with
    | false => exact .refl
    | true => exact getCtrlMsg_moves a s c
  | insert answer hpc => exact msgQueueInsert_moves _ answer s.queues _
  | waitpid pid status hpc hc => exact .single (udevDone_move hc)
  | queue a hpc =>
    by_cases hr : s.runExecQ ∧ s.stopExecQ = false
    · rw [if_pos hr]
      exact manage_moves a { s with runExecQ := false, pc := .top }
    · rw [if_neg hr]
  | exit pid status hc => exact .single (.exit s.queues _ _ pid status hc)
  | _ => exact .refl

/-- An invariant of the moves holds in every reachable state. -/
theorem Reachable.inv {s : State} (h : Reachable s) {I : Queues → Prop}
    (hinit : I ⟨[], [], [], ⟨none, none⟩, []⟩) (hI : ∀ limit q r, I q → Move limit q r → I r) :
    I s.queues := by
  obtain ⟨maxChilds, maxChildsRunning, n, ls, h⟩ := h
  exact Run.inv (I := fun s => I s.queues)
    (fun s l s' hs hst => (step_moves hst).inv (hI s.maxChilds) hs) hinit h

/-- Only the uevent socket is ready. -/
def netlinkReady : Ready := ⟨false, true, false, false⟩

/-- A round of the main loop in which an event is read and nothing else happens. -/
theorem round {s : State} (e : Uevent) (a : Answers) (hpc : s.pc = .top) (hexit : s.udevExit = false)
    (hpipe : s.pipe = 0) (hsig : s.sigchildsWaiting = false) (htimeout : e.timeout = 0)
    (hstop : s.stopExecQ = false) :
    Run Step s [.top, .select netlinkReady, .control .other a, .netlink (some e), .insert none, .pipe,
        .sigchilds, .queue a]
      ({ s with
        queues := msgQueueInsert none s.queues ⟨e, 0, 0⟩
        seqnum := e.seqnum
        runExecQ := false }.manage a) := by
  have h1 := (Run.nil s).snoc (Step.top hpc)
  have h2 := h1.snoc (Step.select netlinkReady (by simp [hexit]) rfl (by simp [netlinkReady, hpipe]))
  have h3 := h2.snoc (Step.control .other a rfl)
  have h4 := h3.snoc (Step.netlink e rfl rfl)
  have h5 := h4.snoc (Step.insert none rfl)
  have h6 := h5.snoc (Step.pipe rfl)
  have h7 := h6.snoc (Step.sigchilds rfl)
  have h8 := h7.snoc (Step.queue a (by simp [netlinkReady, hsig]))
  simpa [netlinkReady, hpc, hexit, hpipe, hsig, htimeout, hstop, State.manage] using h8

theorem Reachable.run {s s' : State} {ls : List Label} (h : Reachable s) (hrun : Run Step s ls s') :
    Reachable s' := by
  obtain ⟨maxChilds, maxChildsRunning, n, ks, h⟩ := h
  exact ⟨maxChilds, maxChildsRunning, n, _, h.append hrun⟩

theorem Reachable.step {s s' : State} {l : Label} (h : Reachable s) (hst : Step s l s') : Reachable s' :=
  h.run (.single hst)

/-- An "add" of a device. -/
def addOf (devpath : String) (seqnum : ℕ) : Uevent := ⟨add, ascii devpath, seqnum, none, 0⟩

/-- Nothing else runs, and every fork succeeds. -/
def unloaded : Answers := ⟨0, fun _ => 0, fun k => some (k + 7)⟩

/-- Nothing else runs, and every fork fails. -/
def noForks : Answers := ⟨0, fun _ => 0, fun _ => none⟩

theorem reachable_init : Reachable (init 4 8 0) := ⟨4, 8, 0, [], .nil _⟩

end Udev
