/-
  udevd — the event queues.

  An event waits in `exec_list` until `msg_queue_manager` moves it to
  `running_list` and forks a process for it; it leaves the queues when the
  process is reaped or when the fork fails.  What changes the queues is one of
  the `Move`s; invariants are proved of these.
-/
import KernelLinux.Udev.PathEncode
import Mathlib.Logic.Relation

namespace Udev

/-- What `get_msg_from_envbuf` takes from a uevent and the queues look at. -/
structure Uevent where
  action : Str
  devpath : Str
  seqnum : ℕ
  physdevpath : Option Str
  timeout : ℕ
deriving DecidableEq

/-- `struct udevd_uevent_msg` -/
structure Msg extends Uevent where
  pid : ℕ
  exitstatus : ℕ
deriving DecidableEq

/-- How a process ended. -/
inductive WaitStatus where
  | exited (code : ℕ)
  | signaled (sig : ℕ)
  | other
deriving DecidableEq

/-- A process that was forked and not waited for.  It is a zombie if it has a status. -/
structure Child where
  pid : ℕ
  status : Option WaitStatus
deriving DecidableEq

/-- What udevd exports below `udev_root`: the directories EVENT_QUEUE_DIR and EVENT_FAILED_DIR, if
    they exist, with the names in them. -/
structure Files where
  queue : Option (List Str)
  failed : Option (List Str)

/-- What udevd logs of an event. -/
inductive Entry where
  | queued (e : Uevent)
  | forked (e : Uevent) (pid : ℕ)
  | forkFailed (e : Uevent)
  | exit (e : Uevent) (exitstatus : ℕ)
deriving DecidableEq

structure Queues where
  execList : List Msg
  runningList : List Msg
  children : List Child
  files : Files
  log : List Entry

/-! ## The exported files -/

/-- NAME_MAX, the longest name that `open` and `rename` create. -/
def nameMax : ℕ := 255

/-- `unlink` of a name in the directory -/
def unlink (name : Str) (dir : Option (List Str)) : Option (List Str) :=
  dir.map fun names => names.filter (· ≠ name)

/-- `create_path` of a file in the directory -/
def createPath (dir : Option (List Str)) : Option (List Str) := some (dir.getD [])

/-- `delete_path` of a file in the directory: it removes the directory if it is empty. -/
def deletePath (dir : Option (List Str)) : Option (List Str) := if dir = some [] then none else dir

/-- `open` with O_CREAT, or the new name of `rename` -/
def create (name : Str) (dir : Option (List Str)) : Option (List Str) :=
  if name.length ≤ nameMax then dir.map (List.insert name) else dir

inductive EventState where
  | queued
  | finished
  | failed

/-- `export_event_state(msg, state)`; `msg` is in neither list. -/
def exportEventState (q : Queues) (msg : Msg) (state : EventState) : Files :=
  let name := escape msg.devpath
  let failed := deletePath (unlink name q.files.failed)
  match state with
  | .queued => ⟨create name (createPath q.files.queue), failed⟩
  | _ =>
    -- don't remove, if events for the same path are still pending
    if msg.devpath ∈ (q.runningList ++ q.execList).map (·.devpath) then ⟨q.files.queue, failed⟩
    else
      match state with
      | .failed =>
        -- rename moves the file if there is one, and the directory has been created before
        if name ∈ q.files.queue.getD [] ∧ name.length ≤ nameMax then
          ⟨deletePath (unlink name q.files.queue), create name (createPath failed)⟩
        else ⟨deletePath q.files.queue, createPath failed⟩
      | _ => ⟨deletePath (unlink name q.files.queue), failed⟩

/-! ## The functions -/

/-- "add" -/
def add : Str := ascii "add"

/-- `msg_queue_delete`, once the message is out of its list -/
def msgQueueDelete (q : Queues) (msg : Msg) : Queues :=
  { q with files := exportEventState q msg (if msg.exitstatus ≠ 0 ∧ msg.action = add then .failed else .finished) }

/-- `fork` gives a pid that no process has that is waited for; any other answer is a failure. -/
def fork (answer : Option ℕ) (q : Queues) : Option ℕ :=
  answer.filter fun pid => pid ≠ 0 ∧ pid ∉ q.children.map (·.pid)

/-- `udev_event_run`, for a message that is added to the end of `running_list`.  If the fork fails,
    `msg_queue_delete` takes it out again. -/
def udevEventRun (answer : Option ℕ) (q : Queues) (msg : Msg) : Queues :=
  match fork answer q with
  | none => msgQueueDelete { q with log := q.log ++ [.forkFailed msg.toUevent] } msg
  | some pid =>
    { q with
      runningList := q.runningList ++ [{ msg with pid := pid }]
      children := q.children ++ [⟨pid, none⟩]
      log := q.log ++ [.forked msg.toUevent pid] }

/-- `msg_queue_insert`, after it has written the sequence number of the message to EVENT_SEQNUM, without
    `--debug-trace` -/
def msgQueueInsert (answer : Option ℕ) (q : Queues) (msg : Msg) : Queues :=
  let q := { q with files := exportEventState q msg .queued, log := q.log ++ [.queued msg.toUevent] }
  -- run all events with a timeout set immediately
  if msg.timeout ≠ 0 then udevEventRun answer q msg
  else { q with execList := q.execList ++ [msg] }

/-- The two comparisons of `devpath_busy` with a pending message. -/
def busyWith (loopMsg msg : Msg) : ℕ :=
  -- check identical, parent, or child device event
  if compareDevpath loopMsg.devpath msg.devpath ≠ 0 then 2
  -- check physical device event (special case of parent)
  else match msg.physdevpath with
    | some phys => if msg.action = add ∧ compareDevpath loopMsg.devpath phys ≠ 0 then 3 else 0
    | none => 0

/-- The loop of `devpath_busy` over `exec_list`. -/
def devpathBusy.exec (msg : Msg) : List Msg → ℕ
  | [] => 0
  | l :: ls =>
    -- skip ourself and all later events
    if msg.seqnum ≤ l.seqnum then 0
    else if busyWith l msg ≠ 0 then busyWith l msg else devpathBusy.exec msg ls

/-- The loop of `devpath_busy` over `running_list`; `count` is `childs_count`. -/
def devpathBusy.running (msg : Msg) (limit : ℤ) : ℕ → List Msg → ℕ
  | _, [] => 0
  | count, l :: ls =>
    if limit ≠ 0 ∧ limit < count then 1
    else if busyWith l msg ≠ 0 then busyWith l msg else devpathBusy.running msg limit (count + 1) ls

def devpathBusy (q : Queues) (msg : Msg) (limit : ℤ) : ℕ :=
  if devpathBusy.exec msg q.execList ≠ 0 then devpathBusy.exec msg q.execList
  else devpathBusy.running msg limit 0 q.runningList

/-- What a pass of `msg_queue_manager` is told: the processes that run on the system and, at a
    message, in the session, and what `fork` returns there. -/
structure Answers where
  running : ℤ
  session : ℕ → ℤ
  fork : ℕ → Option ℕ

/-- The loop of `msg_queue_manager`, at the `k`-th message; `kept` are the messages before it that
    stay in `exec_list`.  The flag tells whether the pass was cut short: "too many processes already
    running". -/
def msgQueueManager.loop (a : Answers) (maxChilds maxChildsRunning : ℤ) :
    ℕ → List Msg → List Msg → ℤ → Queues → Queues × Bool
  | _, _, [], _, q => (q, false)
  | k, kept, msg :: rest, running, q =>
    -- check running processes in our session and possibly throttle
    let running := if running ≥ maxChildsRunning then a.session k else running
    if running ≥ maxChildsRunning then (q, true)
    -- serialize and wait for parent or child events
    else if devpathBusy q msg maxChilds ≠ 0 then
      loop a maxChilds maxChildsRunning (k + 1) (kept ++ [msg]) rest running q
    else
      loop a maxChilds maxChildsRunning (k + 1) kept rest (running + 1)
        (udevEventRun (a.fork k) { q with execList := kept ++ rest } msg)

def msgQueueManager (a : Answers) (maxChilds maxChildsRunning : ℤ) (q : Queues) : Queues × Bool :=
  if q.execList = [] then (q, false)
  else
    let running := if a.running < 0 then maxChildsRunning else a.running
    msgQueueManager.loop a maxChilds maxChildsRunning 0 [] q.execList running q

/-- The status that `reap_sigchilds` passes on. -/
def exitStatus : WaitStatus → ℕ
  | .exited code => code
  | .signaled sig => sig + 128
  | .other => 0

/-- The first element with the property, and the list without it. -/
def pick {α : Type} (p : α → Bool) : List α → Option (α × List α)
  | [] => none
  | a :: as => if p a then some (a, as) else (pick p as).map fun r => (r.1, a :: r.2)

/-- `udev_done`, for a process that `waitpid` has returned; `none` if no message has the pid. -/
def udevDone (pid exitstatus : ℕ) (q : Queues) : Option Queues :=
  match pick (fun m => m.pid = pid) q.runningList with
  | none => none
  | some (msg, rest) =>
    some (msgQueueDelete
      { q with runningList := rest, log := q.log ++ [.exit msg.toUevent exitstatus] }
      { msg with exitstatus := exitstatus })

theorem pick_eq_some {α : Type} {p : α → Bool} {as bs : List α} {a : α} (h : pick p as = some (a, bs)) :
    ∃ cs ds, as = cs ++ a :: ds ∧ bs = cs ++ ds ∧ p a = true := by
  induction as generalizing bs with
  | nil => cases h
  | cons x as ih =>
    rw [pick] at h
    by_cases hx : p x = true
    · rw [if_pos hx] at h
      cases h
      exact ⟨[], _, rfl, rfl, hx⟩
    · rw [if_neg hx, Option.map_eq_some_iff] at h
      obtain ⟨⟨y, ys⟩, hy, he⟩ := h
      cases he
      obtain ⟨cs, ds, rfl, rfl, ha⟩ := ih hy
      exact ⟨x :: cs, ds, rfl, rfl, ha⟩

theorem pick_eq_none {α : Type} {p : α → Bool} {as : List α} (h : pick p as = none) :
    ∀ a ∈ as, p a = false := by
  induction as with
  | nil => exact fun _ ha => absurd ha List.not_mem_nil
  | cons x as ih =>
    rw [pick] at h
    by_cases hx : p x = true
    · rw [if_pos hx] at h
      cases h
    · rw [if_neg hx, Option.map_eq_none_iff] at h
      exact List.forall_mem_cons.2 ⟨Bool.eq_false_iff.2 hx, ih h⟩

/-! ## Moves -/

/-- What the daemon and the event processes do to the queues, one message at a time.  An event with a
    timeout goes through `exec_list` here, which it leaves at once. -/
inductive Move (limit : ℤ) : Queues → Queues → Prop
  | enqueue (q : Queues) (e : Uevent) :
      Move limit q { q with
        execList := q.execList ++ [⟨e, 0, 0⟩]
        files := exportEventState q ⟨e, 0, 0⟩ .queued
        log := q.log ++ [.queued e] }
  | forked (q : Queues) (kept rest : List Msg) (msg : Msg) (pid : ℕ) :
      q.execList = kept ++ msg :: rest → (msg.timeout = 0 → devpathBusy q msg limit = 0) →
      pid ≠ 0 → pid ∉ q.children.map (·.pid) →
      Move limit q { q with
        execList := kept ++ rest
        runningList := q.runningList ++ [{ msg with pid := pid }]
        children := q.children ++ [⟨pid, none⟩]
        log := q.log ++ [.forked msg.toUevent pid] }
  | forkFailed (q : Queues) (kept rest : List Msg) (msg : Msg) :
      q.execList = kept ++ msg :: rest →
      Move limit q (msgQueueDelete { q with
        execList := kept ++ rest
        log := q.log ++ [.forkFailed msg.toUevent] } msg)
  | exit (q : Queues) (cs ds : List Child) (pid : ℕ) (status : WaitStatus) :
      q.children = cs ++ ⟨pid, none⟩ :: ds →
      Move limit q { q with children := cs ++ ⟨pid, some status⟩ :: ds }
  | reap (q : Queues) (cs ds : List Child) (ms ns : List Msg) (msg : Msg) (status : WaitStatus) :
      q.children = cs ++ ⟨msg.pid, some status⟩ :: ds → q.runningList = ms ++ msg :: ns →
      Move limit q (msgQueueDelete { q with
        runningList := ms ++ ns
        children := cs ++ ds
        log := q.log ++ [.exit msg.toUevent (exitStatus status)] }
        { msg with exitstatus := exitStatus status })
  -- no message has the pid
  | stray (q : Queues) (cs ds : List Child) (pid : ℕ) (status : WaitStatus) :
      q.children = cs ++ ⟨pid, some status⟩ :: ds → (∀ m ∈ q.runningList, m.pid ≠ pid) →
      Move limit q { q with children := cs ++ ds }

abbrev Moves (limit : ℤ) : Queues → Queues → Prop := Relation.ReflTransGen (Move limit)

theorem Moves.inv {limit : ℤ} {I : Queues → Prop} (hI : ∀ q r, I q → Move limit q r → I r)
    {q r : Queues} (h : Moves limit q r) (hq : I q) : I r := by
  induction h with
  | refl => exact hq
  | tail _ hm ih => exact hI _ _ ih hm

/-- `msg` may not run while `loopMsg` is pending: its device is that of `loopMsg`, an ancestor or a
    descendant, or its physical device is and it is an "add". -/
def Conflict (loopMsg msg : Uevent) : Prop :=
  compareDevpath loopMsg.devpath msg.devpath ≠ 0 ∨
    ∃ phys, msg.physdevpath = some phys ∧ msg.action = add ∧ compareDevpath loopMsg.devpath phys ≠ 0

theorem busyWith_eq_zero_iff (l m : Msg) : busyWith l m = 0 ↔ ¬ Conflict l.toUevent m.toUevent := by
  rw [busyWith, Conflict]
  by_cases h : compareDevpath l.devpath m.devpath ≠ 0
  · simp [h]
  · simp only [h, if_false, false_or]
    cases hp : m.physdevpath with
    | none => simp
    | some phys => by_cases hc : m.action = add ∧ compareDevpath l.devpath phys ≠ 0 <;> simp_all

theorem devpathBusy.exec_eq_zero_iff (m : Msg) (ls : List Msg) :
    devpathBusy.exec m ls = 0 ↔
      ∀ l ∈ ls.takeWhile (fun l => l.seqnum < m.seqnum), ¬ Conflict l.toUevent m.toUevent := by
  induction ls with
  | nil => simp [devpathBusy.exec]
  | cons l ls ih =>
    rw [devpathBusy.exec]
    by_cases h : m.seqnum ≤ l.seqnum
    · simp [h]
    · have h' : l.seqnum < m.seqnum := by omega
      rw [if_neg h, List.takeWhile_cons_of_pos (by simpa using h'), List.forall_mem_cons,
        ← busyWith_eq_zero_iff, ← ih]
      by_cases hb : busyWith l m = 0 <;> simp [hb]

theorem devpathBusy.running_eq_zero_iff (m : Msg) (limit : ℤ) (count : ℕ) (ls : List Msg) :
    devpathBusy.running m limit count ls = 0 ↔
      (∀ l ∈ ls, ¬ Conflict l.toUevent m.toUevent) ∧
        (limit = 0 ∨ ls = [] ∨ count + ls.length ≤ limit + 1) := by
  induction ls generalizing count with
  | nil => simp [devpathBusy.running]
  | cons l ls ih =>
    rw [devpathBusy.running]
    by_cases h : limit ≠ 0 ∧ limit < count
    · rw [if_pos h]
      simp only [Nat.one_ne_zero, List.length_cons, reduceCtorEq, false_or, false_iff, not_and, not_or]
      exact fun _ => ⟨h.1, by omega⟩
    · rw [if_neg h, List.forall_mem_cons, ← busyWith_eq_zero_iff]
      by_cases hb : busyWith l m = 0
      · rw [if_neg (not_not.2 hb), ih]
        simp only [hb, true_and, reduceCtorEq, false_or, List.length_cons]
        refine and_congr_right fun _ => ?_
        cases ls with
        | nil => simp; omega
        | cons _ _ => simp; omega
      · simp [hb]

/-- When a message may start: no message before it in `exec_list`, up to the first that does not
    have a smaller number, and no running one is in conflict with it, and there is room. -/
theorem devpathBusy_eq_zero_iff (q : Queues) (m : Msg) (limit : ℤ) :
    devpathBusy q m limit = 0 ↔
      (∀ l ∈ q.execList.takeWhile (fun l => l.seqnum < m.seqnum), ¬ Conflict l.toUevent m.toUevent) ∧
      (∀ l ∈ q.runningList, ¬ Conflict l.toUevent m.toUevent) ∧
      (limit = 0 ∨ q.runningList = [] ∨ q.runningList.length ≤ limit + 1) := by
  have h := devpathBusy.running_eq_zero_iff m limit 0 q.runningList
  rw [Int.ofNat_zero, Int.zero_add] at h
  rw [← h, ← devpathBusy.exec_eq_zero_iff, devpathBusy]
  by_cases he : devpathBusy.exec m q.execList = 0 <;> simp [he]

@[simp] theorem msgQueueDelete_execList (q : Queues) (m : Msg) :
    (msgQueueDelete q m).execList = q.execList := rfl

@[simp] theorem msgQueueDelete_runningList (q : Queues) (m : Msg) :
    (msgQueueDelete q m).runningList = q.runningList := rfl

@[simp] theorem msgQueueDelete_children (q : Queues) (m : Msg) :
    (msgQueueDelete q m).children = q.children := rfl

@[simp] theorem msgQueueDelete_log (q : Queues) (m : Msg) : (msgQueueDelete q m).log = q.log := rfl

theorem fork_eq_some {answer : Option ℕ} {q : Queues} {pid : ℕ} (h : fork answer q = some pid) :
    pid ≠ 0 ∧ pid ∉ q.children.map (·.pid) := by
  have h := (Option.filter_eq_some_iff.1 h).2
  simpa using h

@[simp] theorem udevEventRun_execList (answer : Option ℕ) (q : Queues) (m : Msg) :
    (udevEventRun answer q m).execList = q.execList := by
  rw [udevEventRun]
  cases fork answer q <;> rfl

theorem udevEventRun_move {limit : ℤ} (answer : Option ℕ) (q : Queues) {kept rest : List Msg} {msg : Msg}
    (h : q.execList = kept ++ msg :: rest) (hbusy : msg.timeout = 0 → devpathBusy q msg limit = 0) :
    Move limit q (udevEventRun answer { q with execList := kept ++ rest } msg) := by
  rw [udevEventRun]
  cases hf : fork answer { q with execList := kept ++ rest } with
  | none => exact .forkFailed q kept rest msg h
  | some pid => exact .forked q kept rest msg pid h hbusy (fork_eq_some hf).1 (fork_eq_some hf).2

theorem msgQueueInsert_moves (limit : ℤ) (answer : Option ℕ) (q : Queues) (e : Uevent) :
    Moves limit q (msgQueueInsert answer q ⟨e, 0, 0⟩) := by
  have henqueue : Move limit q _ := .enqueue q e
  rw [msgQueueInsert]
  by_cases h : e.timeout ≠ 0
  · rw [if_pos h]
    have hrun : Move limit _ _ := udevEventRun_move answer
      { q with
        execList := q.execList ++ [⟨e, 0, 0⟩]
        files := exportEventState q ⟨e, 0, 0⟩ .queued
        log := q.log ++ [.queued e] } rfl fun h' => absurd h' h
    rw [List.append_nil] at hrun
    exact .tail (.single henqueue) hrun
  · rw [if_neg h]
    exact .single henqueue

theorem udevDone_move {limit : ℤ} {q : Queues} {cs ds : List Child} {pid : ℕ} {status : WaitStatus}
    (h : q.children = cs ++ ⟨pid, some status⟩ :: ds) :
    Move limit q ((udevDone pid (exitStatus status) { q with children := cs ++ ds }).getD
      { q with children := cs ++ ds }) := by
  rw [udevDone]
  cases hp : pick (fun m => decide (m.pid = pid)) q.runningList with
  | none => exact .stray q cs ds pid status h fun m hm => by simpa using pick_eq_none hp m hm
  | some r =>
    obtain ⟨msg, rest⟩ := r
    obtain ⟨ms, ns, hms, rfl, hpid⟩ := pick_eq_some hp
    rw [decide_eq_true_eq] at hpid
    exact .reap q cs ds ms ns msg status (hpid.symm ▸ h) hms

theorem msgQueueManager.loop_moves (a : Answers) (maxChilds maxChildsRunning : ℤ) (k : ℕ)
    (kept rest : List Msg) (running : ℤ) (q : Queues) (h : q.execList = kept ++ rest) :
    Moves maxChilds q (loop a maxChilds maxChildsRunning k kept rest running q).1 := by
  induction rest generalizing k kept running q with
  | nil => exact .refl
  | cons msg rest ih =>
    rw [loop]
    generalize (if running ≥ maxChildsRunning then a.session k else running) = running'
    by_cases ht : running' ≥ maxChildsRunning
    · rw [if_pos ht]
    · rw [if_neg ht]
      by_cases hb : devpathBusy q msg maxChilds = 0
      · rw [if_neg (not_not.2 hb)]
        have hm := udevEventRun_move (a.fork k) q h fun _ => hb
        exact (Relation.ReflTransGen.single hm).trans (ih _ _ _ _ (by simp))
      · rw [if_pos hb]
        exact ih _ _ _ _ (by simpa using h)

theorem msgQueueManager_moves (a : Answers) (maxChilds maxChildsRunning : ℤ) (q : Queues) :
    Moves maxChilds q (msgQueueManager a maxChilds maxChildsRunning q).1 := by
  rw [msgQueueManager]
  by_cases h : q.execList = []
  · rw [if_pos h]
  · rw [if_neg h]; exact msgQueueManager.loop_moves _ _ _ _ _ _ _ _ rfl

end Udev
