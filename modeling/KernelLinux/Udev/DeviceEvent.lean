/-
  udev — what an event does to the nodes, the links and the database.

  `udev_device_event` is run for one event after the other.  In every such run the
  database stands for the devices that were added and not removed since
  (`registry`), and each link leads to a device of the highest priority among
  those that claim it (`links`).  Links are left as they were by an event
  that deletes the record of their device and then ends early: because the node
  cannot be made, or because the rules say that the event or the removal is ignored.
-/
import KernelLinux.Udev.Links

namespace Udev

/-- The database and the nodes.  They are in one file system, the database below `udevDir`. -/
structure Fs where
  db : Db
  dev : Dev

/-- A call of `udev_device_event` for a device with a node.  What the rules set is in `udev`. -/
inductive DeviceEvent where
  /-- "add" or "change" -/
  | add (udev : Udevice) (block ignoreDevice : Bool) (ok : Str → Bool) (range : Option (BitVec 32))
  /-- "remove"; `udev` holds no record yet. -/
  | remove (udev : Udevice) (kernel : Str) (ignoreDevice : Bool)

section
variable (root : Str) (order : Str → List Str → List Str)

/-- `udev_device_event` -/
def udevDeviceEvent (fs : Fs) : DeviceEvent → Option (Fs × ℤ)
  | .add udev block ignoreDevice ok range =>
    if udev.devt.1 = 0 ∨ ignoreDevice ∨ udev.name = [] then some (fs, 0)
    else
      -- read current database entry; cleanup, if it is known device
      (udevDbGetDevice fs.db .init udev.devpath).bind fun (udevOld, rc) =>
        let (db, udevOld) :=
          if rc = 0 then (udevDbDeleteDevice fs.db udevOld, some udevOld) else (fs.db, none)
        -- create node
        let (dev, udev, retval) := udevNodeAdd root ok block range fs.dev udev
        if retval ≠ 0 then some (⟨db, dev⟩, retval)
        else
          -- store in database
          let db := (udevDbAddDevice db udev).1
          -- create, replace, delete symlinks according to priority
          (udevNodeUpdateSymlinks root order db udev udevOld dev).map fun dev => (⟨db, dev⟩, retval)
  | .remove udev kernel ignoreDevice =>
    if udev.devt.1 = 0 then some (fs, 0)
    else
      -- import database entry, and delete it
      (udevDbGetDevice fs.db udev udev.devpath).bind fun (udev, rc) =>
        let (db, udev) :=
          if rc = 0 then (udevDbDeleteDevice fs.db udev, udev) else (fs.db, { udev with name := kernel })
        if (rc = 0 ∧ udev.ignoreRemove ≠ 0) ∨ ignoreDevice then some (⟨db, fs.dev⟩, 0)
        else
          -- remove the node
          let (dev, retval) := udevNodeRemove root fs.dev udev
          -- delete or restore symlinks according to priority
          (udevNodeUpdateSymlinks root order db udev none dev).map fun dev => (⟨db, dev⟩, retval)

end

/-! ## The registry -/

/-- The devices that were added, and the links that an event left as they were when it dropped the
    claim of its device. -/
structure Registry where
  devices : Devices
  left : List Str

/-- What an event does to the registry, if it returns `retval`. -/
def Registry.after (r : Registry) (retval : ℤ) : DeviceEvent → Registry
  | .add udev _ ignoreDevice _ range =>
    if udev.devt.1 = 0 ∨ ignoreDevice ∨ udev.name = [] then r
    else if retval ≠ 0 then
      ⟨Function.update r.devices udev.devpath none,
        r.left ++ (r.devices udev.devpath).elim [] Udevice.symlinkList⟩
    else
      ⟨Function.update r.devices udev.devpath (some (udev.numbered range)),
        r.left.filter (· ∉ linksToUpdate udev (r.devices udev.devpath))⟩
  | .remove udev _ ignoreDevice =>
    if udev.devt.1 = 0 then r
    else
      match r.devices udev.devpath with
      | none => r
      | some d =>
        if d.ignoreRemove ≠ 0 ∨ ignoreDevice then
          ⟨Function.update r.devices udev.devpath none, r.left ++ d.symlinkList⟩
        else
          ⟨Function.update r.devices udev.devpath none, r.left.filter (· ∉ d.symlinkList)⟩

section
variable (root : Str) (IsLink : Str → Prop)

/-- The event is about a device that can be stored, and whose nodes are no links. -/
def DeviceEvent.Proper : DeviceEvent → Prop
  | .add udev _ ignoreDevice _ range =>
    ¬ (udev.devt.1 = 0 ∨ ignoreDevice ∨ udev.name = []) →
      Registrable (udev.numbered range) ∧ Named root IsLink (udev.numbered range)
  | .remove udev kernel _ =>
    udev.Fresh ∧ 0 ∉ udev.devpath ∧ Path.Clean (devFile root kernel) ∧ OffLinks root IsLink (devFile root kernel)

/-- The links are as they should be, but for those with `left`, and can be made anew. -/
structure DevOk (devices : Devices) (dev : Dev) (left : Str → Prop) : Prop where
  tmp : ∀ n, IsLink n → dev (devFile root n ++ tmpFileExt) = none
  dirs : ∀ n, IsLink n → ∀ q ∈ Path.dirs (devFile root n), Dev.Vacant (dev q)
  file : ∀ n, IsLink n → dev (devFile root n) = none ∨ ∃ text, dev (devFile root n) = some (.link text)
  links : ∀ n, IsLink n → ¬ left n → LinkOk root devices dev n

structure Inv (fs : Fs) (r : Registry) : Prop where
  db : Represents fs.db r.devices
  named : ∀ p d, r.devices p = some d → Named root IsLink d
  dev : DevOk root IsLink r.devices fs.dev (· ∈ r.left)

end

/-- The directories that lead to a path are above it. -/
theorem related_of_mem_dirs {p q : Str} (h : q ∈ Path.dirs p) : Related q p :=
  Or.inl (Or.inr (Path.mem_dirs.1 h).2)

theorem OffLinks.ne {root : Str} {IsLink : Str → Prop} {p n : Str} (h : OffLinks root IsLink p)
    (hn : IsLink n) : p ≠ devFile root n ∧ p ≠ devFile root n ++ tmpFileExt :=
  ⟨fun heq => (h.2 n hn).1 (heq ▸ .refl _), fun heq => (h.2 n hn).2 (heq ▸ .refl _)⟩

section
variable {root : Str} {IsLink : Str → Prop} {devices : Devices} {dev dev' : Dev} {left left' : Str → Prop}

theorem LinkOk.congr {n : Str} (h : LinkOk root devices dev n)
    (heq : dev' (devFile root n) = dev (devFile root n)) : LinkOk root devices dev' n := by
  rcases h with ⟨hnone, h⟩ | ⟨p, d, hd, hn, hmax, hlink⟩
  · exact Or.inl ⟨heq.trans hnone, h⟩
  · exact Or.inr ⟨p, d, hd, hn, hmax, heq.trans hlink⟩

/-- A link that the device at `p` neither claimed nor claims stays right. -/
theorem LinkOk.update {n p : Str} {new : Option Udevice} (h : LinkOk root devices dev n)
    (hold : n ∉ (devices p).elim [] Udevice.symlinkList) (hnew : n ∉ new.elim [] Udevice.symlinkList) :
    LinkOk root (Function.update devices p new) dev n := by
  have hiff : ∀ q d, n ∈ d.symlinkList → (Function.update devices p new q = some d ↔ devices q = some d) := by
    intro q d hn
    by_cases hq : q = p
    · subst hq
      rw [Function.update_self]
      exact iff_of_false (fun h => hnew (by rw [h]; exact hn)) fun h => hold (by rw [h]; exact hn)
    · rw [Function.update_of_ne hq]
  rcases h with ⟨hnone, h⟩ | ⟨q, d, hd, hn, hmax, hlink⟩
  · exact Or.inl ⟨hnone, fun q d hd hn => h q d ((hiff q d hn).1 hd) hn⟩
  · exact Or.inr ⟨q, d, (hiff q d hn).2 hd, hn, fun q' d' hd' hn' => hmax q' d' ((hiff q' d' hn').1 hd') hn', hlink⟩

namespace DevOk

theorem mono (h : DevOk root IsLink devices dev left) (hle : ∀ n, left n → left' n) :
    DevOk root IsLink devices dev left' :=
  ⟨h.tmp, h.dirs, h.file, fun n hn hleft => h.links n hn fun hl => hleft (hle n hl)⟩

/-- Files that have nothing to do with the links do not matter. -/
theorem congr (h : DevOk root IsLink devices dev left) {file : Str} {files : List Str}
    (hchanges : Dev.Changes files (Path.dirs file) dev dev') (hfile : OffLinks root IsLink file)
    (hfiles : ∀ f ∈ files, OffLinks root IsLink f) : DevOk root IsLink devices dev' left := by
  have hlink : ∀ n, IsLink n → dev' (devFile root n) = dev (devFile root n) := fun n hn =>
    hchanges.get (fun hmem => ((hfiles _ hmem).ne hn).1 rfl)
      fun hmem => (hfile.2 n hn).1 (related_of_mem_dirs hmem).symm
  refine ⟨fun n hn => ?_, fun n hn q hq => ?_, fun n hn => ?_, fun n hn hleft => ?_⟩
  · rw [hchanges.get (fun hmem => ((hfiles _ hmem).ne hn).2 rfl)
      fun hmem => (hfile.2 n hn).2 (related_of_mem_dirs hmem).symm]
    exact h.tmp n hn
  · exact hchanges.vacant (fun hmem => ((hfiles _ hmem).2 n hn).1 (related_of_mem_dirs hq)) (h.dirs n hn q hq)
  · rw [hlink n hn]
    exact h.file n hn
  · exact (h.links n hn hleft).congr (hlink n hn)

/-- The link at `m` is made right, and the others do not change. -/
theorem link (hlinks : LinkNames root IsLink) (h : DevOk root IsLink devices dev left) {m : Str} (hm : IsLink m)
    (hchanges : Dev.Changes [devFile root m] (Path.dirs (devFile root m)) dev dev')
    (hok : LinkOk root devices dev' m) : DevOk root IsLink devices dev' fun n => left n ∧ n ≠ m := by
  have hlink : ∀ n, IsLink n → n ≠ m → dev' (devFile root n) = dev (devFile root n) := fun n hn hne =>
    hchanges.get (fun hmem => hlinks.apart n m hn hm hne (List.mem_singleton.1 hmem ▸ .refl _))
      fun hmem => hlinks.apart n m hn hm hne (related_of_mem_dirs hmem)
  refine ⟨fun n hn => ?_, fun n hn q hq => ?_, fun n hn => ?_, fun n hn hleft => ?_⟩
  · rw [hchanges.get (fun hmem => hlinks.tmp m n hm hn (List.mem_singleton.1 hmem ▸ .refl _))
      fun hmem => hlinks.tmp m n hm hn (related_of_mem_dirs hmem).symm]
    exact h.tmp n hn
  · refine hchanges.vacant (fun hmem => ?_) (h.dirs n hn q hq)
    rw [List.mem_singleton.1 hmem] at hq
    by_cases heq : n = m
    · exact Path.notMem_dirs_self _ (heq ▸ hq)
    · exact hlinks.apart n m hn hm heq (related_of_mem_dirs hq).symm
  · by_cases heq : n = m
    · exact heq ▸ hok.file
    · rw [hlink n hn heq]
      exact h.file n hn
  · by_cases heq : n = m
    · exact heq ▸ hok
    · rw [not_and_not_right] at hleft
      exact (h.links n hn fun hl => heq (hleft hl)).congr (hlink n hn heq)

theorem update (h : DevOk root IsLink devices dev left) (p : Str) (new : Option Udevice) :
    DevOk root IsLink (Function.update devices p new) dev fun n =>
      left n ∨ n ∈ (devices p).elim [] Udevice.symlinkList ∨ n ∈ new.elim [] Udevice.symlinkList := by
  refine ⟨h.tmp, h.dirs, h.file, fun n hn hleft => ?_⟩
  rw [not_or, not_or] at hleft
  exact (h.links n hn hleft.1).update hleft.2.1 hleft.2.2

end DevOk

end

/-! ## Updating the links -/

/-- A name that `update_link` is called for: that of a link, or the former name of a node. -/
def Updatable (root : Str) (IsLink : Str → Prop) (name : Str) : Prop :=
  0 ∉ name ∧ (IsLink name ∨ OffLinks root IsLink (devFile root name))

section
variable {root : Str} {IsLink : Str → Prop} (hlinks : LinkNames root IsLink)
  {order : Str → List Str → List Str} (horder : ∀ dir l, (order dir l).Perm l)
  {db : Db} {devices : Devices} (h : Represents db devices)
  (hnamed : ∀ p d, devices p = some d → Named root IsLink d)
  {udev : Udevice}
  (hself : ∀ d, devices udev.devpath = some d → udev.name = d.name ∧ udev.linkPriority = d.linkPriority)
include hlinks horder h hnamed hself

theorem updateLink_devOk {dev : Dev} {left : Str → Prop} (hdev : DevOk root IsLink devices dev left)
    {name : Str} (hname : Updatable root IsLink name) :
    ∃ dev' rc, updateLink root order db udev dev name = some (dev', rc) ∧
      DevOk root IsLink devices dev' fun n => left n ∧ n ≠ name := by
  obtain ⟨hterm, hname⟩ := hname
  rcases hname with hname | hoff
  · obtain ⟨dev', hupd, hok⟩ := updateLink_spec h horder hlinks hnamed hself hname (hdev.file name hname)
      (hdev.tmp name hname) (hdev.dirs name hname)
    exact ⟨dev', 0, hupd, hdev.link hlinks hname (updateLink_changes hupd) hok⟩
  · obtain ⟨dev', rc, hupd⟩ := @updateLink_isSome root order db udev dev devices h horder name hterm
    have hsame := hdev.congr (updateLink_changes hupd) hoff (by simpa using hoff)
    refine ⟨dev', rc, hupd, hsame.tmp, hsame.dirs, hsame.file, fun n hn hleft => hsame.links n hn fun hl =>
      hleft ⟨hl, ?_⟩⟩
    rintro rfl
    exact (hoff.ne hn).1 rfl

/-- `udev_node_update_symlinks` makes the links right that it is called for. -/
theorem updateSymlinks_devOk {udevOld : Option Udevice} {dev : Dev} {left : Str → Prop}
    (hdev : DevOk root IsLink devices dev left)
    (hnames : ∀ n ∈ linksToUpdate udev udevOld, Updatable root IsLink n) :
    ∃ dev', udevNodeUpdateSymlinks root order db udev udevOld dev = some dev' ∧
      DevOk root IsLink devices dev' fun n => left n ∧ n ∉ linksToUpdate udev udevOld := by
  rw [udevNodeUpdateSymlinks]
  generalize linksToUpdate udev udevOld = ns at hnames
  induction ns generalizing dev left with
  | nil => exact ⟨dev, rfl, hdev.mono fun n hn => ⟨hn, List.not_mem_nil⟩⟩
  | cons m ns ih =>
    obtain ⟨dev', rc, hupd, hdev'⟩ :=
      updateLink_devOk hlinks horder h hnamed hself hdev (hnames m List.mem_cons_self)
    obtain ⟨dev'', hfold, hdev''⟩ := ih hdev' fun n hn => hnames n (List.mem_cons_of_mem _ hn)
    refine ⟨dev'', ?_, hdev''.mono fun n hn => ⟨hn.1.1, fun hmem => ?_⟩⟩
    · rw [List.foldlM_cons, hupd]
      exact hfold
    · rcases List.mem_cons.1 hmem with rfl | hmem
      · exact hn.1.2 rfl
      · exact hn.2 hmem

end

/-! ## One event -/

section
variable {root : Str} {IsLink : Str → Prop}

theorem Named.updatable {d : Udevice} (hlinks : LinkNames root IsLink) (h : Named root IsLink d) {n : Str}
    (hn : n ∈ d.symlinkList) : Updatable root IsLink n :=
  ⟨hlinks.terminated n (h.links n hn), Or.inl (h.links n hn)⟩

theorem Named.updatable_name {d : Udevice} (hreg : Registrable d) (h : Named root IsLink d) :
    Updatable root IsLink d.name :=
  ⟨(hreg.names _ List.mem_cons_self).terminated, Or.inr (h.apart _ List.mem_cons_self)⟩

/-- What becomes of the links that the device had or has. -/
theorem mem_linksToUpdate {udev : Udevice} {udevOld : Option Udevice} {n : Str}
    (hn : n ∈ udevOld.elim [] Udevice.symlinkList ∨ n ∈ udev.symlinkList) :
    n ∈ linksToUpdate udev udevOld := by
  by_cases hmem : n ∈ udev.symlinkList
  · exact List.mem_append_left _ hmem
  · cases udevOld with
    | none => exact absurd (hn.resolve_right hmem) List.not_mem_nil
    | some old =>
      refine List.mem_append_right _ (List.mem_append_left _ (List.mem_filter.2 ⟨hn.resolve_right hmem, ?_⟩))
      exact decide_eq_true hmem

theorem updatable_linksToUpdate (hlinks : LinkNames root IsLink) {udev : Udevice}
    (hnamed : Named root IsLink udev) {udevOld : Option Udevice}
    (hold : ∀ d, udevOld = some d → Registrable d ∧ Named root IsLink d) :
    ∀ n ∈ linksToUpdate udev udevOld, Updatable root IsLink n := by
  intro n hn
  rcases List.mem_append.1 hn with hn | hn
  · exact hnamed.updatable hlinks hn
  · cases udevOld with
    | none => exact absurd hn List.not_mem_nil
    | some old =>
      obtain ⟨hreg, hnamed'⟩ := hold old rfl
      rcases List.mem_append.1 hn with hn | hn
      · exact hnamed'.updatable hlinks (List.mem_filter.1 hn).1
      · rw [List.mem_ite_nil_right, List.mem_singleton] at hn
        exact hn.2 ▸ hnamed'.updatable_name hreg

theorem linksToUpdate_congr {u u' : Udevice} {old old' : Option Udevice} (h1 : u.name = u'.name)
    (h2 : u.symlinkList = u'.symlinkList)
    (h3 : old.map (fun d => (d.name, d.symlinkList)) = old'.map fun d => (d.name, d.symlinkList)) :
    linksToUpdate u old = linksToUpdate u' old' := by
  cases old <;> cases old' <;> simp_all [linksToUpdate]

variable {fs : Fs} {r : Registry}

/-- "read current database entry; cleanup, if it is known device" -/
theorem Inv.cleanup (hinv : Inv root IsLink fs r) {p : Str} (hp : 0 ∉ p) :
    ∃ rc u, udevDbGetDevice fs.db .init p = some (u, rc) ∧
      ∃ db old, (if rc = 0 then (udevDbDeleteDevice fs.db u, some u) else (fs.db, none)) = (db, old) ∧
        Represents db (Function.update r.devices p none) ∧
        old.map (fun d => (d.name, d.symlinkList)) =
          (r.devices p).map fun d => (d.name, d.symlinkList) := by
  have hget := hinv.db.getDevice init_fresh hp
  cases hd : r.devices p with
  | none =>
    simp only [hd] at hget
    refine ⟨-1, _, hget, fs.db, none, if_neg (by decide), ?_, rfl⟩
    rw [← hd, Function.update_eq_self]
    exact hinv.db
  | some d =>
    simp only [hd] at hget
    obtain ⟨rfl, -⟩ := hinv.db.devpath p d hd
    obtain ⟨h1, h2, h3, -⟩ := recorded_names d Udevice.init.devt
    exact ⟨0, _, hget, _, _, if_pos rfl, hinv.db.delete hd h1 h2 h3, by simp [h2, h3]⟩

theorem Named.update {devices : Devices} (h : ∀ p d, devices p = some d → Named root IsLink d) {p : Str}
    {new : Option Udevice} (hnew : ∀ d, new = some d → Named root IsLink d) :
    ∀ q d, Function.update devices p new q = some d → Named root IsLink d := by
  intro q d hd
  by_cases hq : q = p
  · rw [hq, Function.update_self] at hd
    exact hnew d hd
  · rw [Function.update_of_ne hq] at hd
    exact h q d hd

variable (hlinks : LinkNames root IsLink) {order : Str → List Str → List Str}
  (horder : ∀ dir l, (order dir l).Perm l)
include hlinks horder

theorem Inv.add (hinv : Inv root IsLink fs r) {udev : Udevice} {block ignoreDevice : Bool}
    {ok : Str → Bool} {range : Option (BitVec 32)}
    (hev : (DeviceEvent.add udev block ignoreDevice ok range).Proper root IsLink) :
    ∃ fs' rc, udevDeviceEvent root order fs (.add udev block ignoreDevice ok range) = some (fs', rc) ∧
      Inv root IsLink fs' (r.after rc (.add udev block ignoreDevice ok range)) := by
  by_cases hskip : udev.devt.1 = 0 ∨ ignoreDevice ∨ udev.name = []
  · refine ⟨fs, 0, if_pos hskip, ?_⟩
    rw [Registry.after, if_pos hskip]
    exact hinv
  obtain ⟨hreg, hnamed⟩ := hev hskip
  obtain ⟨rcDb, u, hget, db, old, hold, hdb, hnames⟩ := hinv.cleanup (p := udev.devpath) hreg.devpath_ne
  simp only [udevDeviceEvent, if_neg hskip, Registry.after, hget, Option.bind_some, hold]
  -- no link is touched when the node is made
  have hnode := hinv.dev.congr (udevNodeAdd_changes root ok block range fs.dev udev)
    (hnamed.apart _ List.mem_cons_self) hnamed.apart
  by_cases hretval : (udevNodeAdd root ok block range fs.dev udev).2.2 ≠ 0
  · simp only [if_pos hretval]
    refine ⟨_, _, rfl, ?_⟩
    rw [if_pos hretval]
    refine ⟨hdb, Named.update hinv.named (by simp), ?_⟩
    exact (hnode.update udev.devpath none).mono fun n hn => by simpa using hn
  · rw [not_not] at hretval
    have hudev := udevNodeAdd_udev hretval
    simp only [hretval, ne_eq, not_true_eq_false, if_false, hudev]
    have hdb' : Represents (udevDbAddDevice db (udev.numbered range)).1
        (Function.update r.devices udev.devpath (some (udev.numbered range))) := by
      have := hdb.add hreg (Function.update_self ..)
      rwa [show (udev.numbered range).devpath = udev.devpath from rfl, Function.update_idem] at this
    have hnamed' : ∀ p d, Function.update r.devices udev.devpath (some (udev.numbered range)) p = some d →
        Named root IsLink d :=
      Named.update hinv.named fun d hd => Option.some.inj hd ▸ hnamed
    have hself : ∀ d, Function.update r.devices udev.devpath (some (udev.numbered range))
          (udev.numbered range).devpath = some d →
        (udev.numbered range).name = d.name ∧ (udev.numbered range).linkPriority = d.linkPriority := by
      intro d hd
      rw [show (udev.numbered range).devpath = udev.devpath from rfl, Function.update_self,
        Option.some.injEq] at hd
      exact hd ▸ ⟨rfl, rfl⟩
    have hlist : linksToUpdate (udev.numbered range) old = linksToUpdate udev (r.devices udev.devpath) :=
      linksToUpdate_congr rfl rfl hnames
    have hupdatable : ∀ n ∈ linksToUpdate (udev.numbered range) old, Updatable root IsLink n := by
      rw [@linksToUpdate_congr _ (udev.numbered range) _ _ rfl rfl hnames]
      exact updatable_linksToUpdate hlinks hnamed fun d hd =>
        ⟨(hinv.db.devpath _ d hd).2, hinv.named _ d hd⟩
    obtain ⟨dev', hupd, hdev'⟩ := updateSymlinks_devOk hlinks horder hdb' hnamed' hself
      (hnode.update udev.devpath (some (udev.numbered range))) hupdatable
    rw [hupd]
    refine ⟨_, _, rfl, hdb', hnamed', hdev'.mono fun n hn => ?_⟩
    obtain ⟨hleft, hn⟩ := hn
    rw [hlist] at hn
    have hmem : n ∈ r.left := hleft.resolve_right fun h => hn (mem_linksToUpdate h)
    exact List.mem_filter.2 ⟨hmem, decide_eq_true hn⟩

theorem Inv.remove (hinv : Inv root IsLink fs r) {udev : Udevice} {kernel : Str} {ignoreDevice : Bool}
    (hev : (DeviceEvent.remove udev kernel ignoreDevice).Proper root IsLink) :
    ∃ fs' rc, udevDeviceEvent root order fs (.remove udev kernel ignoreDevice) = some (fs', rc) ∧
      Inv root IsLink fs' (r.after rc (.remove udev kernel ignoreDevice)) := by
  by_cases hskip : udev.devt.1 = 0
  · refine ⟨fs, 0, if_pos hskip, ?_⟩
    rw [Registry.after, if_pos hskip]
    exact hinv
  obtain ⟨hfresh, hterm, -, hkernel⟩ := hev
  have hget := hinv.db.getDevice hfresh hterm
  simp only [udevDeviceEvent, if_neg hskip, Registry.after]
  cases hd : r.devices udev.devpath with
  | none =>
    -- the kernel name is used, and there are no links
    simp only [hd] at hget
    simp only [hget, Option.bind_some, reduceCtorEq, if_false, false_and, false_or]
    by_cases hignore : ignoreDevice
    · exact ⟨fs, 0, if_pos hignore, hinv⟩
    · simp only [if_neg hignore]
      have hupd : ∀ (u : Udevice) dev, u.symlinkList = [] →
          udevNodeUpdateSymlinks root order fs.db u none dev = some dev := fun u dev hu => by
        simp [udevNodeUpdateSymlinks, linksToUpdate, hu]
      rw [hupd { udev with name := kernel } _ hfresh.symlinkList]
      refine ⟨_, _, rfl, hinv.db, hinv.named, hinv.dev.congr (udevNodeRemove_changes root fs.dev _) hkernel ?_⟩
      rw [nodeFiles, hfresh.partitions]
      exact fun f hf => List.mem_singleton.1 hf ▸ hkernel
  | some d =>
    obtain ⟨hpath, hreg⟩ := hinv.db.devpath _ d hd
    obtain ⟨h1, h2, h3, h4, h5⟩ := recorded_names d udev.devt
    simp only [hd] at hget
    simp only [hget, Option.bind_some, if_true, true_and, h5]
    have hdb : Represents (udevDbDeleteDevice fs.db (d.recorded udev.devt))
        (Function.update r.devices udev.devpath none) := by
      rw [← hpath] at hd ⊢
      exact hinv.db.delete hd h1 h2 h3
    have hnamed : ∀ p e, Function.update r.devices udev.devpath none p = some e → Named root IsLink e :=
      Named.update hinv.named (by simp)
    have hdev := hinv.dev.update udev.devpath none
    simp only [hd, Option.elim_some, Option.elim_none, List.not_mem_nil, or_false] at hdev
    by_cases hignore : d.ignoreRemove ≠ 0 ∨ ignoreDevice
    · simp only [if_pos hignore]
      exact ⟨_, _, rfl, hdb, hnamed, hdev.mono fun n hn => List.mem_append.2 hn⟩
    · simp only [if_neg hignore]
      have hoff := (hinv.named _ d hd).apart
      rw [← h2, ← h4] at hoff
      have hnode := hdev.congr (udevNodeRemove_changes root fs.dev (d.recorded udev.devt))
        (hoff _ List.mem_cons_self) hoff
      have hself : ∀ e, Function.update r.devices udev.devpath none (d.recorded udev.devt).devpath = some e →
          (d.recorded udev.devt).name = e.name ∧ (d.recorded udev.devt).linkPriority = e.linkPriority := by
        intro e he
        rw [h1, hpath, Function.update_self] at he
        exact absurd he (by simp)
      have hlist : linksToUpdate (d.recorded udev.devt) none = d.symlinkList := by
        simp [linksToUpdate, h3]
      obtain ⟨dev', hupd, hdev'⟩ := @updateSymlinks_devOk root IsLink hlinks order horder _ _ hdb hnamed _ hself
        none _ _ hnode fun n hn => by
          rw [hlist] at hn
          exact (hinv.named _ d hd).updatable hlinks hn
      rw [hupd]
      refine ⟨_, _, rfl, hdb, hnamed, hdev'.mono fun n hn => ?_⟩
      rw [hlist] at hn
      exact List.mem_filter.2 ⟨hn.1.resolve_right hn.2, decide_eq_true hn.2⟩

end

/-! ## Runs -/

section
variable (root : Str) (IsLink : Str → Prop)

/-- The states after events that were run one after the other, on a database that was empty and files
    that have nothing to do with the links. -/
inductive Registry.Reachable : Fs → Registry → Prop
  | init {dev : Dev} (hdev : ∀ p, Dev.Vacant (dev p) ∨ OffLinks root IsLink p)
      (hfree : ∀ n, IsLink n → dev (devFile root n) = none ∧ dev (devFile root n ++ tmpFileExt) = none) :
      Reachable ⟨⟨fun _ => none, fun _ => none⟩, dev⟩ ⟨fun _ => none, []⟩
  | step {fs fs' : Fs} {r : Registry} {rc : ℤ} {ev : DeviceEvent} {order : Str → List Str → List Str} :
      Reachable fs r → ev.Proper root IsLink → (∀ dir l, (order dir l).Perm l) →
      udevDeviceEvent root order fs ev = some (fs', rc) → Reachable fs' (r.after rc ev)

end

section
variable {root : Str} {IsLink : Str → Prop} (hlinks : LinkNames root IsLink) {fs : Fs} {r : Registry}
include hlinks

theorem Inv.event (hinv : Inv root IsLink fs r) {order : Str → List Str → List Str}
    (horder : ∀ dir l, (order dir l).Perm l) {ev : DeviceEvent} (hev : ev.Proper root IsLink) :
    ∃ fs' rc, udevDeviceEvent root order fs ev = some (fs', rc) ∧ Inv root IsLink fs' (r.after rc ev) := by
  cases ev with
  | add udev block ignoreDevice ok range => exact hinv.add hlinks horder hev
  | remove udev kernel ignoreDevice => exact hinv.remove hlinks horder hev

theorem Registry.Reachable.inv (h : Registry.Reachable root IsLink fs r) : Inv root IsLink fs r := by
  induction h with
  | init hdev hfree =>
    refine ⟨represents_empty, by simp, fun n hn => (hfree n hn).2, fun n hn q hq => (hdev q).resolve_right ?_,
      fun n hn => Or.inl (hfree n hn).1, fun n hn _ => Or.inl ⟨(hfree n hn).1, by simp⟩⟩
    exact fun hoff => (hoff.2 n hn).1 (related_of_mem_dirs hq)
  | step _ hev horder heq ih =>
    obtain ⟨fs', rc, heq', hinv⟩ := ih.event hlinks horder hev
    rw [heq, Option.some.injEq, Prod.mk.injEq] at heq'
    exact heq'.1 ▸ heq'.2 ▸ hinv

/-- **The links in a run.**  A link that no event left as it was has the text for a device of the
    highest priority among those that claim it, and is not there if there is none; and the text leads to
    the node of the device. -/
theorem links (h : Registry.Reachable root IsLink fs r) {name : Str} (hname : IsLink name)
    (hleft : name ∉ r.left) : LinkOk root r.devices fs.dev name ∧ ∀ p d, r.devices p = some d →
      3 * (devFile root name).count slash + (devFile root d.name).length < pathSize →
      Path.resolve (devFile root name) (linkTarget (devFile root d.name) (devFile root name)) =
        devFile root d.name := by
  have hinv := h.inv hlinks
  exact ⟨hinv.dev.links name hname hleft, fun p d hd hlen =>
    resolve_linkTarget (hinv.named p d hd).clean (hlinks.clean name hname) hlen⟩

end

/-! ## An example -/

def dev : Str := ascii "/dev"

/-- The links of `sda`. -/
def diskOrRoot (n : Str) : Prop := n ∈ sda.symlinkList

theorem linkNames_sda : LinkNames dev diskOrRoot where
  terminated := (by decide : ∀ n ∈ sda.symlinkList, 0 ∉ n)
  clean := (by decide : ∀ n ∈ sda.symlinkList, Path.Clean (devFile dev n))
  short := (by decide : ∀ n ∈ sda.symlinkList, ∀ c ∈ Path.components (devFile dev n ++ tmpFileExt),
    c.length ≤ nameMax)
  apart n m hn hm := (by decide : ∀ n ∈ sda.symlinkList, ∀ m ∈ sda.symlinkList, n ≠ m →
    ¬ Related (devFile dev n) (devFile dev m)) n hn m hm
  tmp n m hn hm := (by decide : ∀ n ∈ sda.symlinkList, ∀ m ∈ sda.symlinkList,
    ¬ Related (devFile dev n) (devFile dev m ++ tmpFileExt)) n hn m hm
  db := (by decide : ∀ n ∈ sda.symlinkList, ¬ Related (devFile dev n) (udevDir dev))

/-- A disk with a higher priority, which claims one of the links of `sda`. -/
def sdb : Udevice :=
  { devpath := ascii "/block/sdb", name := ascii "sdb", symlinkList := [ascii "disk"]
    devt := (8, 16), linkPriority := 20, partitions := 0, ignoreRemove := 0, envList := [] }

theorem sdb_registrable : Registrable sdb where
  storable :=
    { devpath := by decide
      filename := by decide
      name := ⟨by decide, by decide, by decide⟩
      name_ne := by decide
      name_short := by decide
      symlinks := fun l hl => by
        rw [List.mem_singleton.1 hl]
        exact ⟨by decide, by decide, by decide⟩
      symlinks_nodup := by decide
      env := fun e he => absurd he List.not_mem_nil
      env_nodup := List.nodup_nil }
  absolute := by decide
  names n hn := by
    have h := (by decide : ∀ n ∈ sdb.name :: sdb.symlinkList, 0 ∉ n ∧ (escape n).length ≤ nameMax) n hn
    exact ⟨h.1, h.2⟩

/-- The kernel reports `sda`. -/
def addSda : DeviceEvent := .add sda true false (fun _ => true) none

/-- The kernel reports `sdb`. -/
def addSdb : DeviceEvent := .add sdb true false (fun _ => true) none

/-- `sdb` is pulled out. -/
def removeSdb : DeviceEvent :=
  .remove { Udevice.init with devpath := ascii "/block/sdb", devt := (8, 16) } (ascii "sdb") false

theorem addSda_proper : addSda.Proper dev diskOrRoot := fun _ =>
  ⟨sda_registrable, (by decide : sda.name ∉ sda.symlinkList), fun n hn => hn, by decide,
    (by decide : ∀ p ∈ nodeFiles dev sda.name 0, ¬ Related p (udevDir dev) ∧ ∀ n ∈ sda.symlinkList,
      ¬ Related p (devFile dev n) ∧ ¬ Related p (devFile dev n ++ tmpFileExt))⟩

theorem addSdb_proper : addSdb.Proper dev diskOrRoot := fun _ =>
  ⟨sdb_registrable, (by decide : sdb.name ∉ sda.symlinkList),
    (by decide : ∀ n ∈ sdb.symlinkList, n ∈ sda.symlinkList), by decide,
    (by decide : ∀ p ∈ nodeFiles dev sdb.name 0, ¬ Related p (udevDir dev) ∧ ∀ n ∈ sda.symlinkList,
      ¬ Related p (devFile dev n) ∧ ¬ Related p (devFile dev n ++ tmpFileExt))⟩

theorem removeSdb_proper : removeSdb.Proper dev diskOrRoot :=
  ⟨⟨rfl, rfl, rfl, rfl, rfl⟩, by decide, by decide,
    (by decide : ¬ Related (devFile dev (ascii "sdb")) (udevDir dev) ∧ ∀ n ∈ sda.symlinkList,
      ¬ Related (devFile dev (ascii "sdb")) (devFile dev n) ∧
        ¬ Related (devFile dev (ascii "sdb")) (devFile dev n ++ tmpFileExt))⟩

/-- The event in a directory that is read in its own order -/
def event (fs : Fs) (ev : DeviceEvent) : Option (Fs × ℤ) := udevDeviceEvent dev (fun _ l => l) fs ev

def noFs : Fs := ⟨⟨fun _ => none, fun _ => none⟩, .empty⟩

/-- Both disks are there. -/
def twoDisks : Registry :=
  ⟨Function.update (Function.update (fun _ => none) sda.devpath (some sda)) sdb.devpath (some sdb), []⟩

theorem Registry.Reachable.event {fs : Fs} {r : Registry} (h : Registry.Reachable dev diskOrRoot fs r)
    {ev : DeviceEvent} (hev : ev.Proper dev diskOrRoot) :
    ∃ fs' rc, Udev.event fs ev = some (fs', rc) ∧ Registry.Reachable dev diskOrRoot fs' (r.after rc ev) := by
  obtain ⟨fs', rc, heq, -⟩ := (h.inv linkNames_sda).event linkNames_sda (fun _ l => List.Perm.refl l) hev
  exact ⟨fs', rc, heq, h.step hev (fun _ l => List.Perm.refl l) heq⟩

theorem reachable_twoDisks : ∃ fs, Registry.Reachable dev diskOrRoot fs twoDisks := by
  have hinit : Registry.Reachable dev diskOrRoot noFs ⟨fun _ => none, []⟩ :=
    .init (fun _ => Or.inl (Or.inl rfl)) fun _ _ => ⟨rfl, rfl⟩
  obtain ⟨fs, rc, hsda, h⟩ := hinit.event addSda_proper
  have hrc : (event noFs addSda).map Prod.snd = some 0 := by decide
  rw [hsda, Option.map_some, Option.some.injEq] at hrc
  obtain ⟨fs', rc', hsdb, h⟩ := h.event addSdb_proper
  have hrc' : ((event noFs addSda).bind fun x => event x.1 addSdb).map Prod.snd = some 0 := by decide
  rw [hsda, Option.bind_some, hsdb, Option.map_some, Option.some.injEq] at hrc'
  dsimp only at hrc hrc'
  subst hrc hrc'
  exact ⟨fs', h⟩

theorem twoDisks_devices {p : Str} {d : Udevice} :
    twoDisks.devices p = some d ↔ (p = sda.devpath ∧ d = sda) ∨ (p = sdb.devpath ∧ d = sdb) := by
  have hne : sda.devpath ≠ sdb.devpath := by decide
  rw [twoDisks]
  by_cases hb : p = sdb.devpath
  · subst hb
    simp [hne.symm, eq_comm]
  · by_cases ha : p = sda.devpath
    · subst ha
      simp [hne, eq_comm]
    · simp [ha, hb]

/-- The link that both disks claim leads to `sdb`. -/
theorem links_twoDisks : ∃ fs, Registry.Reachable dev diskOrRoot fs twoDisks ∧
    fs.dev (ascii "/dev/disk") = some (.link (ascii "sdb")) ∧
    Path.resolve (ascii "/dev/disk") (ascii "sdb") = ascii "/dev/sdb" := by
  obtain ⟨fs, h⟩ := reachable_twoDisks
  have hdisk : diskOrRoot (ascii "disk") := List.mem_cons_self
  have hsda : twoDisks.devices sda.devpath = some sda := twoDisks_devices.2 (Or.inl ⟨rfl, rfl⟩)
  have hsdb : twoDisks.devices sdb.devpath = some sdb := twoDisks_devices.2 (Or.inr ⟨rfl, rfl⟩)
  obtain ⟨hok, hleads⟩ := links linkNames_sda h hdisk List.not_mem_nil
  refine ⟨fs, h, ?_, hleads _ sdb hsdb (by decide)⟩
  rcases hok with ⟨-, hnone⟩ | ⟨p, d, hd, -, hmax, hlink⟩
  · exact absurd hdisk (hnone _ sda hsda)
  rcases twoDisks_devices.1 hd with ⟨-, rfl⟩ | ⟨-, rfl⟩
  · exact absurd (hmax _ sdb hsdb List.mem_cons_self) (by decide)
  · exact hlink

end Udev
