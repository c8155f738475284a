/-
  udev — symlinks that several devices claim.

  `update_link` lets a link point to a device of the highest priority among those
  that claim the name, and removes it if there is none (`updateLink_spec`).
-/
import KernelLinux.Udev.Node
import KernelLinux.Udev.Registry

namespace Udev

/-- `udev_db_get_devices_by_name`; `entries` is what `readdir` gives, if there is a directory. -/
def udevDbGetDevicesByName (entries : Option (List Str)) : ℤ × List Str :=
  match entries with
  | none => (-1, [])
  | some entries =>
    let entries := entries.filter fun e => e.head? ≠ some 0x2e
    (entries.length,
      (entries.map fun e => (cString (pathDecode (e ++ [0])).1).getD []).foldl nameListAdd [])

/-- "find the device with the highest priority": the loop of `update_link`, with `target` and
    `priority` -/
def updateLink.best (db : Db) (udev : Udevice) : List Str → Str × BitVec 32 → Option (Str × BitVec 32)
  | [], best => some best
  | device :: nameList, (target, priority) =>
    -- did we find ourself? we win, if we have the same priority
    if udev.devpath = device then
      updateLink.best db udev nameList
        (if target = [] ∨ priority.toInt ≤ udev.linkPriority.toInt then (udev.name, udev.linkPriority)
          else (target, priority))
    -- or something else, then read priority from database
    else
      (udevDbGetDevice db .init device).bind fun (udevDb, rc) =>
        updateLink.best db udev nameList
          (if rc = 0 ∧ (target = [] ∨ priority.toInt < udevDb.linkPriority.toInt) then
            (udevDb.name, udevDb.linkPriority) else (target, priority))

section
variable (root : Str) (order : Str → List Str → List Str)

/-- `update_link(udev, name)`; `order` tells in which order `readdir` lists a directory.  It is `none`
    where the reading of a record is. -/
def updateLink (db : Db) (udev : Udevice) (dev : Dev) (name : Str) : Option (Dev × ℤ) :=
  let slink := devFile root name
  let (count, nameList) :=
    udevDbGetDevicesByName ((db.names (escape name)).map (order (escape name)))
  -- if we don't have a reference, delete it
  if count ≤ 0 then some (((dev.unlink slink).getD dev).deletePath slink, 0)
  else
    (updateLink.best db udev nameList ([], 0)).map fun (target, _) =>
      if target = [] then (dev, -1)
      else ((nodeSymlink (dev.createPath slink).1 (devFile root target) slink).1, 0)

/-- The names that `udev_node_update_symlinks` calls `update_link` for. -/
def linksToUpdate (udev : Udevice) (udevOld : Option Udevice) : List Str :=
  udev.symlinkList ++
    match udevOld with
    | none => []
    | some old =>
      -- link does no longer belong to this device
      old.symlinkList.filter (· ∉ udev.symlinkList) ++
        -- if the node name has changed, delete the node
        if udev.name ≠ old.name then [old.name] else []

/-- `udev_node_update_symlinks` -/
def udevNodeUpdateSymlinks (db : Db) (udev : Udevice) (udevOld : Option Udevice) (dev : Dev) : Option Dev :=
  (linksToUpdate udev udevOld).foldlM (fun dev name => (updateLink root order db udev dev name).map Prod.fst) dev

end

/-! ## The devices with a name -/

theorem mem_foldl_nameListAdd {l acc : List Str} {p : Str} (h : ∀ n ∈ l, n.length < pathSize) :
    p ∈ l.foldl nameListAdd acc ↔ p ∈ acc ∨ p ∈ l := by
  induction l generalizing acc with
  | nil => simp
  | cons n l ih =>
    have htake : n.take (pathSize - 1) = n :=
      List.take_of_length_le (Nat.le_pred_of_lt (h n List.mem_cons_self))
    rw [List.foldl_cons, ih fun m hm => h m (List.mem_cons_of_mem _ hm), nameListAdd, htake]
    split_ifs with hn
    · rw [List.mem_cons]
      exact ⟨fun h => h.imp_right Or.inr, fun h => h.elim Or.inl fun h => h.elim (fun h => Or.inl (h ▸ hn)) Or.inr⟩
    · rw [List.mem_append, List.mem_singleton, List.mem_cons, or_assoc]

theorem head_escape {p : Str} (hp : p.head? = some slash) : (escape p).head? = some backslash := by
  obtain ⟨q, rfl⟩ := List.head?_eq_some_iff.1 hp
  rfl

theorem length_le_escape (p : Str) : p.length ≤ (escape p).length := by
  rw [escape_length]
  omega

section
variable {db : Db} {devices : Devices} (h : Represents db devices)
  {order : Str → List Str → List Str} (horder : ∀ dir l, (order dir l).Perm l)
include h horder

theorem getDevicesByName_spec {name : Str} (hname : 0 ∉ name) :
    let found := udevDbGetDevicesByName ((db.names (escape name)).map (order (escape name)))
    (∀ p, p ∈ found.2 ↔ ∃ d, devices p = some d ∧ d.Claims name) ∧ (found.1 ≤ 0 ↔ found.2 = []) := by
  have hentries : ∀ e, e ∈ names (db.names (escape name)) ↔
      ∃ p d, devices p = some d ∧ e = escape p ∧ d.Claims name := by
    intro e
    rw [h.names]
    constructor
    · rintro ⟨p, d, n, hd, he, hn, hdir⟩
      rw [escape_inj hname ((h.devpath p d hd).2.names n hn).terminated hdir]
      exact ⟨p, d, hd, he, hn⟩
    · rintro ⟨p, d, hd, he, hn⟩
      exact ⟨p, d, name, hd, he, hn, rfl⟩
  cases hdir : db.names (escape name) with
  | none =>
    simp only [hdir, names, Option.getD_none, List.not_mem_nil, false_iff, not_exists, not_and] at hentries
    simp only [udevDbGetDevicesByName, Option.map_none, List.not_mem_nil, false_iff, not_exists, not_and]
    exact ⟨fun p d hd hn => hentries _ p d hd rfl hn, iff_of_true (by decide) trivial⟩
  | some entries =>
    simp only [hdir, names, Option.getD_some] at hentries
    -- no entry begins with a dot, and each is the escaped path of a device
    have hfilter : (order (escape name) entries).filter (fun e => e.head? ≠ some 0x2e) =
        order (escape name) entries := by
      refine List.filter_eq_self.2 fun e he => ?_
      obtain ⟨p, d, hd, rfl, -⟩ := (hentries e).1 ((horder _ _).mem_iff.1 he)
      obtain ⟨rfl, hreg⟩ := h.devpath p d hd
      rw [head_escape hreg.absolute]
      decide
    have hdecode : ∀ p d, devices p = some d →
        (cString (pathDecode (escape p ++ [0])).1).getD [] = p ∧ p.length < pathSize := by
      intro p d hd
      obtain ⟨rfl, hreg⟩ := h.devpath p d hd
      rw [(pathDecode_escape hreg.devpath_ne []).1]
      have h1 := length_le_escape d.devpath
      have h2 := hreg.storable.filename
      exact ⟨rfl, by simp only [pathSize, nameMax] at h2 ⊢; omega⟩
    simp only [udevDbGetDevicesByName, Option.map_some, hfilter]
    have hmem : ∀ p, p ∈ (order (escape name) entries).map
        (fun e => (cString (pathDecode (e ++ [0])).1).getD []) ↔ ∃ d, devices p = some d ∧ d.Claims name := by
      intro p
      rw [List.mem_map]
      constructor
      · rintro ⟨e, he, rfl⟩
        obtain ⟨p, d, hd, rfl, hn⟩ := (hentries e).1 ((horder _ _).mem_iff.1 he)
        rw [(hdecode p d hd).1]
        exact ⟨d, hd, hn⟩
      · rintro ⟨d, hd, hn⟩
        exact ⟨escape p, (horder _ _).mem_iff.2 ((hentries _).2 ⟨p, d, hd, rfl, hn⟩), (hdecode p d hd).1⟩
    have hfound : ∀ p, p ∈ ((order (escape name) entries).map
        (fun e => (cString (pathDecode (e ++ [0])).1).getD [])).foldl nameListAdd [] ↔
          ∃ d, devices p = some d ∧ d.Claims name := by
      intro p
      rw [mem_foldl_nameListAdd, hmem]
      · simp
      · intro n hn
        obtain ⟨d, hd, -⟩ := (hmem n).1 hn
        exact (hdecode n d hd).2
    refine ⟨hfound, ?_⟩
    rw [Int.natCast_nonpos_iff, List.length_eq_zero_iff, List.eq_nil_iff_forall_not_mem (l := List.foldl ..),
      ← List.map_eq_nil_iff, List.eq_nil_iff_forall_not_mem]
    exact forall_congr' fun p => not_congr ((hmem p).trans (hfound p).symm)

end

/-! ## The device with the highest priority -/

section
variable {db : Db} {udev : Udevice}

/-- The name and the priority of a device are what `update_link` takes for it. -/
def Offers (db : Db) (udev : Udevice) (f : Str → Str × BitVec 32) (p : Str) : Prop :=
  (f p).1 ≠ [] ∧
    if udev.devpath = p then f p = (udev.name, udev.linkPriority)
    else ∃ u, udevDbGetDevice db .init p = some (u, 0) ∧ f p = (u.name, u.linkPriority)

theorem updateLink.best_cons {f : Str → Str × BitVec 32} {p : Str} (hf : Offers db udev f p) (l : List Str)
    (acc : Str × BitVec 32) :
    ∃ acc', best db udev (p :: l) acc = best db udev l acc' ∧
      (acc' = f p ∨ (acc' = acc ∧ acc.1 ≠ [])) ∧ (f p).2.toInt ≤ acc'.2.toInt ∧
      (acc.1 ≠ [] → acc.2.toInt ≤ acc'.2.toInt) := by
  obtain ⟨target, priority⟩ := acc
  obtain ⟨-, hf⟩ := hf
  split_ifs at hf with hself
  · refine ⟨_, by rw [best, if_pos hself], ?_⟩
    rw [hf]
    split_ifs with h
    · exact ⟨Or.inl rfl, le_rfl, fun ht => h.resolve_left ht⟩
    · rw [not_or, not_le] at h
      exact ⟨Or.inr ⟨rfl, h.1⟩, h.2.le, fun _ => le_rfl⟩
  · obtain ⟨u, hu, hf⟩ := hf
    refine ⟨_, by rw [best, if_neg hself, hu, Option.bind_some], ?_⟩
    rw [hf]
    simp only [true_and]
    split_ifs with h
    · exact ⟨Or.inl rfl, le_rfl, fun ht => (h.resolve_left ht).le⟩
    · rw [not_or, not_lt] at h
      exact ⟨Or.inr ⟨rfl, h.1⟩, h.2, fun _ => le_rfl⟩

theorem updateLink.best_spec {f : Str → Str × BitVec 32} {l : List Str} (hf : ∀ p ∈ l, Offers db udev f p)
    {acc : Str × BitVec 32} (hacc : acc.1 ≠ []) :
    ∃ b, best db udev l acc = some b ∧ (b = acc ∨ ∃ p ∈ l, b = f p) ∧
      (∀ p ∈ l, (f p).2.toInt ≤ b.2.toInt) ∧ acc.2.toInt ≤ b.2.toInt := by
  induction l generalizing acc with
  | nil => exact ⟨acc, rfl, Or.inl rfl, by simp, le_rfl⟩
  | cons p l ih =>
    have hp := hf p List.mem_cons_self
    obtain ⟨acc', heq, hacc', hle, hge⟩ := best_cons hp l acc
    have hne : acc'.1 ≠ [] := by
      rcases hacc' with rfl | ⟨rfl, h⟩
      · exact hp.1
      · exact h
    obtain ⟨b, hb, hfrom, hmax, hge'⟩ := ih (fun q hq => hf q (List.mem_cons_of_mem _ hq)) hne
    refine ⟨b, heq.trans hb, ?_, ?_, (hge hacc).trans hge'⟩
    · rcases hfrom with rfl | ⟨q, hq, rfl⟩
      · rcases hacc' with rfl | ⟨rfl, -⟩
        · exact Or.inr ⟨p, List.mem_cons_self, rfl⟩
        · exact Or.inl rfl
      · exact Or.inr ⟨q, List.mem_cons_of_mem _ hq, rfl⟩
    · intro q hq
      rcases List.mem_cons.1 hq with rfl | hq
      · exact hle.trans hge'
      · exact hmax q hq

/-- The choice among the devices that are found. -/
theorem updateLink.best_init {f : Str → Str × BitVec 32} {l : List Str} (hf : ∀ p ∈ l, Offers db udev f p)
    (hl : l ≠ []) :
    ∃ p ∈ l, best db udev l ([], 0) = some (f p) ∧ (f p).1 ≠ [] ∧
      ∀ q ∈ l, (f q).2.toInt ≤ (f p).2.toInt := by
  obtain ⟨p, l, rfl⟩ := List.exists_cons_of_ne_nil hl
  have hp := hf p List.mem_cons_self
  obtain ⟨acc', heq, hacc', hle, -⟩ := best_cons hp l ([], 0)
  obtain rfl : acc' = f p := hacc'.resolve_right fun h => h.2 rfl
  obtain ⟨b, hb, hfrom, hmax, hge⟩ := best_spec (fun q hq => hf q (List.mem_cons_of_mem _ hq)) hp.1
  obtain ⟨q, hq, rfl⟩ : ∃ q ∈ p :: l, b = f q := by
    rcases hfrom with rfl | ⟨q, hq, rfl⟩
    · exact ⟨p, List.mem_cons_self, rfl⟩
    · exact ⟨q, List.mem_cons_of_mem _ hq, rfl⟩
  refine ⟨q, hq, heq.trans hb, (hf q hq).1, fun r hr => ?_⟩
  rcases List.mem_cons.1 hr with rfl | hr
  · exact hge
  · exact hmax r hr

end

/-! ## update_link -/

/-- The priority that `update_link(udev, …)` sees for a device: its own, or what the database has. -/
def offered (udev d : Udevice) : BitVec 32 :=
  if udev.devpath = d.devpath then udev.linkPriority else (d.recorded (0, 0)).linkPriority

/-- A record that is read has the names of the device. -/
theorem recorded_names (d : Udevice) (devt : BitVec 32 × BitVec 32) :
    (d.recorded devt).devpath = d.devpath ∧ (d.recorded devt).name = d.name ∧
      (d.recorded devt).symlinkList = d.symlinkList ∧ (d.recorded devt).partitions = d.partitions ∧
      (d.recorded devt).ignoreRemove = d.ignoreRemove := by
  rw [Udevice.recorded]
  split_ifs <;> exact ⟨rfl, rfl, rfl, rfl, rfl⟩

/-- The database, the index and the queue are below it. -/
def udevDir (root : Str) : Str := devFile root (ascii ".udev")

/-- The links among the names: what the devices are called in rules has to keep links and nodes
    apart, or a link replaces a node, or is to be made below one. -/
structure LinkNames (root : Str) (IsLink : Str → Prop) : Prop where
  terminated : ∀ n, IsLink n → 0 ∉ n
  clean : ∀ n, IsLink n → Path.Clean (devFile root n)
  short : ∀ n, IsLink n → ∀ c ∈ Path.components (devFile root n ++ tmpFileExt), c.length ≤ nameMax
  apart : ∀ n m, IsLink n → IsLink m → n ≠ m → ¬ Related (devFile root n) (devFile root m)
  tmp : ∀ n m, IsLink n → IsLink m → ¬ Related (devFile root n) (devFile root m ++ tmpFileExt)
  db : ∀ n, IsLink n → ¬ Related (devFile root n) (udevDir root)

/-- The path is not that of a link or the other name that a link is made with, nor above or below one,
    and it is not in the database. -/
def OffLinks (root : Str) (IsLink : Str → Prop) (p : Str) : Prop :=
  ¬ Related p (udevDir root) ∧
    ∀ n, IsLink n → ¬ Related p (devFile root n) ∧ ¬ Related p (devFile root n ++ tmpFileExt)

/-- A device whose nodes are no links. -/
structure Named (root : Str) (IsLink : Str → Prop) (d : Udevice) : Prop where
  node : ¬ IsLink d.name
  links : ∀ n ∈ d.symlinkList, IsLink n
  clean : Path.Clean (devFile root d.name)
  apart : ∀ p ∈ nodeFiles root d.name d.partitions, OffLinks root IsLink p

/-- The link is not there if no device claims it; else it leads to a device that claims it and has the
    highest priority of these. -/
def LinkOk (root : Str) (devices : Devices) (dev : Dev) (name : Str) : Prop :=
  (dev (devFile root name) = none ∧ ∀ p d, devices p = some d → name ∉ d.symlinkList) ∨
    ∃ p d, devices p = some d ∧ name ∈ d.symlinkList ∧
      (∀ p' d', devices p' = some d' → name ∈ d'.symlinkList →
        d'.linkPriority.toInt ≤ d.linkPriority.toInt) ∧
      dev (devFile root name) = some (.link (linkTarget (devFile root d.name) (devFile root name)))

section
variable {root : Str} {order : Str → List Str → List Str} {db : Db} {udev : Udevice} {dev : Dev}

theorem LinkOk.file {devices : Devices} {name : Str} (h : LinkOk root devices dev name) :
    dev (devFile root name) = none ∨ ∃ text, dev (devFile root name) = some (.link text) := by
  rcases h with ⟨h, -⟩ | ⟨p, d, -, -, -, h⟩
  · exact Or.inl h
  · exact Or.inr ⟨_, h⟩

theorem updateLink_changes {name : Str} {dev' : Dev} {rc : ℤ}
    (h : updateLink root order db udev dev name = some (dev', rc)) :
    Dev.Changes [devFile root name] (Path.dirs (devFile root name)) dev dev' := by
  simp only [updateLink] at h
  split_ifs at h
  · obtain ⟨rfl, -⟩ := Prod.mk.inj (Option.some.inj h)
    refine Dev.Changes.trans ?_ (Dev.deletePath_changes _ _).of_nil
    cases hunlink : dev.unlink (devFile root name) with
    | none => exact .refl dev
    | some dev' => exact .of_update (Dev.unlink_eq_some hunlink)
  · obtain ⟨⟨target, priority⟩, -, h⟩ := Option.map_eq_some_iff.1 h
    split_ifs at h
    · rw [← (Prod.mk.inj h).1]
      exact .refl dev
    · rw [← (Prod.mk.inj h).1]
      exact (Dev.createPath_changes dev _).of_nil.trans
        ((nodeSymlink_changes _ _ _).of_mem List.mem_cons_self)

theorem updateLink.best_isSome {l : List Str} (h : ∀ p ∈ l, ∃ r, udevDbGetDevice db .init p = some r)
    (acc : Str × BitVec 32) : ∃ b, best db udev l acc = some b := by
  induction l generalizing acc with
  | nil => exact ⟨acc, rfl⟩
  | cons p l ih =>
    have ih := ih fun q hq => h q (List.mem_cons_of_mem _ hq)
    obtain ⟨r, hr⟩ := h p List.mem_cons_self
    by_cases hself : udev.devpath = p
    · rw [best, if_pos hself]
      exact ih _
    · rw [best, if_neg hself, hr]
      exact ih _

/-- With `create_path`, the link can be made with its other name. -/
theorem free_tmp {file : Str} (hshort : ∀ c ∈ Path.components (file ++ tmpFileExt), c.length ≤ nameMax)
    (htmp : dev (file ++ tmpFileExt) = none) (hdirs : ∀ q ∈ Path.dirs file, Dev.Vacant (dev q)) :
    (dev.createPath file).1.Free (file ++ tmpFileExt) := by
  have hne : file ++ tmpFileExt ∉ Path.dirs file :=
    Path.dirs_append slash_notMem_tmpFileExt file ▸ Path.notMem_dirs_self (file ++ tmpFileExt)
  refine ⟨?_, hshort, fun q hq => ?_⟩
  · rw [(Dev.createPath_changes dev file).get List.not_mem_nil hne, htmp]
  · rw [parent_tmp] at hq
    exact Dev.createPath_parent hdirs (Path.short_of_append slash_notMem_tmpFileExt hshort) q hq

theorem init_fresh : Udevice.init.Fresh := ⟨rfl, rfl, rfl, rfl, rfl⟩

variable {devices : Devices} (h : Represents db devices) (horder : ∀ dir l, (order dir l).Perm l)
include h horder

/-- No record makes `update_link` go wrong. -/
theorem updateLink_isSome {name : Str} (hname : 0 ∉ name) :
    ∃ dev' rc, updateLink root order db udev dev name = some (dev', rc) := by
  obtain ⟨hfound, -⟩ := getDevicesByName_spec h horder hname
  simp only [updateLink]
  split_ifs
  · exact ⟨_, _, rfl⟩
  · obtain ⟨b, hb⟩ := @updateLink.best_isSome db udev _ (fun p hp => by
      obtain ⟨d, hd, -⟩ := (hfound p).1 hp
      obtain ⟨rfl, hreg⟩ := h.devpath p d hd
      exact ⟨_, (h.getDevice init_fresh hreg.devpath_ne).trans (by rw [hd])⟩) ([], 0)
    rw [hb]
    simp only [Option.map_some]
    split_ifs
    · exact ⟨_, _, rfl⟩
    · exact ⟨_, _, rfl⟩

theorem updateLink_unclaimed {name : Str} (hname : 0 ∉ name)
    (hnone : ∀ p d, devices p = some d → ¬ d.Claims name) :
    updateLink root order db udev dev name =
      some (((dev.unlink (devFile root name)).getD dev).deletePath (devFile root name), 0) := by
  obtain ⟨hfound, hcount⟩ := getDevicesByName_spec h horder hname
  refine if_pos (hcount.2 (List.eq_nil_iff_forall_not_mem.2 fun p hp => ?_))
  obtain ⟨d, hd, hclaim⟩ := (hfound p).1 hp
  exact hnone p d hd hclaim

/-- The device that is chosen, by the priorities that `update_link` sees. -/
theorem updateLink_claimed
    (hself : ∀ d, devices udev.devpath = some d → udev.name = d.name)
    {name : Str} (hname : 0 ∉ name) (hclaim : ∃ p d, devices p = some d ∧ d.Claims name) :
    ∃ p d, devices p = some d ∧ d.Claims name ∧
      (∀ p' d', devices p' = some d' → d'.Claims name →
        (offered udev d').toInt ≤ (offered udev d).toInt) ∧
      updateLink root order db udev dev name =
        some ((nodeSymlink (dev.createPath (devFile root name)).1 (devFile root d.name)
          (devFile root name)).1, 0) := by
  obtain ⟨hfound, hcount⟩ := getDevicesByName_spec h horder hname
  have hne : (udevDbGetDevicesByName ((db.names (escape name)).map (order (escape name)))).2 ≠ [] := by
    obtain ⟨p, hp⟩ := hclaim
    exact List.ne_nil_of_mem ((hfound p).2 hp)
  have hoffers : ∀ p ∈ (udevDbGetDevicesByName ((db.names (escape name)).map (order (escape name)))).2,
      Offers db udev (fun p => (devices p).elim ([], 0) fun d => (d.name, offered udev d)) p := by
    intro p hp
    obtain ⟨d, hd, -⟩ := (hfound p).1 hp
    obtain ⟨rfl, hreg⟩ := h.devpath p d hd
    refine ⟨by simpa [hd] using hreg.storable.name_ne, ?_⟩
    split_ifs with heq
    · simp [hd, offered, heq, hself d (heq ▸ hd)]
    · have hread := h.getDevice init_fresh hreg.devpath_ne
      simp only [hd] at hread
      refine ⟨_, hread, ?_⟩
      rw [(recorded_names d Udevice.init.devt).2.1]
      simp only [hd, Option.elim_some, offered, if_neg heq]
      rfl
  obtain ⟨p, hp, hbest, hne', hmax⟩ := updateLink.best_init hoffers hne
  obtain ⟨d, hd, hclaim⟩ := (hfound p).1 hp
  simp only [hd, Option.elim_some] at hbest hne' hmax
  refine ⟨p, d, hd, hclaim, fun p' d' hd' hclaim' => ?_, ?_⟩
  · have := hmax p' ((hfound p').2 ⟨d', hd', hclaim'⟩)
    rwa [hd'] at this
  · simp only [updateLink]
    rw [if_neg fun hle => hne (hcount.1 hle), hbest]
    simp [hne']

/-- **`update_link`** makes the link what it should be. -/
theorem updateLink_spec {IsLink : Str → Prop} (hlinks : LinkNames root IsLink)
    (hnamed : ∀ p d, devices p = some d → Named root IsLink d)
    (hself : ∀ d, devices udev.devpath = some d →
      udev.name = d.name ∧ udev.linkPriority = d.linkPriority)
    {name : Str} (hname : IsLink name)
    (hfile : dev (devFile root name) = none ∨ ∃ text, dev (devFile root name) = some (.link text))
    (htmp : dev (devFile root name ++ tmpFileExt) = none)
    (hdirs : ∀ q ∈ Path.dirs (devFile root name), Dev.Vacant (dev q)) :
    ∃ dev', updateLink root order db udev dev name = some (dev', 0) ∧ LinkOk root devices dev' name := by
  have hterm := hlinks.terminated name hname
  -- the name is no node, so it is claimed as a symlink
  have hclaims : ∀ p d, devices p = some d → (d.Claims name ↔ name ∈ d.symlinkList) := fun p d hd => by
    have hne : name ≠ d.name := fun heq => (hnamed p d hd).node (heq ▸ hname)
    rw [Udevice.Claims, List.mem_cons, or_iff_right hne]
  have hoffered : ∀ p d, devices p = some d → name ∈ d.symlinkList → offered udev d = d.linkPriority := by
    intro p d hd hmem
    obtain ⟨rfl, -⟩ := h.devpath p d hd
    rw [offered, Udevice.recorded, if_neg fun hb : d.Bare => List.ne_nil_of_mem hmem hb.1]
    split_ifs with heq
    · exact (hself d (heq ▸ hd)).2
    · rfl
  by_cases hclaim : ∃ p d, devices p = some d ∧ d.Claims name
  · obtain ⟨p, d, hd, hmem, hmax, hupd⟩ :=
      updateLink_claimed h horder (fun d hd => (hself d hd).1) hterm hclaim
    rw [hclaims p d hd] at hmem
    have htext := linkTarget_ne_nil (hnamed p d hd).clean (hlinks.clean name hname)
    have hlink := nodeSymlink_link (free_tmp (hlinks.short name hname) htmp hdirs) htext
      (by rwa [(Dev.createPath_changes dev _).get List.not_mem_nil (Path.notMem_dirs_self _)])
    refine ⟨_, hupd, Or.inr ⟨p, d, hd, hmem, fun p' d' hd' hmem' => ?_, hlink⟩⟩
    have := hmax p' d' hd' ((hclaims p' d' hd').2 hmem')
    rwa [hoffered p' d' hd' hmem', hoffered p d hd hmem] at this
  · have hnone : ∀ p d, devices p = some d → ¬ d.Claims name := fun p d hd hmem => hclaim ⟨p, d, hd, hmem⟩
    refine ⟨_, updateLink_unclaimed h horder hterm hnone, Or.inl ⟨?_, fun p d hd hmem => ?_⟩⟩
    · have hdir : dev (devFile root name) ≠ some .dir := by
        rcases hfile with hfile | ⟨text, hfile⟩ <;> simp [hfile]
      rw [(Dev.deletePath_changes _ _).get List.not_mem_nil (Path.notMem_dirs_self _), Dev.getD_unlink hdir,
        Function.update_self]
    · exact hnone p d hd ((hclaims p d hd).2 hmem)

/-- **A node that is claimed as a link.**  If the device of the node has the highest priority among
    those that claim its name, the node is replaced by a link to itself, and is lost. -/
theorem updateLink_node (hself : ∀ d, devices udev.devpath = some d → udev.name = d.name)
    {d : Udevice} (hd : devices d.devpath = some d)
    (hmax : ∀ p' d', devices p' = some d' → d'.Claims d.name → p' ≠ d.devpath →
      (offered udev d').toInt < (offered udev d).toInt)
    (hclean : Path.Clean (devFile root d.name))
    (hlen : 3 * (devFile root d.name).count slash + (devFile root d.name).length < pathSize)
    {b : Bool} {t : BitVec 32 × BitVec 32} (hnode : dev (devFile root d.name) = some (.device b t))
    (hfree : dev.Free (devFile root d.name ++ tmpFileExt)) :
    ∃ dev' text, updateLink root order db udev dev d.name = some (dev', 0) ∧
      dev' (devFile root d.name) = some (.link text) ∧
      Path.resolve (devFile root d.name) text = devFile root d.name ∧
      (∀ n, dev'.stat n (devFile root d.name) = none) ∧
      ∀ p, p ≠ devFile root d.name → dev' p = dev p := by
  have hreg := (h.devpath _ d hd).2
  obtain ⟨p, d', hd', hclaim, hge, hupd⟩ := @updateLink_claimed root order db udev dev devices h horder hself _
    (hreg.names _ List.mem_cons_self).terminated ⟨_, d, hd, List.mem_cons_self⟩
  -- the device itself is chosen
  obtain rfl : p = d.devpath := by
    by_contra hne
    exact absurd (hge _ d hd List.mem_cons_self) (not_le.2 (hmax p d' hd' hclaim hne))
  obtain rfl : d' = d := Option.some.inj (hd'.symm.trans hd)
  -- the directory is there
  rw [Dev.createPath_of_parent fun q hq => hfree.2.2 q (by rwa [parent_tmp])] at hupd
  have hlink := nodeSymlink_self hfree (linkTarget_ne_nil hclean hclean) hnode
  have hresolve := resolve_linkTarget hclean hclean hlen
  refine ⟨_, _, hupd, hlink, hresolve, fun n => ?_, fun p hp => ?_⟩
  · induction n with
    | zero => rfl
    | succ n ih =>
      rw [Dev.stat, hlink]
      simp only [hresolve]
      exact ih
  · exact (nodeSymlink_changes dev _ _).get (fun hmem => hp (List.mem_singleton.1 hmem)) List.not_mem_nil

end

/-- The node of `sda` in its directory. -/
def devSda : Dev where
  files := (Finmap.singleton (ascii "/dev") Node.dir).insert (ascii "/dev/sda") (.device true (8, 0))
  tree := by decide

/-- The node of `sda`, when something claims the link "sda" or its claim is dropped. -/
theorem updateLink_node_sda :
    ∃ dev' text, updateLink (ascii "/dev") (fun _ l => l)
        (udevDbAddDevice ⟨fun _ => none, fun _ => none⟩ sda).1 .init devSda sda.name = some (dev', 0) ∧
      dev' (devFile (ascii "/dev") sda.name) = some (.link text) ∧
      Path.resolve (devFile (ascii "/dev") sda.name) text = devFile (ascii "/dev") sda.name ∧
      (∀ n, dev'.stat n (devFile (ascii "/dev") sda.name) = none) ∧
      ∀ p, p ≠ devFile (ascii "/dev") sda.name → dev' p = devSda p :=
  updateLink_node (represents_empty.add sda_registrable rfl) (fun _ l => List.Perm.refl l) (by decide)
    (by simp) (fun p' d' hd' _ hne => by simp [hne] at hd') (by decide) (by decide)
    (by decide : devSda (devFile (ascii "/dev") sda.name) = some (.device true (8, 0))) (by decide)

end Udev
