/-
  udev — the devices that the database stands for.

  The abstract model is a map from devpaths to devices.  The database `Represents` it
  if it has a file for each device and, under each name that a device claims, an
  entry in the index; `udev_db_add_device` and `udev_db_delete_device` then add and
  remove a device.
-/
import KernelLinux.Udev.Db

namespace Udev

/-- The devices that are known, by their devpaths. -/
abbrev Devices := Str → Option Udevice

/-- The name is the node or a symlink of the device. -/
def Udevice.Claims (udev : Udevice) (name : Str) : Prop := name ∈ udev.name :: udev.symlinkList

/-- A name that can be that of a directory in DB_NAME_INDEX_DIR. -/
structure IndexName (name : Str) : Prop where
  terminated : 0 ∉ name
  short : (escape name).length ≤ nameMax

/-- A device that the database can hold: its record is read back, and its names are in the index. -/
structure Registrable (udev : Udevice) : Prop where
  storable : Storable udev
  /-- `readdir` finds the entry: files that begin with a dot are skipped. -/
  absolute : udev.devpath.head? = some slash
  names : ∀ name, udev.Claims name → IndexName name

/-- What the database says is known. -/
structure Represents (db : Db) (devices : Devices) : Prop where
  devpath : ∀ p d, devices p = some d → d.devpath = p ∧ Registrable d
  files : ∀ p, 0 ∉ p → db.files (escape p) = (devices p).map dbFile
  names : ∀ dir entry, entry ∈ names (db.names dir) ↔
    ∃ p d name, devices p = some d ∧ entry = escape p ∧ d.Claims name ∧ dir = escape name

theorem Registrable.devpath_ne {udev : Udevice} (h : Registrable udev) : 0 ∉ udev.devpath := h.storable.devpath

/-! ## The index -/

section
variable {db : Db} {devpath : Str}

theorem mem_nameIndex_true {name dir entry : Str} (hname : (escape name).length ≤ nameMax)
    (hfile : (escape devpath).length ≤ nameMax) :
    entry ∈ names ((nameIndex db devpath name true).names dir) ↔
      entry ∈ names (db.names dir) ∨ (dir = escape name ∧ entry = escape devpath) := by
  by_cases hdir : dir = escape name
  · subst hdir
    simp only [nameIndex, if_true, Function.update_self, if_pos hname, mem_names_create hfile, true_and]
    exact or_comm
  · simp [nameIndex, hdir]

theorem mem_nameIndex_false {name dir entry : Str} :
    entry ∈ names ((nameIndex db devpath name false).names dir) ↔
      entry ∈ names (db.names dir) ∧ ¬ (dir = escape name ∧ entry = escape devpath) := by
  by_cases hdir : dir = escape name
  · subst hdir
    simp only [nameIndex, Bool.false_eq_true, if_false, Function.update_self, mem_names_deletePath,
      mem_names_unlink, true_and]
  · simp [nameIndex, hdir]

theorem mem_foldl_nameIndex_true {ns : List Str} {dir entry : Str}
    (hns : ∀ n ∈ ns, (escape n).length ≤ nameMax) (hfile : (escape devpath).length ≤ nameMax) :
    entry ∈ names ((ns.foldl (fun db name => nameIndex db devpath name true) db).names dir) ↔
      entry ∈ names (db.names dir) ∨ ((∃ n ∈ ns, dir = escape n) ∧ entry = escape devpath) := by
  induction ns generalizing db with
  | nil => simp
  | cons n ns ih =>
    rw [List.foldl_cons, ih fun m hm => hns m (List.mem_cons_of_mem _ hm),
      mem_nameIndex_true (hns n List.mem_cons_self) hfile]
    simp only [List.mem_cons, exists_eq_or_imp]
    tauto

theorem mem_foldl_nameIndex_false {ns : List Str} {dir entry : Str} :
    entry ∈ names ((ns.foldl (fun db name => nameIndex db devpath name false) db).names dir) ↔
      entry ∈ names (db.names dir) ∧ ¬ ((∃ n ∈ ns, dir = escape n) ∧ entry = escape devpath) := by
  induction ns generalizing db with
  | nil => simp
  | cons n ns ih =>
    rw [List.foldl_cons, ih, mem_nameIndex_false]
    simp only [List.mem_cons, exists_eq_or_imp]
    rw [and_assoc, ← not_or, ← or_and_right]

end

theorem mem_addDevice {d : Udevice} (h : Registrable d) (db : Db) (dir entry : Str) :
    entry ∈ names ((udevDbAddDevice db d).1.names dir) ↔
      entry ∈ names (db.names dir) ∨ ((∃ n, d.Claims n ∧ dir = escape n) ∧ entry = escape d.devpath) := by
  rw [addDevice_eq h.storable,
    mem_nameIndex_true (h.names _ List.mem_cons_self).short h.storable.filename,
    mem_foldl_nameIndex_true (fun n hn => (h.names n (List.mem_cons_of_mem _ hn)).short) h.storable.filename]
  simp only [Udevice.Claims, List.mem_cons, or_and_right, exists_or, exists_eq_left]
  rw [or_assoc]
  exact or_congr Iff.rfl or_comm

theorem mem_deleteDevice (d : Udevice) (db : Db) (dir entry : Str) :
    entry ∈ names ((udevDbDeleteDevice db d).names dir) ↔
      entry ∈ names (db.names dir) ∧
        ¬ ((∃ n, d.Claims n ∧ dir = escape n) ∧ entry = escape d.devpath) := by
  rw [udevDbDeleteDevice, mem_foldl_nameIndex_false]
  rfl

/-! ## Adding and removing a device -/

namespace Represents

variable {db : Db} {devices : Devices}

/-- What is read for a device. -/
theorem getDevice (h : Represents db devices) {udev : Udevice} (hu : udev.Fresh) {p : Str} (hp : 0 ∉ p) :
    udevDbGetDevice db udev p =
      match devices p with
      | some d => some (d.recorded udev.devt, 0)
      | none => some ({ udev with devpath := p }, -1) := by
  have hfile := h.files p hp
  cases hd : devices p with
  | none =>
    rw [hd] at hfile
    simp [udevDbGetDevice, hfile]
  | some d =>
    obtain ⟨rfl, hreg⟩ := h.devpath p d hd
    rw [hd] at hfile
    exact getDevice_dbFile hreg.storable hu hfile

/-- `udev_db_add_device`, for a device that is not known -/
theorem add (h : Represents db devices) {d : Udevice} (hd : Registrable d) (hnew : devices d.devpath = none) :
    Represents (udevDbAddDevice db d).1 (Function.update devices d.devpath (some d)) where
  devpath p e he := by
    by_cases hp : p = d.devpath
    · subst hp
      rw [Function.update_self, Option.some.injEq] at he
      exact he ▸ ⟨rfl, hd⟩
    · rw [Function.update_of_ne hp] at he
      exact h.devpath p e he
  files p hp := by
    rw [addDevice_files hd.storable]
    by_cases heq : p = d.devpath
    · subst heq
      simp
    · rw [Function.update_of_ne fun hesc => heq (escape_inj hp hd.devpath_ne hesc),
        Function.update_of_ne heq, h.files p hp]
  names dir entry := by
    rw [mem_addDevice hd, h.names]
    constructor
    · rintro (⟨p, e, n, he, rfl, hn, rfl⟩ | ⟨⟨n, hn, rfl⟩, rfl⟩)
      · have hne : p ≠ d.devpath := fun hp => by rw [hp, hnew] at he; exact absurd he (by simp)
        exact ⟨p, e, n, by rw [Function.update_of_ne hne, he], rfl, hn, rfl⟩
      · exact ⟨d.devpath, d, n, Function.update_self .., rfl, hn, rfl⟩
    · rintro ⟨p, e, n, he, rfl, hn, rfl⟩
      by_cases hp : p = d.devpath
      · subst hp
        rw [Function.update_self, Option.some.injEq] at he
        exact Or.inr ⟨⟨n, he ▸ hn, rfl⟩, rfl⟩
      · rw [Function.update_of_ne hp] at he
        exact Or.inl ⟨p, e, n, he, rfl, hn, rfl⟩

/-- `udev_db_delete_device`, with the names of the record -/
theorem delete (h : Represents db devices) {d u : Udevice} (hd : devices d.devpath = some d)
    (hdevpath : u.devpath = d.devpath) (hname : u.name = d.name) (hlinks : u.symlinkList = d.symlinkList) :
    Represents (udevDbDeleteDevice db u) (Function.update devices d.devpath none) where
  devpath p e he := by
    by_cases hp : p = d.devpath
    · rw [hp, Function.update_self] at he
      exact absurd he (by simp)
    · rw [Function.update_of_ne hp] at he
      exact h.devpath p e he
  files p hp := by
    rw [deleteDevice_files, hdevpath]
    by_cases heq : p = d.devpath
    · subst heq
      simp
    · rw [Function.update_of_ne fun hesc => heq (escape_inj hp (h.devpath _ d hd).2.devpath_ne hesc),
        Function.update_of_ne heq, h.files p hp]
  names dir entry := by
    have hclaims : ∀ n, u.Claims n ↔ d.Claims n := fun n => by
      rw [Udevice.Claims, Udevice.Claims, hname, hlinks]
    simp only [mem_deleteDevice, h.names, hclaims, hdevpath]
    constructor
    · rintro ⟨⟨p, e, n, he, rfl, hn, rfl⟩, hnot⟩
      have hne : p ≠ d.devpath := fun hp => by
        subst hp
        rw [hd, Option.some.injEq] at he
        exact hnot ⟨⟨n, he ▸ hn, rfl⟩, rfl⟩
      exact ⟨p, e, n, by rw [Function.update_of_ne hne, he], rfl, hn, rfl⟩
    · rintro ⟨p, e, n, he, rfl, hn, rfl⟩
      by_cases hp : p = d.devpath
      · rw [hp, Function.update_self] at he
        exact absurd he (by simp)
      · rw [Function.update_of_ne hp] at he
        obtain ⟨hpe, hreg⟩ := h.devpath p e he
        refine ⟨⟨p, e, n, he, rfl, hn, rfl⟩, fun hnot => hp ?_⟩
        exact escape_inj (hpe ▸ hreg.devpath_ne) (h.devpath _ d hd).2.devpath_ne hnot.2

end Represents

theorem represents_empty : Represents ⟨fun _ => none, fun _ => none⟩ fun _ => none :=
  ⟨by simp, by simp, by simp [names]⟩

theorem sda_registrable : Registrable sda := by
  refine ⟨sda_storable, by decide, fun n hn => ?_⟩
  have h := (by decide : ∀ n ∈ sda.name :: sda.symlinkList, 0 ∉ n ∧ (escape n).length ≤ nameMax) n hn
  exact ⟨h.1, h.2⟩

end Udev
