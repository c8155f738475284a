/-
  udev — the database.

  `udev_db_add_device` writes a file of lines for a device, or a symlink with the
  node name in its target if there is nothing else to store; `udev_db_get_device`
  reads it back (`getDevice_addDevice`).  Lines are split at newlines that are not
  escaped, so a value is read back only if it is `OneLine`: it has no newline
  but after a backslash, and does not end with a backslash.
-/
import KernelLinux.Lib.Decimal
import KernelLinux.Udev.QueueFiles
import Mathlib.Data.BitVec
import Mathlib.Data.List.TakeWhile

namespace Udev

/-- What the database stores of `struct udevice`, and `udev->dev->devpath`. -/
structure Udevice where
  devpath : Str
  name : Str
  symlinkList : List Str
  /-- major and minor -/
  devt : BitVec 32 × BitVec 32
  linkPriority : BitVec 32
  partitions : BitVec 32
  ignoreRemove : BitVec 32
  envList : List Str
deriving DecidableEq

/-- `udev_device_init` -/
def Udevice.init : Udevice := ⟨[], [], [], (0, 0), 0, 0, 0, []⟩

/-- A file in DB_DIR. -/
inductive DbFile where
  | symlink (target : Str)
  | file (content : List UInt8)
deriving DecidableEq

/-- DB_DIR, and the directories of DB_NAME_INDEX_DIR with the entries in them. -/
structure Db where
  files : Str → Option DbFile
  names : Str → Option (List Str)

/-- NAME_SIZE -/
def nameSize : ℕ := 256

def newline : UInt8 := 0x0a

/-! ## Lists of names -/

/-- `name_list_add`, when it does not sort -/
def nameListAdd (nameList : List Str) (name : Str) : List Str :=
  -- avoid doubles
  if name ∈ nameList then nameList else nameList ++ [name.take (pathSize - 1)]

theorem foldl_nameListAdd {l acc : List Str} (h : (acc ++ l).Nodup) (hlen : ∀ n ∈ l, n.length < pathSize) :
    l.foldl nameListAdd acc = acc ++ l := by
  induction l generalizing acc with
  | nil => simp
  | cons n l ih =>
    have hn : n ∉ acc := fun hmem => (List.nodup_append.1 h).2.2 n hmem n List.mem_cons_self rfl
    have htake : n.take (pathSize - 1) = n :=
      List.take_of_length_le (Nat.le_pred_of_lt (hlen n List.mem_cons_self))
    rw [List.foldl_cons, nameListAdd, if_neg hn, htake, ih (by simpa using h)
      fun m hm => hlen m (List.mem_cons_of_mem _ hm)]
    simp

/-! ## Lines -/

/-- `buf_get_line(buf, buflen, cur)` on what follows `cur`; the flag is `escape`. -/
def bufGetLine : Bool → List UInt8 → ℕ
  | _, [] => 0
  | esc, c :: buf => if esc = false ∧ c = newline then 0 else bufGetLine (c = backslash) buf + 1

/-- The line does not end in `s`, but at a newline after it. -/
def OneLine : Bool → Str → Prop
  | esc, [] => esc = false
  | esc, c :: s => ¬ (esc = false ∧ c = newline) ∧ OneLine (c = backslash) s

instance OneLine.decidable : ∀ esc s, Decidable (OneLine esc s)
  | _, [] => inferInstanceAs (Decidable (_ = _))
  | _, c :: s => @instDecidableAnd _ _ _ (OneLine.decidable (c = backslash) s)

theorem bufGetLine_eq_iff (s rest : Str) (esc : Bool) :
    bufGetLine esc (s ++ newline :: rest) = s.length ↔ OneLine esc s := by
  induction s generalizing esc with
  | nil => simp [bufGetLine, OneLine]
  | cons c s ih =>
    rw [List.cons_append, bufGetLine, OneLine, List.length_cons]
    by_cases h : esc = false ∧ c = newline
    · simp [h]
    · rw [if_neg h, Nat.add_right_cancel_iff, ih]
      exact (and_iff_right h).symm

/-- What `buf_get_line` finds, and where the next line begins. -/
theorem split_bufGetLine {s : Str} (h : OneLine false s) (rest : Str) :
    (s ++ newline :: rest).take (bufGetLine false (s ++ newline :: rest)) = s ∧
      (s ++ newline :: rest).drop (bufGetLine false (s ++ newline :: rest) + 1) = rest := by
  rw [(bufGetLine_eq_iff s rest false).2 h]
  refine ⟨List.take_left' rfl, ?_⟩
  rw [← List.drop_drop, List.drop_left]
  rfl

/-! ## Numbers -/

def isSpace (c : UInt8) : Bool := c = 0x20 ∨ (9 ≤ c ∧ c ≤ 13)

/-- The white space and the sign that `strtol` and %u of `sscanf` skip. -/
def skipSign (s : Str) : Bool × Str :=
  match s.dropWhile isSpace with
  | 0x2d :: s => (true, s)
  | 0x2b :: s => (false, s)
  | s => (false, s)

/-- `atoi`: the value of `strtol`, a `long` of 64 bits, is cut to an `int`. -/
def atoi (s : Str) : BitVec 32 :=
  let (negative, s) := skipSign s
  let v := (Decimal.scan 0 s).1
  BitVec.ofInt 32 (if negative then max (-v) (-2 ^ 63) else min v (2 ^ 63 - 1))

/-- A number for %u of `sscanf`, and what follows. -/
def sscanfU (s : Str) : Option (BitVec 32 × Str) :=
  let (negative, s) := skipSign s
  if ∃ c ∈ s.head?, Decimal.IsDigit c then
    let (v, rest) := Decimal.scan 0 s
    let v := min v (2 ^ 64 - 1)
    some (BitVec.ofInt 32 (if negative then -v else v), rest)
  else none

/-- `sscanf(line, "%u:%u", &maj, &min)`.  It is `none` if it leaves one of them uninitialized. -/
def sscanfDevt (s : Str) : Option (BitVec 32 × BitVec 32) :=
  (sscanfU s).bind fun (maj, s) =>
    if s.head? = some 0x3a then (sscanfU s.tail).map fun (min, _) => (maj, min) else none

/-- `fprintf` with %u -/
def printU (v : BitVec 32) : Str := Decimal.print v.toNat

/-! ## Writing -/

/-- There is nothing to store but the name. -/
def Udevice.Bare (udev : Udevice) : Prop :=
  udev.symlinkList = [] ∧ udev.envList = [] ∧ udev.partitions = 0 ∧ udev.ignoreRemove = 0

instance (udev : Udevice) : Decidable udev.Bare := inferInstanceAs (Decidable (_ ∧ _))

/-- The lines of the database file. -/
def dbLines (udev : Udevice) : List Str :=
  [ascii "N:" ++ udev.name] ++
  udev.symlinkList.map (ascii "S:" ++ ·) ++
  [ascii "M:" ++ printU udev.devt.1 ++ [0x3a] ++ printU udev.devt.2] ++
  (if udev.linkPriority ≠ 0 then [ascii "L:" ++ printU udev.linkPriority] else []) ++
  (if udev.partitions ≠ 0 then [ascii "A:" ++ printU udev.partitions] else []) ++
  (if udev.ignoreRemove ≠ 0 then [ascii "R:" ++ printU udev.ignoreRemove] else []) ++
  udev.envList.map (ascii "E:" ++ ·)

/-- `name_index(devpath, name, add)` -/
def nameIndex (db : Db) (devpath name : Str) (add : Bool) : Db :=
  let dir := escape name
  let file := escape devpath
  { db with
    names := Function.update db.names dir
      (if add then
        -- create_path fails for a directory that has no name
        if dir.length ≤ nameMax then create file (createPath (db.names dir)) else db.names dir
      else deletePath (unlink file (db.names dir))) }

/-- The file that `udev_db_add_device` creates. -/
def dbFile (udev : Udevice) : DbFile :=
  if udev.Bare then .symlink udev.name
  else .file ((dbLines udev).flatMap fun line => line ++ [newline])

/-- `udev_db_add_device` -/
def udevDbAddDevice (db : Db) (udev : Udevice) : Db × ℤ :=
  let filename := escape udev.devpath
  let db := { db with files := Function.update db.files filename none }
  -- neither symlink nor fopen takes a longer name, and symlink takes no empty target
  if filename.length ≤ nameMax ∧ ¬ (udev.Bare ∧ udev.name = []) then
    let db := { db with files := Function.update db.files filename (some (dbFile udev)) }
    -- add symlink-name to index
    let db := udev.symlinkList.foldl (fun db name => nameIndex db udev.devpath name true) db
    -- add name to index
    (nameIndex db udev.devpath udev.name true, 0)
  else (db, -1)

/-- `udev_db_delete_device` -/
def udevDbDeleteDevice (db : Db) (udev : Udevice) : Db :=
  let db := { db with files := Function.update db.files (escape udev.devpath) none }
  (udev.name :: udev.symlinkList).foldl (fun db name => nameIndex db udev.devpath name false) db

/-! ## Reading -/

/-- The value on a line, copied to a buffer of PATH_SIZE bytes.  Without a key and a colon, the copy
    is of a negative length. -/
def lineValue (line : Str) : Option Str :=
  if line.length < 2 then none
  else some (((line.take pathSize).drop 2).takeWhile (· ≠ 0))

/-- The switch of `udev_db_get_device` -/
def getLine (udev : Udevice) (line : Str) : Option Udevice :=
  if line.head? = (ascii "N").head? then (lineValue line).map fun v => { udev with name := v }
  else if line.head? = (ascii "M").head? then
    ((lineValue line).bind sscanfDevt).map fun devt => { udev with devt := devt }
  else if line.head? = (ascii "S").head? then
    (lineValue line).map fun v => { udev with symlinkList := nameListAdd udev.symlinkList v }
  else if line.head? = (ascii "L").head? then
    (lineValue line).map fun v => { udev with linkPriority := atoi v }
  else if line.head? = (ascii "A").head? then
    (lineValue line).map fun v => { udev with partitions := atoi v }
  else if line.head? = (ascii "R").head? then
    (lineValue line).map fun v => { udev with ignoreRemove := atoi v }
  else if line.head? = (ascii "E").head? then
    (lineValue line).map fun v => { udev with envList := nameListAdd udev.envList v }
  else some udev

/-- The loop of `udev_db_get_device`; `n` bounds the number of lines. -/
def udevDbGetDevice.loop : ℕ → List UInt8 → Udevice → Option Udevice
  | 0, _, udev => some udev
  | n + 1, buf, udev =>
    if buf = [] then some udev
    else
      let count := bufGetLine false buf
      (getLine udev (buf.take count)).bind (udevDbGetDevice.loop n (buf.drop (count + 1)))

/-- `udev_db_get_device(udev, devpath)`.  It is `none` where it reads or writes outside of its
    buffers or uses an uninitialized number. -/
def udevDbGetDevice (db : Db) (udev : Udevice) (devpath : Str) : Option (Udevice × ℤ) :=
  let udev := { udev with devpath := devpath }
  match db.files (escape devpath) with
  | none => some (udev, -1)
  | some (.symlink target) =>
    -- target[target_len] is written after a target that fills the buffer
    if nameSize ≤ target.length then none
    else if target = [] then some (udev, -1)
    else some ({ udev with name := target }, 0)
  | some (.file buf) =>
    -- mmap fails for an empty file
    if buf = [] then some (udev, -1)
    else (udevDbGetDevice.loop buf.length buf udev).map fun udev =>
      (udev, if udev.name = [] then -1 else 0)

/-! ## The round trip -/

theorem skipSign_of_isDigit {c : UInt8} (hc : Decimal.IsDigit c) (s : Str) :
    skipSign (c :: s) = (false, c :: s) := by
  obtain ⟨h1, h2⟩ := hc
  have hspace : isSpace c = false := by
    simp only [isSpace, decide_eq_false_iff_not]
    rintro (rfl | ⟨-, h⟩)
    · revert h1; decide
    · exact absurd (UInt8.le_trans h1 h) (by decide)
  rw [skipSign, List.dropWhile_cons_of_neg (by simp [hspace])]
  split
  · next h => rw [List.cons.injEq] at h; obtain ⟨rfl, -⟩ := h; exact absurd h1 (by decide)
  · next h => rw [List.cons.injEq] at h; obtain ⟨rfl, -⟩ := h; exact absurd h1 (by decide)
  · rfl

theorem scan_printU (v : BitVec 32) {rest : Str} (h : Decimal.Ends rest) :
    skipSign (printU v ++ rest) = (false, printU v ++ rest) ∧
      Decimal.scan 0 (printU v ++ rest) = (v.toNat, rest) := by
  obtain ⟨c, s, hcs, hc⟩ := Decimal.print_eq_cons v.toNat
  refine ⟨?_, Decimal.scan_print _ h⟩
  rw [printU, hcs]
  exact skipSign_of_isDigit hc _

theorem atoi_printU (v : BitVec 32) : atoi (printU v) = v := by
  obtain ⟨h1, h2⟩ := @scan_printU v [] (by simp [Decimal.Ends])
  rw [List.append_nil] at h1 h2
  have hlt := v.isLt
  simp only [atoi, h1, h2]
  rw [if_neg (by simp), min_eq_left (by omega)]
  simp

theorem sscanfU_printU (v : BitVec 32) {rest : Str} (h : Decimal.Ends rest) :
    sscanfU (printU v ++ rest) = some (v, rest) := by
  obtain ⟨h1, h2⟩ := scan_printU v h
  obtain ⟨c, s, hcs, hc⟩ := Decimal.print_eq_cons v.toNat
  have hlt := v.isLt
  simp only [sscanfU, h1, h2]
  rw [if_pos ⟨c, by simp [printU, hcs], hc⟩, min_eq_left (by omega)]
  simp

theorem sscanfDevt_print (devt : BitVec 32 × BitVec 32) :
    sscanfDevt (printU devt.1 ++ [0x3a] ++ printU devt.2) = some devt := by
  have h2 := @sscanfU_printU devt.2 [] (by simp [Decimal.Ends])
  rw [List.append_nil] at h2
  rw [sscanfDevt, List.append_assoc, sscanfU_printU _ (by simp [Decimal.Ends]; decide)]
  simp [h2]

/-- The loop reads the lines one after the other. -/
theorem udevDbGetDevice.loop_lines {lines : List Str} (h : ∀ line ∈ lines, OneLine false line) {n : ℕ}
    (hn : lines.length ≤ n) (udev : Udevice) :
    loop n (lines.flatMap fun line => line ++ [newline]) udev = lines.foldlM getLine udev := by
  induction lines generalizing n udev with
  | nil => cases n <;> simp [loop]
  | cons line lines ih =>
    obtain ⟨n, rfl⟩ := Nat.exists_eq_succ_of_ne_zero (Nat.ne_zero_of_lt hn)
    obtain ⟨htake, hdrop⟩ := split_bufGetLine (h line List.mem_cons_self) (lines.flatMap fun line => line ++ [newline])
    have hbuf : (line :: lines).flatMap (fun line => line ++ [newline]) =
        line ++ newline :: lines.flatMap fun line => line ++ [newline] := by simp
    rw [hbuf, loop, if_neg (by simp)]
    simp only [htake, hdrop, List.foldlM_cons]
    refine bind_congr fun udev => ih (fun l hl => h l (List.mem_cons_of_mem _ hl)) (by simpa using hn) udev

/-- A value that can be on a line. -/
structure Value (v : Str) : Prop where
  terminated : 0 ∉ v
  oneLine : OneLine false v
  short : v.length + 2 ≤ pathSize

theorem lineValue_eq {v : Str} (hv : Value v) (a b : UInt8) : lineValue (a :: b :: v) = some v := by
  have hlen : (a :: b :: v).length ≤ pathSize := hv.short
  rw [lineValue, if_neg (by simp), List.take_of_length_le hlen]
  simp only [List.drop_succ_cons, List.drop_zero, Option.some.injEq]
  exact List.takeWhile_eq_self_iff.2 fun c hc => by
    simpa using fun h : c = 0 => hv.terminated (h ▸ hc)

theorem value_of_digits {v : Str} (hv : ∀ c ∈ v, c = 0x3a ∨ Decimal.IsDigit c)
    (hlen : v.length + 2 ≤ pathSize) : Value v := by
  refine ⟨fun h0 => ?_, ?_, hlen⟩
  · rcases hv 0 h0 with h | h
    · revert h; decide
    · revert h; decide
  · clear hlen
    induction v with
    | nil => rfl
    | cons c v ih =>
      have hc : c ≠ newline ∧ c ≠ backslash := by
        constructor <;> rintro rfl <;> rcases hv _ List.mem_cons_self with h | h <;> revert h <;> decide
      refine ⟨fun h => hc.1 h.2, ?_⟩
      rw [decide_eq_false hc.2]
      exact ih fun c' hc' => hv c' (List.mem_cons_of_mem _ hc')

theorem printU_length_le (v : BitVec 32) : (printU v).length ≤ 10 :=
  Decimal.print_length_le (by decide) (v.isLt.trans (by decide))

theorem value_printU (v : BitVec 32) : Value (printU v) :=
  value_of_digits (fun _ hc => Or.inr (Decimal.isDigit_of_mem_print hc))
    (by have := printU_length_le v; simp only [pathSize]; omega)

theorem value_devt (devt : BitVec 32 × BitVec 32) : Value (printU devt.1 ++ [0x3a] ++ printU devt.2) := by
  refine value_of_digits (fun c hc => ?_) ?_
  · simp only [List.mem_append, List.mem_singleton] at hc
    rcases hc with (hc | hc) | hc
    · exact Or.inr (Decimal.isDigit_of_mem_print hc)
    · exact Or.inl hc
    · exact Or.inr (Decimal.isDigit_of_mem_print hc)
  · have h1 := printU_length_le devt.1
    have h2 := printU_length_le devt.2
    simp only [List.length_append, List.length_singleton, pathSize]
    omega

/-- A device whose record can be read back. -/
structure Storable (udev : Udevice) : Prop where
  devpath : 0 ∉ udev.devpath
  filename : (escape udev.devpath).length ≤ nameMax
  name : Value udev.name
  name_ne : udev.name ≠ []
  /-- `readlink` has a buffer of NAME_SIZE bytes. -/
  name_short : udev.Bare → udev.name.length < nameSize
  symlinks : ∀ l ∈ udev.symlinkList, Value l
  symlinks_nodup : udev.symlinkList.Nodup
  env : ∀ e ∈ udev.envList, Value e
  env_nodup : udev.envList.Nodup

/-- What is read back for `devt` in the message: a symlink stores neither the device number nor the
    priority. -/
def Udevice.recorded (udev : Udevice) (devt : BitVec 32 × BitVec 32) : Udevice :=
  if udev.Bare then { udev with devt := devt, linkPriority := 0 } else udev

section
variable {v : Str} (hv : Value v) (udev : Udevice)
include hv

theorem getLine_name : getLine udev (ascii "N:" ++ v) = some { udev with name := v } := by
  simp [getLine, ascii, lineValue_eq hv 0x4e 0x3a]

theorem getLine_symlink : getLine udev (ascii "S:" ++ v) =
    some { udev with symlinkList := nameListAdd udev.symlinkList v } := by
  simp [getLine, ascii, lineValue_eq hv 0x53 0x3a]

theorem getLine_env : getLine udev (ascii "E:" ++ v) =
    some { udev with envList := nameListAdd udev.envList v } := by
  simp [getLine, ascii, lineValue_eq hv 0x45 0x3a]

end

section
variable (udev : Udevice)

theorem getLine_devt (devt : BitVec 32 × BitVec 32) :
    getLine udev (ascii "M:" ++ printU devt.1 ++ [0x3a] ++ printU devt.2) =
      some { udev with devt := devt } := by
  have hv := value_devt devt
  have hline := lineValue_eq hv 0x4d 0x3a
  have hscan := sscanfDevt_print devt
  simp only [List.append_assoc, List.cons_append, List.nil_append] at hline hscan
  simp [getLine, ascii, hline, hscan]

theorem foldlM_linkPriority {v : BitVec 32} (h : udev.linkPriority = 0) :
    (if v ≠ 0 then [ascii "L:" ++ printU v] else []).foldlM getLine udev =
      some { udev with linkPriority := v } := by
  split_ifs with hv
  · simp [getLine, ascii, lineValue_eq (value_printU v) 0x4c 0x3a, atoi_printU]
  · rw [not_not.1 hv, ← h]
    rfl

theorem foldlM_partitions {v : BitVec 32} (h : udev.partitions = 0) :
    (if v ≠ 0 then [ascii "A:" ++ printU v] else []).foldlM getLine udev =
      some { udev with partitions := v } := by
  split_ifs with hv
  · simp [getLine, ascii, lineValue_eq (value_printU v) 0x41 0x3a, atoi_printU]
  · rw [not_not.1 hv, ← h]
    rfl

theorem foldlM_ignoreRemove {v : BitVec 32} (h : udev.ignoreRemove = 0) :
    (if v ≠ 0 then [ascii "R:" ++ printU v] else []).foldlM getLine udev =
      some { udev with ignoreRemove := v } := by
  split_ifs with hv
  · simp [getLine, ascii, lineValue_eq (value_printU v) 0x52 0x3a, atoi_printU]
  · rw [not_not.1 hv, ← h]
    rfl

end

theorem foldlM_symlinks {l : List Str} (h : ∀ v ∈ l, Value v) (udev : Udevice) :
    (l.map (ascii "S:" ++ ·)).foldlM getLine udev =
      some { udev with symlinkList := l.foldl nameListAdd udev.symlinkList } := by
  induction l generalizing udev with
  | nil => rfl
  | cons v l ih =>
    rw [List.map_cons, List.foldlM_cons, getLine_symlink (h v List.mem_cons_self)]
    exact ih (fun v hv => h v (List.mem_cons_of_mem _ hv)) _

theorem foldlM_env {l : List Str} (h : ∀ v ∈ l, Value v) (udev : Udevice) :
    (l.map (ascii "E:" ++ ·)).foldlM getLine udev =
      some { udev with envList := l.foldl nameListAdd udev.envList } := by
  induction l generalizing udev with
  | nil => rfl
  | cons v l ih =>
    rw [List.map_cons, List.foldlM_cons, getLine_env (h v List.mem_cons_self)]
    exact ih (fun v hv => h v (List.mem_cons_of_mem _ hv)) _

theorem foldl_nameListAdd_nil {l : List Str} (hnodup : l.Nodup) (h : ∀ v ∈ l, Value v) :
    l.foldl nameListAdd [] = l :=
  @foldl_nameListAdd l [] hnodup fun v hv => by have := (h v hv).short; omega

/-- A `struct udevice` that holds no record yet. -/
structure Udevice.Fresh (udev : Udevice) : Prop where
  symlinkList : udev.symlinkList = []
  linkPriority : udev.linkPriority = 0
  partitions : udev.partitions = 0
  ignoreRemove : udev.ignoreRemove = 0
  envList : udev.envList = []

theorem foldlM_dbLines {d udev : Udevice} (h : Storable d) (hu : udev.Fresh) :
    (dbLines d).foldlM getLine udev = some { d with devpath := udev.devpath } := by
  simp only [dbLines, List.foldlM_append, List.foldlM_cons, List.foldlM_nil, getLine_name h.name,
    getLine_devt, foldlM_symlinks h.symlinks, foldlM_env h.env, foldlM_linkPriority, foldlM_partitions,
    foldlM_ignoreRemove, Option.bind_eq_bind, Option.bind_some, Option.pure_def, hu.symlinkList,
    hu.linkPriority, hu.partitions, hu.ignoreRemove, hu.envList,
    foldl_nameListAdd_nil h.symlinks_nodup h.symlinks, foldl_nameListAdd_nil h.env_nodup h.env]

theorem oneLine_key {a : UInt8} (ha : a ≠ newline ∧ a ≠ backslash) {v : Str} (hv : OneLine false v) :
    OneLine false (a :: 0x3a :: v) := by
  refine ⟨fun h => ha.1 h.2, fun h => ?_, ?_⟩
  · exact absurd h.2 (by decide)
  · exact hv

theorem oneLine_dbLines {d : Udevice} (h : Storable d) : ∀ line ∈ dbLines d, OneLine false line := by
  intro line hline
  simp only [dbLines, List.mem_append, List.mem_singleton, List.mem_map, List.mem_ite_nil_right] at hline
  rcases hline with (((((rfl | ⟨v, hv, rfl⟩) | rfl) | ⟨-, rfl⟩) | ⟨-, rfl⟩) | ⟨-, rfl⟩) | ⟨v, hv, rfl⟩
  · exact oneLine_key (by decide) h.name.oneLine
  · exact oneLine_key (by decide) (h.symlinks v hv).oneLine
  · have h : OneLine false (ascii "M:" ++ (printU d.devt.1 ++ [0x3a] ++ printU d.devt.2)) :=
      oneLine_key (by decide) (value_devt d.devt).oneLine
    simpa only [List.append_assoc] using h
  · exact oneLine_key (by decide) (value_printU _).oneLine
  · exact oneLine_key (by decide) (value_printU _).oneLine
  · exact oneLine_key (by decide) (value_printU _).oneLine
  · exact oneLine_key (by decide) (h.env v hv).oneLine

theorem length_le_flatMap (lines : List Str) :
    lines.length ≤ (lines.flatMap fun line => line ++ [newline]).length := by
  induction lines with
  | nil => exact le_rfl
  | cons line lines ih => simp at ih ⊢; omega

@[simp] theorem nameIndex_files (db : Db) (devpath name : Str) (add : Bool) :
    (nameIndex db devpath name add).files = db.files := rfl

@[simp] theorem foldl_nameIndex_files (db : Db) (devpath : Str) (add : Bool) (names : List Str) :
    (names.foldl (fun db name => nameIndex db devpath name add) db).files = db.files := by
  induction names generalizing db with
  | nil => rfl
  | cons name names ih => rw [List.foldl_cons, ih, nameIndex_files]

theorem addDevice_eq {d : Udevice} (h : Storable d) (db : Db) :
    udevDbAddDevice db d =
      (nameIndex (d.symlinkList.foldl (fun db name => nameIndex db d.devpath name true)
        { db with files := Function.update db.files (escape d.devpath) (some (dbFile d)) })
        d.devpath d.name true, 0) := by
  simp only [udevDbAddDevice]
  rw [if_pos ⟨h.filename, fun hb => h.name_ne hb.2⟩, Function.update_idem]

theorem addDevice_files {d : Udevice} (h : Storable d) (db : Db) :
    (udevDbAddDevice db d).1.files = Function.update db.files (escape d.devpath) (some (dbFile d)) := by
  rw [addDevice_eq h, nameIndex_files, foldl_nameIndex_files]

theorem deleteDevice_files (db : Db) (d : Udevice) :
    (udevDbDeleteDevice db d).files = Function.update db.files (escape d.devpath) none := by
  rw [udevDbDeleteDevice, foldl_nameIndex_files]

theorem getDevice_congr {db db' : Db} {p : Str} (h : db'.files (escape p) = db.files (escape p))
    (udev : Udevice) : udevDbGetDevice db' udev p = udevDbGetDevice db udev p := by
  rw [udevDbGetDevice, udevDbGetDevice, h]

/-- A fresh `struct udevice` reads the file that was written for `d`. -/
theorem getDevice_dbFile {d udev : Udevice} (h : Storable d) (hu : udev.Fresh) {db : Db}
    (hfile : db.files (escape d.devpath) = some (dbFile d)) :
    udevDbGetDevice db udev d.devpath = some (d.recorded udev.devt, 0) := by
  rw [udevDbGetDevice, hfile, dbFile, Udevice.recorded]
  by_cases hb : d.Bare
  · have hlt := h.name_short hb
    simp only [if_pos hb, if_neg (Nat.not_le.2 hlt), if_neg h.name_ne]
    obtain ⟨h1, h2, h3, h4⟩ := hb
    simp only [h1, h2, h3, h4, hu.symlinkList, hu.linkPriority, hu.partitions, hu.ignoreRemove, hu.envList]
  · simp only [if_neg hb]
    rw [if_neg (by simp [dbLines]), udevDbGetDevice.loop_lines (oneLine_dbLines h) (length_le_flatMap _),
      @foldlM_dbLines d { udev with devpath := d.devpath } h
        ⟨hu.symlinkList, hu.linkPriority, hu.partitions, hu.ignoreRemove, hu.envList⟩]
    simp [h.name_ne]

/-- "/block/sda" with the links "disk" and "root", and priority 10. -/
def sda : Udevice :=
  { devpath := ascii "/block/sda", name := ascii "sda", symlinkList := [ascii "disk", ascii "root"]
    devt := (8, 0), linkPriority := 10, partitions := 0, ignoreRemove := 0, envList := [ascii "ID=1"] }

theorem sda_storable : Storable sda where
  devpath := by decide
  filename := by decide
  name := ⟨by decide, by decide, by decide⟩
  name_ne := by decide
  name_short := by decide
  symlinks := by
    intro l hl
    rcases List.mem_cons.1 hl with rfl | hl
    · exact ⟨by decide, by decide, by decide⟩
    · rw [List.mem_singleton.1 hl]
      exact ⟨by decide, by decide, by decide⟩
  symlinks_nodup := by decide
  env := by
    intro e he
    rw [List.mem_singleton.1 he]
    exact ⟨by decide, by decide, by decide⟩
  env_nodup := by decide

end Udev
