/-
  udev — the rules as they are packed in memory.

  `add_to_rules` makes a `struct udev_rule` of a line.  A key of the struct has an
  operation and the offset of its value in the buffer of strings that follows the
  struct, where `add_rule_key` appends the values.

  * `Token.act`: what is done for a key of the line, which is a string that is stored
    and a change of the members that hold no string;
  * `ruleOf`, `addToRules`, `parseFile`: the rule of a line, and the rules of a file;
  * `Token.gives_act`: what can be stored for a key.
-/
import KernelLinux.Udev.RuleText

namespace Udev

/-- The members of `struct udev_rule` that are a `struct key` -/
inductive Field where
  | action | devpath | kernel | subsystem | driver
  | kernels | subsystems | drivers
  | program | result | importKey | test | run | waitForSysfs | label | gotoLabel
  | name | symlink | owner | group
deriving DecidableEq

/-- The members that are a `struct key_pairs` -/
inductive PairField where
  | attr | attrs | env
deriving DecidableEq

/-- `struct key` -/
structure Key where
  operation : KeyOperation
  valOff : ℕ
deriving DecidableEq

/-- `struct key_pair` -/
structure KeyPair where
  key : Key
  keyNameOff : ℕ
deriving DecidableEq

/-- `enum import_type` -/
inductive ImportType where
  | unset | program | file | parent
deriving DecidableEq

/-- `enum escape_type` -/
inductive EscapeType where
  | unset | none | replace
deriving DecidableEq

/-- The members of `struct udev_rule` that hold no string -/
structure Options where
  importType : ImportType
  testModeMask : BitVec 32
  mode : BitVec 32
  modeOperation : KeyOperation
  stringEscape : EscapeType
  linkPriority : BitVec 32
  partitions : BitVec 32
  lastRule : Bool
  ignoreDevice : Bool
  ignoreRemove : Bool
deriving DecidableEq

/-- `struct udev_rule`; `bufsize` is the length of `buf`. -/
structure UdevRule extends Options where
  keys : Field → Key
  pairs : PairField → List KeyPair
  buf : List UInt8

/-- A rule of zeros. -/
def UdevRule.zero : UdevRule :=
  ⟨⟨.unset, 0, 0, .opUnset, .unset, 0, 0, false, false, false⟩, fun _ => ⟨.opUnset, 0⟩, fun _ => [], []⟩

/-- What `add_to_rules` asks of the system: the ids of users and groups, and whether a file may be
    executed by its owner. -/
structure ParseEnv where
  resolveNames : Bool
  lookupUser : Str → BitVec 32
  lookupGroup : Str → BitVec 32
  executable : Str → Bool

/-- PAIRS_MAX -/
def pairsMax : ℕ := 5

/-- DEFAULT_PARTITIONS_COUNT -/
def defaultPartitionsCount : BitVec 32 := 15

/-- `sizeof(struct udev_rule)`, with pointers of 64 bits -/
def sizeofRule : ℕ := 752

/-! ## Strings -/

def toLower (c : UInt8) : UInt8 := if 0x41 ≤ c ∧ c ≤ 0x5a then c + 0x20 else c

/-- `strcasecmp(s, t) == 0` -/
def strcasecmp (s t : Str) : Bool := s.map toLower = t.map toLower

/-- `strncasecmp(s, t, strlen(t)) == 0` -/
def strncasecmp (s t : Str) : Bool := strcasecmp (s.take t.length) t

/-- `strstr(s, t)` -/
def strstr (s t : Str) : Option Str := s.tails.find? fun s => t.isPrefixOf s

/-- `strtol` to the base 8, cut to 32 bits -/
def strtol8 (s : Str) : BitVec 32 :=
  let (negative, s) := skipSign s
  let v : ℤ := (s.takeWhile fun c => 0x30 ≤ c ∧ c ≤ 0x37).foldl (fun v c => 8 * v + (c.toNat - 0x30)) 0
  BitVec.ofInt 32 (if negative then max (-v) (-2 ^ 63) else min v (2 ^ 63 - 1))

/-- What `strtoul` to the base 10 leaves of the string -/
def strtoulEnd (s : Str) : Str :=
  let rest := (skipSign s).2
  if ∃ c ∈ rest.head?, Decimal.IsDigit c then (Decimal.scan 0 rest).2 else s

/-- The part of a string before a character. -/
def before (c : UInt8) (s : Str) : Str := s.takeWhile (· ≠ c)

/-- `get_key_attribute` -/
def getKeyAttribute (str : Str) : Option Str :=
  match str.dropWhile (· ≠ 0x7b) with
  | [] => none
  | _ :: attr => if 0x7d ∈ attr then some (before 0x7d attr) else none

/-! ## add_to_rules -/

/-- `add_rule_key` -/
def addRuleKey (rule : UdevRule) (f : Field) (operation : KeyOperation) (value : Str) : UdevRule :=
  { rule with
    keys := Function.update rule.keys f ⟨operation, rule.buf.length⟩
    buf := rule.buf ++ value.take pathSize ++ [0] }

/-- `add_rule_key_pair` -/
def addRuleKeyPair (rule : UdevRule) (p : PairField) (operation : KeyOperation) (key value : Str) :
    Option UdevRule :=
  -- too many keys of the same type in a single rule
  if pairsMax ≤ (rule.pairs p).length then none
  else
    let buf := rule.buf ++ value.take pathSize ++ [0]
    some { rule with
      pairs := Function.update rule.pairs p
        (rule.pairs p ++ [⟨⟨operation, rule.buf.length⟩, buf.length⟩])
      buf := buf ++ key.take pathSize ++ [0] }

/-- A string that is to be stored. -/
inductive Store where
  | key (f : Field) (operation : KeyOperation) (value : Str)
  | pair (p : PairField) (operation : KeyOperation) (key value : Str)
deriving DecidableEq

/-- What `add_to_rules` does for a token. -/
structure Act where
  store : Option Store
  options : Options → Options
  valid : Bool

namespace Token

variable (env : ParseEnv) (t : Token)

/-- The value goes to the key `f`. -/
def keep (f : Field) : Option Act := some ⟨some (.key f t.operation t.value), id, true⟩

/-- The same, for a key that can only be matched. -/
def keepMatch (f : Field) : Option Act :=
  if t.operation = .opMatch ∨ t.operation = .opNomatch then t.keep f else none

/-- The value goes to the pairs `p`, under the name in braces. -/
def keepPair (p : PairField) (len : ℕ) : Option Act :=
  (getKeyAttribute (t.key.drop len)).map fun attr => ⟨some (.pair p t.operation attr t.value), id, true⟩

/-- SUBSYSTEM: bus, class, subsystem events should all be the same. -/
def subsystem : Option Act :=
  if t.operation = .opMatch ∨ t.operation = .opNomatch then
    if t.value = ascii "subsystem" ∨ t.value = ascii "bus" ∨ t.value = ascii "class" then
      some ⟨some (.key .subsystem t.operation (ascii "subsystem|class|bus")), id, true⟩
    else t.keep .subsystem
  else none

/-- The file of an IMPORT that does not say its type. -/
def importFile : Str :=
  let file := before 0x20 (t.value.take (pathSize - 1))
  -- allow programs in /lib/udev called without the path
  if slash ∉ file then before 0x20 ((ascii "/lib/udev/" ++ t.value).take (pathSize - 1)) else file

/-- IMPORT -/
def importType : ImportType :=
  let attr := getKeyAttribute (t.key.drop 6)
  let has := fun s => ∃ a ∈ attr, (strstr a s).isSome
  if has (ascii "program") then .program
  else if has (ascii "file") then .file
  else if has (ascii "parent") then .parent
  else if env.executable t.importFile then .program
  else .file

/-- NAME, which does not make a rule valid -/
def name : Act :=
  let attr := getKeyAttribute (t.key.drop 4)
  let has := fun s => ∃ a ∈ attr, (strstr a s).isSome
  ⟨some (.key .name t.operation t.value), fun o =>
    { o with
      partitions := if has (ascii "all_partitions") then defaultPartitionsCount else o.partitions
      ignoreRemove := o.ignoreRemove || has (ascii "ignore_remove") }, false⟩

/-- OWNER and GROUP: a name is replaced by its id. -/
def resolves : Prop :=
  env.resolveNames ∧ 0x24 ∉ t.value ∧ 0x25 ∉ t.value ∧ strtoulEnd t.value ≠ []

instance : Decidable (t.resolves env) := inferInstanceAs (Decidable (_ ∧ _))

def owner (f : Field) (lookup : Str → BitVec 32) : Option Act :=
  if t.resolves env then some ⟨some (.key f t.operation (printU (lookup t.value))), id, true⟩
  else t.keep f

/-- OPTIONS -/
def options (o : Options) : Options :=
  let has := fun s => (strstr t.value s).isSome
  { o with
    lastRule := o.lastRule || has (ascii "last_rule")
    ignoreDevice := o.ignoreDevice || has (ascii "ignore_device")
    ignoreRemove := o.ignoreRemove || has (ascii "ignore_remove")
    linkPriority := match strstr t.value (ascii "link_priority=") with
      | some pos => atoi (pos.drop 14)
      | none => o.linkPriority
    stringEscape := match strstr t.value (ascii "string_escape=") with
      | some pos =>
        if (ascii "none").isPrefixOf (pos.drop 14) then .none
        else if (ascii "replace").isPrefixOf (pos.drop 14) then .replace
        else o.stringEscape
      | none => o.stringEscape
    partitions := if has (ascii "all_partitions") then defaultPartitionsCount else o.partitions }

/-- What is done for a token.  It is `none` if that makes the line invalid. -/
def act : Option Act :=
  if strcasecmp t.key (ascii "ACTION") then t.keepMatch .action
  else if strcasecmp t.key (ascii "DEVPATH") then t.keepMatch .devpath
  else if strcasecmp t.key (ascii "KERNEL") then t.keepMatch .kernel
  else if strcasecmp t.key (ascii "SUBSYSTEM") then t.subsystem
  else if strcasecmp t.key (ascii "DRIVER") then t.keepMatch .driver
  else if strncasecmp t.key (ascii "ATTR\x7b") then t.keepPair .attr 4
  else if strcasecmp t.key (ascii "KERNELS") ∨ strcasecmp t.key (ascii "ID") then t.keepMatch .kernels
  else if strcasecmp t.key (ascii "SUBSYSTEMS") ∨ strcasecmp t.key (ascii "BUS") then
    t.keepMatch .subsystems
  else if strcasecmp t.key (ascii "DRIVERS") then t.keepMatch .drivers
  else if strncasecmp t.key (ascii "ATTRS\x7b") ∨ strncasecmp t.key (ascii "SYSFS\x7b") then
    if t.operation = .opMatch ∨ t.operation = .opNomatch then t.keepPair .attrs 5 else none
  else if strncasecmp t.key (ascii "ENV\x7b") then t.keepPair .env 3
  else if strcasecmp t.key (ascii "PROGRAM") then t.keep .program
  else if strcasecmp t.key (ascii "RESULT") then t.keepMatch .result
  else if strncasecmp t.key (ascii "IMPORT") then
    some ⟨some (.key .importKey t.operation t.value), fun o => { o with importType := t.importType env }, true⟩
  else if strncasecmp t.key (ascii "TEST") then
    some ⟨some (.key .test t.operation t.value), fun o =>
      { o with testModeMask := (getKeyAttribute (t.key.drop 4)).elim o.testModeMask strtol8 }, true⟩
  else if strcasecmp t.key (ascii "RUN") then t.keep .run
  else if strcasecmp t.key (ascii "WAIT_FOR_SYSFS") then t.keep .waitForSysfs
  else if strcasecmp t.key (ascii "LABEL") then t.keep .label
  else if strcasecmp t.key (ascii "GOTO") then t.keep .gotoLabel
  else if strncasecmp t.key (ascii "NAME") then some t.name
  else if strcasecmp t.key (ascii "SYMLINK") then t.keep .symlink
  else if strcasecmp t.key (ascii "OWNER") then t.owner env .owner env.lookupUser
  else if strcasecmp t.key (ascii "GROUP") then t.owner env .group env.lookupGroup
  else if strcasecmp t.key (ascii "MODE") then
    some ⟨none, fun o => { o with mode := strtol8 t.value, modeOperation := t.operation }, true⟩
  else if strcasecmp t.key (ascii "OPTIONS") then some ⟨none, t.options, true⟩
  -- unknown key
  else some ⟨none, id, false⟩

end Token

/-- Stores a string. -/
def UdevRule.add (rule : UdevRule) : Option Store → Option UdevRule
  | none => some rule
  | some (.key f operation value) => some (addRuleKey rule f operation value)
  | some (.pair p operation key value) => addRuleKeyPair rule p operation key value

/-- A round of the loop of `add_to_rules`; the flag is `valid`. -/
def addKey (env : ParseEnv) (r : UdevRule × Bool) (t : Token) : Option (UdevRule × Bool) :=
  (t.act env).bind fun act => (r.1.add act.store).map fun rule =>
    ({ rule with toOptions := act.options rule.toOptions }, r.2 || act.valid)

/-- A rule with its padding bytes. -/
def UdevRule.pad (rule : UdevRule) : UdevRule :=
  { rule with buf := rule.buf ++ List.replicate ((8 - (sizeofRule + rule.buf.length) % 8) % 8) 0 }

/-- The rule that `add_to_rules` makes of a line. -/
def ruleOf (env : ParseEnv) (line : Str) : Option UdevRule :=
  match (getKeys line).foldlM (addKey env) (.zero, false) with
  | some (rule, true) => some rule.pad
  -- skip line if not any valid key was found
  | _ => none

/-- `add_to_rules` -/
def addToRules (env : ParseEnv) (rules : List UdevRule) (line : Str) : List UdevRule × ℤ :=
  match ruleOf env line with
  | some rule => (rules ++ [rule], 0)
  | none => (rules, -1)

/-- `parse_file`, on the contents of the file -/
def parseFile (env : ParseEnv) (rules : List UdevRule) (buf : List UInt8) : List UdevRule :=
  (ruleLines buf).foldl (fun rules line => (addToRules env rules line).1) rules

/-! ## What is stored -/

theorem length_of_strcasecmp {s t : Str} (h : strcasecmp s t) : s.length = t.length := by
  simpa using congrArg List.length (of_decide_eq_true h)

theorem getKeyAttribute_sublist {s attr : Str} (h : getKeyAttribute s = some attr) : attr.Sublist s := by
  rw [getKeyAttribute] at h
  split at h
  · exact absurd h (by simp)
  next c rest hdrop =>
  split_ifs at h
  obtain rfl := Option.some.inj h
  have hrest : rest.Sublist s := (List.sublist_cons_self c rest).trans (hdrop ▸ List.dropWhile_sublist _)
  exact (List.takeWhile_sublist _).trans hrest

/-- What is stored for a token. -/
inductive Token.Stores (env : ParseEnv) (t : Token) : Option Store → Prop
  | nothing : Stores env t none
  | value (f : Field) : Stores env t (some (.key f t.operation t.value))
  | subsystem (hkey : strcasecmp t.key (ascii "SUBSYSTEM"))
      (hop : t.operation = .opMatch ∨ t.operation = .opNomatch)
      (hvalue : t.value = ascii "subsystem" ∨ t.value = ascii "bus" ∨ t.value = ascii "class") :
      Stores env t (some (.key .subsystem t.operation (ascii "subsystem|class|bus")))
  | id (f : Field) (x : BitVec 32)
      (hkey : strcasecmp t.key (ascii "OWNER") ∨ strcasecmp t.key (ascii "GROUP")) (h : t.resolves env) :
      Stores env t (some (.key f t.operation (printU x)))
  | pair (p : PairField) {len : ℕ} {attr : Str} (h : getKeyAttribute (t.key.drop len) = some attr) :
      Stores env t (some (.pair p t.operation attr t.value))

/-- What is done for the token stores what it may store. -/
def Token.Gives (env : ParseEnv) (t : Token) (act : Option Act) : Prop := ∀ a ∈ act, t.Stores env a.store

namespace Token
variable {env : ParseEnv} {t : Token}

theorem Gives.ite {c : Prop} [Decidable c] {a b : Option Act} (ha : c → t.Gives env a) (hb : t.Gives env b) :
    t.Gives env (if c then a else b) := by
  split_ifs with h
  · exact ha h
  · exact hb

theorem gives_none : t.Gives env none := fun _ h => absurd h (by simp)

theorem gives_some {act : Act} (h : t.Stores env act.store) : t.Gives env (some act) := by
  rintro _ ⟨⟩
  exact h

theorem gives_keep {f : Field} : t.Gives env (t.keep f) := gives_some (.value f)

theorem gives_keepMatch {f : Field} : t.Gives env (t.keepMatch f) := .ite (fun _ => gives_keep) gives_none

theorem gives_keepPair {p : PairField} {len : ℕ} : t.Gives env (t.keepPair p len) := fun act h => by
  obtain ⟨attr, hattr, rfl⟩ := Option.map_eq_some_iff.1 h
  exact .pair p hattr

theorem gives_subsystem (hkey : strcasecmp t.key (ascii "SUBSYSTEM")) : t.Gives env t.subsystem :=
  .ite (fun hop => .ite (fun hvalue => gives_some (.subsystem hkey hop hvalue)) gives_keep) gives_none

theorem gives_owner {f : Field} {lookup : Str → BitVec 32}
    (hkey : strcasecmp t.key (ascii "OWNER") ∨ strcasecmp t.key (ascii "GROUP")) :
    t.Gives env (t.owner env f lookup) :=
  .ite (fun hres => gives_some (.id f _ hkey hres)) gives_keep

theorem gives_act : t.Gives env (t.act env) := by
  rw [Token.act]
  iterate 3 refine .ite (fun _ => gives_keepMatch) ?_
  refine .ite gives_subsystem (.ite (fun _ => gives_keepMatch) (.ite (fun _ => gives_keepPair) ?_))
  iterate 3 refine .ite (fun _ => gives_keepMatch) ?_
  refine .ite (fun _ => .ite (fun _ => gives_keepPair) gives_none) (.ite (fun _ => gives_keepPair) ?_)
  refine .ite (fun _ => gives_keep) (.ite (fun _ => gives_keepMatch) ?_)
  iterate 2 refine .ite (fun _ => gives_some (.value _)) ?_
  iterate 4 refine .ite (fun _ => gives_keep) ?_
  refine .ite (fun _ => gives_some (.value _)) (.ite (fun _ => gives_keep) ?_)
  refine .ite (fun h => gives_owner (Or.inl h)) (.ite (fun h => gives_owner (Or.inr h)) ?_)
  iterate 2 refine .ite (fun _ => gives_some .nothing) ?_
  exact gives_some .nothing

end Token

end Udev
