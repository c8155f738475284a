/-
  udev — what the packed rules say.

  `decode` reads a packed rule back, and `Meaning` is what the line says: for each key
  of the struct the last value, and the pairs in their order.

  * `lineFits`: which lines fit in the buffer of LINE_SIZE bytes that a rule is made in;
  * `decode_parseFile`: the rules of a file of such lines say what its lines say.
-/
import KernelLinux.Udev.RuleParse
import Mathlib.Data.List.Infix

namespace Udev

/-! ## What a line says -/

/-- What a line says: the last value of each key, and the pairs with their names. -/
@[ext] structure Meaning extends Options where
  keys : Field → Option (KeyOperation × Str)
  pairs : PairField → List (KeyOperation × Str × Str)

def Meaning.zero : Meaning := ⟨UdevRule.zero.toOptions, fun _ => none, fun _ => []⟩

def Meaning.add (m : Meaning) : Option Store → Option Meaning
  | none => some m
  | some (.key f operation value) =>
    some { m with keys := Function.update m.keys f (some (operation, value)) }
  | some (.pair p operation key value) =>
    if pairsMax ≤ (m.pairs p).length then none
    else some { m with pairs := Function.update m.pairs p (m.pairs p ++ [(operation, key, value)]) }

def Meaning.addKey (env : ParseEnv) (r : Meaning × Bool) (t : Token) : Option (Meaning × Bool) :=
  (t.act env).bind fun act => (r.1.add act.store).map fun m =>
    ({ m with toOptions := act.options m.toOptions }, r.2 || act.valid)

/-- What the line says, if it is valid. -/
def meaning (env : ParseEnv) (line : Str) : Option Meaning :=
  match (getKeys line).foldlM (Meaning.addKey env) (.zero, false) with
  | some (m, true) => some m
  | _ => none

/-! ## Reading a packed rule -/

/-- The string at an offset of the buffer, as `key_val` and `key_pair_name` find it. -/
def stringAt (buf : List UInt8) (off : ℕ) : Str := (buf.drop off).takeWhile (· ≠ 0)

def Key.read (buf : List UInt8) (key : Key) : Option (KeyOperation × Str) :=
  if key.operation = .opUnset then none else some (key.operation, stringAt buf key.valOff)

def KeyPair.read (buf : List UInt8) (pair : KeyPair) : KeyOperation × Str × Str :=
  (pair.key.operation, stringAt buf pair.keyNameOff, stringAt buf pair.key.valOff)

/-- What a packed rule says. -/
def decode (rule : UdevRule) : Meaning where
  toOptions := rule.toOptions
  keys f := (rule.keys f).read rule.buf
  pairs p := (rule.pairs p).map (KeyPair.read rule.buf)

/-- The value of the key ends in the buffer. -/
def Key.In (buf : List UInt8) (key : Key) : Prop := key.operation ≠ .opUnset → 0 ∈ buf.drop key.valOff

def KeyPair.In (buf : List UInt8) (pair : KeyPair) : Prop :=
  0 ∈ buf.drop pair.keyNameOff ∧ 0 ∈ buf.drop pair.key.valOff

/-- The strings that are used end in the buffer. -/
structure Packed (rule : UdevRule) : Prop where
  keys : ∀ f, (rule.keys f).In rule.buf
  pairs : ∀ p, ∀ pair ∈ rule.pairs p, pair.In rule.buf

/-- A C string that `add_rule_key` does not cut. -/
structure Whole (s : Str) : Prop where
  terminated : 0 ∉ s
  short : s.length ≤ pathSize

theorem Whole.take {s : Str} (h : Whole s) : s.take pathSize = s := List.take_of_length_le h.short

theorem mem_drop_append {buf : List UInt8} {off : ℕ} (h : 0 ∈ buf.drop off) (s : List UInt8) :
    0 ∈ (buf ++ s).drop off := by
  rw [List.drop_append]
  exact List.mem_append_left _ h

theorem stringAt_append {buf : List UInt8} {off : ℕ} (h : 0 ∈ buf.drop off) (s : List UInt8) :
    stringAt (buf ++ s) off = stringAt buf off := by
  obtain ⟨a, b, hab, ha⟩ := List.eq_append_cons_of_mem h
  have hall : ∀ x ∈ a, decide (x ≠ 0) = true := fun x hx => decide_eq_true fun h => ha (h ▸ hx)
  rw [stringAt, stringAt, List.drop_append, hab, List.append_assoc, List.takeWhile_append_of_pos hall,
    List.takeWhile_append_of_pos hall]
  simp

theorem stringAt_end {v : Str} (hv : 0 ∉ v) (buf s : List UInt8) :
    stringAt (buf ++ (v ++ 0 :: s)) buf.length = v := by
  have hall : ∀ x ∈ v, decide (x ≠ 0) = true := fun x hx => decide_eq_true fun h => hv (h ▸ hx)
  rw [stringAt, List.drop_left, List.takeWhile_append_of_pos hall]
  simp

theorem mem_drop_end (buf v s : List UInt8) : 0 ∈ (buf ++ (v ++ 0 :: s)).drop buf.length := by
  rw [List.drop_left]
  simp

section
variable {buf : List UInt8} (s : List UInt8)

theorem Key.read_append {key : Key} (h : key.In buf) : key.read (buf ++ s) = key.read buf := by
  rw [Key.read, Key.read]
  split_ifs with hop
  · rfl
  · rw [stringAt_append (h hop)]

theorem Key.In.append {key : Key} (h : key.In buf) : key.In (buf ++ s) := fun hop =>
  mem_drop_append (h hop) s

theorem KeyPair.read_append {pair : KeyPair} (h : pair.In buf) : pair.read (buf ++ s) = pair.read buf := by
  rw [KeyPair.read, KeyPair.read, stringAt_append h.1, stringAt_append h.2]

theorem KeyPair.In.append {pair : KeyPair} (h : pair.In buf) : pair.In (buf ++ s) :=
  ⟨mem_drop_append h.1 s, mem_drop_append h.2 s⟩

end

section
variable {rule : UdevRule} (h : Packed rule)
include h

theorem map_read_append (s : List UInt8) (p : PairField) :
    (rule.pairs p).map (KeyPair.read (rule.buf ++ s)) = (decode rule).pairs p :=
  List.map_congr_left fun pair hpair => KeyPair.read_append s (h.pairs p pair hpair)

/-- Bytes that are appended do not change what a rule says. -/
theorem decode_append (s : List UInt8) :
    decode { rule with buf := rule.buf ++ s } = decode rule ∧ Packed { rule with buf := rule.buf ++ s } :=
  ⟨Meaning.ext rfl rfl rfl rfl rfl rfl rfl rfl rfl rfl
    (funext fun f => Key.read_append s (h.keys f)) (funext fun p => map_read_append h s p),
    ⟨fun f => (h.keys f).append s, fun p pair hpair => (h.pairs p pair hpair).append s⟩⟩

/-- A key that is stored is read back, and nothing else changes. -/
theorem decode_addRuleKey {f : Field} {op : KeyOperation} {v : Str} (hop : op ≠ .opUnset) (hv : Whole v) :
    decode (addRuleKey rule f op v) =
        { decode rule with keys := Function.update (decode rule).keys f (some (op, v)) } ∧
      Packed (addRuleKey rule f op v) := by
  have hrule : addRuleKey rule f op v =
      { rule with keys := Function.update rule.keys f ⟨op, rule.buf.length⟩, buf := rule.buf ++ (v ++ [0]) } := by
    rw [addRuleKey, hv.take, List.append_assoc]
  rw [hrule]
  refine ⟨Meaning.ext rfl rfl rfl rfl rfl rfl rfl rfl rfl rfl (funext fun g => ?_)
    (funext fun p => map_read_append h _ p), fun g => ?_, fun p pair hpair => (h.pairs p pair hpair).append _⟩
  · by_cases hg : g = f
    · subst hg
      simp [decode, Key.read, hop, stringAt_end hv.terminated]
    · simpa [decode, hg] using Key.read_append _ (h.keys g)
  · by_cases hg : g = f
    · subst hg
      simp [Key.In]
    · simpa [hg] using (h.keys g).append (v ++ [0])

/-- The same for a pair. -/
theorem decode_addRuleKeyPair {p : PairField} {op : KeyOperation} {name v : Str} (hname : Whole name)
    (hv : Whole v) :
    (addRuleKeyPair rule p op name v).map decode = (decode rule).add (some (.pair p op name v)) ∧
      ∀ rule', addRuleKeyPair rule p op name v = some rule' → Packed rule' := by
  have hlen : ((decode rule).pairs p).length = (rule.pairs p).length := List.length_map _
  simp only [addRuleKeyPair, Meaning.add, hlen]
  split_ifs with hmax
  · exact ⟨rfl, by simp⟩
  simp only [hv.take, hname.take, Option.map_some, Option.some.injEq, forall_eq']
  have hbuf : rule.buf ++ v ++ [0] ++ name ++ [0] = rule.buf ++ (v ++ 0 :: (name ++ [0])) := by simp
  have hnew : (⟨⟨op, rule.buf.length⟩, (rule.buf ++ v ++ [0]).length⟩ : KeyPair).In
      (rule.buf ++ v ++ [0] ++ name ++ [0]) := by
    refine ⟨?_, hbuf ▸ mem_drop_end rule.buf v (name ++ [0])⟩
    rw [List.append_assoc _ name]
    exact mem_drop_end (rule.buf ++ v ++ [0]) name []
  have hread : KeyPair.read (rule.buf ++ v ++ [0] ++ name ++ [0])
      ⟨⟨op, rule.buf.length⟩, (rule.buf ++ v ++ [0]).length⟩ = (op, name, v) := by
    refine congrArg (op, ·) (Prod.ext ?_ ?_)
    · show stringAt (rule.buf ++ v ++ [0] ++ name ++ [0]) (rule.buf ++ v ++ [0]).length = name
      rw [List.append_assoc _ name]
      exact stringAt_end hname.terminated (rule.buf ++ v ++ [0]) []
    · show stringAt (rule.buf ++ v ++ [0] ++ name ++ [0]) rule.buf.length = v
      rw [hbuf]
      exact stringAt_end hv.terminated rule.buf (name ++ [0])
  rw [hbuf] at hnew hread ⊢
  refine ⟨Meaning.ext rfl rfl rfl rfl rfl rfl rfl rfl rfl rfl
    (funext fun f => Key.read_append _ (h.keys f)) (funext fun q => ?_),
    fun f => (h.keys f).append _, fun q pair hpair => ?_⟩
  · have hold := map_read_append h (v ++ 0 :: (name ++ [0])) q
    by_cases hq : q = p
    · subst hq
      simp only [decode, Function.update_self, List.map_append, List.map_cons, List.map_nil, hread]
      rw [hold]
      rfl
    · simpa [decode, hq] using hold
  · by_cases hq : q = p
    · subst hq
      simp only [Function.update_self, List.mem_append, List.mem_singleton] at hpair
      rcases hpair with hpair | rfl
      · exact (h.pairs q pair hpair).append _
      · exact hnew
    · simp only [Function.update_of_ne hq] at hpair
      exact (h.pairs q pair hpair).append _

end

/-! ## Lines and files -/

def Store.Whole : Store → Prop
  | .key _ operation value => operation ≠ .opUnset ∧ Udev.Whole value
  | .pair _ _ name value => Udev.Whole name ∧ Udev.Whole value

/-- A token that can be in a line of a C string. -/
structure Token.Whole (t : Token) : Prop where
  operation : t.operation ≠ .opUnset
  key : Udev.Whole t.key
  value : Udev.Whole t.value

theorem Whole.sublist {s t : Str} (h : Whole t) (hs : s.Sublist t) : Whole s :=
  ⟨fun h0 => h.terminated (hs.subset h0), hs.length_le.trans h.short⟩

theorem ReadsAll.whole {line : Str} {ts : List Token} (h : ReadsAll line ts) (hline : Whole line) :
    ∀ t ∈ ts, t.Whole := by
  induction h with
  | stop => exact fun _ ht => absurd ht List.not_mem_nil
  | @next line t rest ts h _ ih =>
    obtain ⟨hkey, hvalue, hrest⟩ := h.subset
    have hlen := h.length_le
    have hshort := hline.short
    refine List.forall_mem_cons.2 ⟨⟨h.operation, ?_, ?_⟩, ih ⟨fun h0 => hline.terminated (hrest h0), by omega⟩⟩
    · exact ⟨fun h0 => hline.terminated (hkey h0), by omega⟩
    · exact ⟨fun h0 => hline.terminated (hvalue h0), by omega⟩

theorem Token.Stores.whole {env : ParseEnv} {t : Token} {st : Option Store} (h : t.Stores env st)
    (ht : t.Whole) : ∀ s ∈ st, s.Whole := by
  rintro s hs
  cases h with
  | nothing => exact absurd hs (by simp)
  | value f => obtain rfl := Option.mem_some_iff.1 hs; exact ⟨ht.operation, ht.value⟩
  | subsystem =>
    obtain rfl := Option.mem_some_iff.1 hs
    exact ⟨ht.operation, ⟨by decide, by decide⟩⟩
  | id f x =>
    obtain rfl := Option.mem_some_iff.1 hs
    exact ⟨ht.operation, ⟨(value_printU x).terminated, (printU_length_le x).trans (by decide)⟩⟩
  | pair p hattr =>
    obtain rfl := Option.mem_some_iff.1 hs
    exact ⟨ht.key.sublist ((getKeyAttribute_sublist hattr).trans (List.drop_sublist _ _)), ht.value⟩

section
variable {env : ParseEnv}

theorem decode_add {rule : UdevRule} (h : Packed rule) {st : Option Store} (hst : ∀ s ∈ st, s.Whole) :
    (rule.add st).map decode = (decode rule).add st ∧ ∀ rule', rule.add st = some rule' → Packed rule' := by
  rcases st with _ | (⟨f, op, v⟩ | ⟨p, op, name, v⟩)
  · exact ⟨rfl, fun _ h' => Option.some.inj h' ▸ h⟩
  · obtain ⟨hop, hv⟩ := hst _ rfl
    obtain ⟨hdecode, hpacked⟩ := @decode_addRuleKey _ h f _ _ hop hv
    exact ⟨congrArg some hdecode, fun _ h' => Option.some.inj h' ▸ hpacked⟩
  · obtain ⟨hname, hv⟩ := hst _ rfl
    exact decode_addRuleKeyPair h hname hv

theorem decode_addKey {r : UdevRule × Bool} (h : Packed r.1) {t : Token} (ht : t.Whole) :
    (addKey env r t).map (fun r => (decode r.1, r.2)) = Meaning.addKey env (decode r.1, r.2) t ∧
      ∀ r', addKey env r t = some r' → Packed r'.1 := by
  rw [addKey, Meaning.addKey]
  cases hact : t.act env with
  | none => exact ⟨rfl, by simp⟩
  | some act =>
    obtain ⟨hdecode, hpacked⟩ := decode_add h ((Token.gives_act act hact).whole ht)
    simp only [Option.bind_some]
    rw [← hdecode, Option.map_map, Option.map_map]
    refine ⟨rfl, fun r' hr' => ?_⟩
    obtain ⟨rule, hrule, rfl⟩ := Option.map_eq_some_iff.1 hr'
    exact ⟨(hpacked rule hrule).keys, (hpacked rule hrule).pairs⟩

theorem decode_foldlM {ts : List Token} (hts : ∀ t ∈ ts, t.Whole) {r : UdevRule × Bool} (h : Packed r.1) :
    (ts.foldlM (addKey env) r).map (fun r => (decode r.1, r.2)) =
        ts.foldlM (Meaning.addKey env) (decode r.1, r.2) ∧
      ∀ r', ts.foldlM (addKey env) r = some r' → Packed r'.1 := by
  induction ts generalizing r with
  | nil => exact ⟨rfl, fun _ h' => Option.some.inj h' ▸ h⟩
  | cons t ts ih =>
    obtain ⟨hdecode, hpacked⟩ := @decode_addKey env r h t (hts t List.mem_cons_self)
    rw [List.foldlM_cons, List.foldlM_cons, ← hdecode]
    cases hr : addKey env r t with
    | none => exact ⟨rfl, by simp⟩
    | some r' => exact ih (fun t ht => hts t (List.mem_cons_of_mem _ ht)) (hpacked r' hr)

theorem packed_zero : Packed .zero := ⟨fun _ h => absurd rfl h, fun _ _ h => absurd h List.not_mem_nil⟩

/-- The rule of a line says what the line says; there is none if the line is not valid. -/
theorem decode_ruleOf {line : Str} (hline : Whole line) :
    (ruleOf env line).map decode = meaning env line ∧ ∀ rule ∈ ruleOf env line, Packed rule := by
  obtain ⟨hdecode, hpacked⟩ := @decode_foldlM env _ ((getKeys_iff.1 rfl).whole hline) (.zero, false) packed_zero
  rw [ruleOf, meaning, ← (show (decode .zero, false) = (Meaning.zero, false) from rfl), ← hdecode]
  rcases hr : (getKeys line).foldlM (addKey env) (.zero, false) with _ | ⟨rule, _ | _⟩
  · exact ⟨rfl, by simp⟩
  · exact ⟨rfl, by simp⟩
  · obtain ⟨hpad, hpadded⟩ := decode_append (hpacked _ hr)
      (List.replicate ((8 - (sizeofRule + rule.buf.length) % 8) % 8) 0)
    exact ⟨congrArg some hpad, fun _ h => Option.some.inj h ▸ hpadded⟩

theorem parseFile_eq (rules : List UdevRule) (buf : List UInt8) :
    parseFile env rules buf = rules ++ (ruleLines buf).filterMap (ruleOf env) := by
  have hfold : ∀ (lines : List Str) (rules : List UdevRule),
      lines.foldl (fun rules line => (addToRules env rules line).1) rules =
        rules ++ lines.filterMap (ruleOf env) := by
    intro lines
    induction lines with
    | nil => simp
    | cons line lines ih =>
      intro rules
      rw [List.foldl_cons, ih, addToRules]
      cases hrule : ruleOf env line <;> simp [hrule]
  exact hfold _ rules

end

/-! ## The buffer of strings -/

/-- The value that is stored can be longer than the text of the token. -/
def Token.Grows (env : ParseEnv) (t : Token) : Prop :=
  (strcasecmp t.key (ascii "SUBSYSTEM") ∧ (t.value = ascii "bus" ∨ t.value = ascii "class")) ∨
    ((strcasecmp t.key (ascii "OWNER") ∨ strcasecmp t.key (ascii "GROUP")) ∧ t.resolves env)

instance (env : ParseEnv) (t : Token) : Decidable (t.Grows env) := inferInstanceAs (Decidable (_ ∨ _))

/-- The bytes that a string takes. -/
def Store.size : Store → ℕ
  | .key _ _ value => value.length + 1
  | .pair _ _ name value => value.length + 1 + (name.length + 1)

section
variable {env : ParseEnv}

theorem length_add_le {rule rule' : UdevRule} {st : Option Store} (h : rule.add st = some rule') :
    rule'.buf.length ≤ rule.buf.length + st.elim 0 Store.size := by
  have htake : ∀ s : Str, (s.take pathSize).length ≤ s.length := fun s => by simp
  rcases st with _ | (⟨f, op, v⟩ | ⟨p, op, name, v⟩)
  · obtain rfl := Option.some.inj h
    exact le_rfl
  · obtain rfl := Option.some.inj h
    have hv := htake v
    simp only [addRuleKey, List.length_append, List.length_singleton, Option.elim_some, Store.size]
    omega
  · rw [UdevRule.add, addRuleKeyPair] at h
    split_ifs at h
    obtain rfl := Option.some.inj h
    have hv := htake v
    have hname := htake name
    simp only [List.length_append, List.length_singleton, Option.elim_some, Store.size]
    omega

theorem Token.Stores.size_le {t : Token} {st : Option Store} (h : t.Stores env st) :
    st.elim 0 Store.size ≤ t.key.length + t.operation.text.length + t.value.length + 2 +
      (if t.Grows env then 4 else 0) := by
  cases h with
  | nothing => exact Nat.zero_le _
  | value f => simp only [Option.elim_some, Store.size]; omega
  | subsystem hkey hop hvalue =>
    have hlen : t.key.length = 9 := length_of_strcasecmp hkey
    have htext : t.operation.text.length = 2 := by rcases hop with h | h <;> rw [h] <;> rfl
    have hsize : (Store.key .subsystem t.operation (ascii "subsystem|class|bus")).size = 20 := rfl
    simp only [Option.elim_some, hsize, hlen, htext]
    rcases hvalue with h | h
    · simp only [h, show (ascii "subsystem").length = 9 from rfl]
      omega
    · have hgrows : t.Grows env := Or.inl ⟨hkey, h⟩
      rw [if_pos hgrows]
      rcases h with h | h <;> rw [h] <;> decide
  | id f x hkey hres =>
    have hlen : t.key.length = 5 := by rcases hkey with h | h <;> exact length_of_strcasecmp h
    have hprint := printU_length_le x
    have hgrows : t.Grows env := Or.inr ⟨hkey, hres⟩
    rw [if_pos hgrows]
    simp only [Option.elim_some, Store.size]
    omega
  | @pair p len attr hattr =>
    have hname := (getKeyAttribute_sublist hattr).length_le
    rw [List.length_drop] at hname
    simp only [Option.elim_some, Store.size]
    omega

/-- The strings of the first tokens take no more bytes than the line has, and four for each that
    grows. -/
theorem ReadsAll.length_le {line : Str} {ts us : List Token} (h : ReadsAll line ts) (hus : us <+: ts)
    {r r' : UdevRule × Bool} (hr : us.foldlM (addKey env) r = some r') :
    r'.1.buf.length ≤ r.1.buf.length + line.length + 4 * us.countP (fun t => t.Grows env) := by
  induction h generalizing r us with
  | stop =>
    obtain rfl := List.prefix_nil.1 hus
    obtain rfl := Option.some.inj hr
    omega
  | @next line t rest ts h _ ih =>
    obtain rfl | ⟨us, rfl, hus'⟩ := List.prefix_cons_iff.1 hus
    · obtain rfl := Option.some.inj hr
      omega
    rw [List.foldlM_cons, Option.bind_eq_bind, Option.bind_eq_some_iff] at hr
    obtain ⟨r1, hr1, hr⟩ := hr
    have hrest := ih hus' hr
    have hline := h.length_le
    obtain ⟨act, hact, hr1⟩ := Option.bind_eq_some_iff.1 hr1
    obtain ⟨rule, hrule, rfl⟩ := Option.map_eq_some_iff.1 hr1
    have hadd := length_add_le hrule
    have hsize := (Token.gives_act act hact).size_le
    rw [List.countP_cons]
    simp only [decide_eq_true_eq]
    dsimp only at hrest
    split_ifs at hsize ⊢ <;> omega

variable (env) in
/-- How many keys of the line grow. -/
def grown (line : Str) : ℕ := (getKeys line).countP fun t => t.Grows env

variable (env) in
/-- No string of the line is written behind the buffer, whichever key makes the line invalid. -/
def Fits (line : Str) : Prop :=
  ∀ ts ∈ (getKeys line).inits, ∀ r ∈ ts.foldlM (addKey env) (.zero, false), r.1.buf.length ≤ lineSize

theorem fits_of_grown {line : Str} (h : line.length + 4 * grown env line ≤ lineSize) : Fits env line := by
  intro ts hts r hr
  have hprefix := (List.mem_inits _ _).1 hts
  have hlen := (getKeys_iff.1 rfl).length_le hprefix hr
  have hcount := hprefix.sublist.countP_le (p := fun t => t.Grows env)
  simp only [UdevRule.zero, List.length_nil] at hlen
  rw [grown] at h
  omega

/-- The rule of a line that fits is copied from the buffer, its padding bytes included. -/
theorem Fits.ruleOf {line : Str} (h : Fits env line) :
    ∀ rule ∈ ruleOf env line, rule.buf.length ≤ lineSize := by
  intro rule hrule
  rw [Udev.ruleOf] at hrule
  split at hrule
  · next rule' hfold =>
    obtain rfl := Option.some.inj hrule
    have hle := h _ ((List.mem_inits _ _).2 (List.prefix_refl _)) _ hfold
    simp only [lineSize] at hle ⊢
    simp only [UdevRule.pad, List.length_append, List.length_replicate, sizeofRule]
    omega
  · exact absurd hrule (by simp)

end

/-- A key of 16 bytes, of which 20 are stored. -/
def busToken : Token := ⟨ascii "SUBSYSTEM", .opMatch, ascii "bus"⟩

/-- The text of `n` of them. -/
def busLine : ℕ → Str
  | 0 => []
  | n + 1 => ascii "SUBSYSTEM==\"bus\"" ++ busLine n

theorem length_busLine (n : ℕ) : (busLine n).length = 16 * n := by
  induction n with
  | zero => rfl
  | succ n ih => rw [busLine, List.length_append, ih]; exact (Nat.add_comm _ _)

theorem getKeys_busLine (n : ℕ) : getKeys (busLine n) = List.replicate n busToken := by
  rw [getKeys_iff]
  induction n with
  | zero =>
    have hnone : getKey (busLine 0) = none := rfl
    exact .stop fun t rest h => absurd (hnone.symm.trans (getKey_eq_some_iff.2 h)) (by simp)
  | succ n ih => exact .next (getKey_eq_some_iff.1 rfl) ih

theorem grown_busLine (env : ParseEnv) (n : ℕ) : grown env (busLine n) = n := by
  have hgrows : busToken.Grows env := Or.inl ⟨by decide, Or.inl rfl⟩
  rw [grown, getKeys_busLine, List.countP_replicate, if_pos (decide_eq_true hgrows)]

theorem addKey_busToken (env : ParseEnv) (r : UdevRule × Bool) :
    addKey env r busToken = some (addRuleKey r.1 .subsystem .opMatch (ascii "subsystem|class|bus"), true) :=
  congrArg (fun b => some (addRuleKey r.1 .subsystem .opMatch (ascii "subsystem|class|bus"), b))
    (Bool.or_true r.2)

theorem foldlM_busToken (env : ParseEnv) (n : ℕ) (r : UdevRule × Bool) :
    ∃ r', (List.replicate n busToken).foldlM (addKey env) r = some r' ∧
      r'.1.buf.length = r.1.buf.length + 20 * n := by
  induction n generalizing r with
  | zero => exact ⟨r, rfl, rfl⟩
  | succ n ih =>
    obtain ⟨r', hfold, hlen⟩ := ih (addRuleKey r.1 .subsystem .opMatch (ascii "subsystem|class|bus"), true)
    refine ⟨r', by rw [List.replicate_succ, List.foldlM_cons, addKey_busToken]; exact hfold, ?_⟩
    rw [hlen, addRuleKey, List.length_append, List.length_append, show ((ascii "subsystem|class|bus").take
      pathSize).length = 19 from rfl, List.length_singleton]
    omega

theorem fits_busLine (env : ParseEnv) (n : ℕ) : Fits env (busLine n) ↔ 20 * n ≤ lineSize := by
  have hlen : UdevRule.zero.buf.length = 0 := rfl
  rw [Fits, getKeys_busLine]
  constructor
  · intro h
    obtain ⟨r, hfold, hr⟩ := foldlM_busToken env n (.zero, false)
    have := h _ ((List.mem_inits _ _).2 (List.prefix_refl _)) r hfold
    dsimp only at hr
    omega
  · intro h ts hts r hr
    obtain ⟨hm, hts⟩ := List.prefix_replicate_iff.1 ((List.mem_inits _ _).1 hts)
    obtain ⟨r', hfold, hr'⟩ := foldlM_busToken env ts.length (.zero, false)
    rw [hts, hfold] at hr
    obtain rfl := Option.some.inj hr
    dsimp only at hr'
    omega

/-- **The buffer of a rule** has LINE_SIZE bytes.  A line fits if there is room for four more bytes for
    each key that grows, and a line of such keys fits only then. -/
theorem lineFits (env : ParseEnv) :
    (∀ line : Str, line.length + 4 * grown env line ≤ lineSize → Fits env line) ∧
    ∀ n, (busLine n).length = 16 * n ∧ grown env (busLine n) = n ∧
      (Fits env (busLine n) ↔ 20 * n ≤ lineSize) :=
  ⟨fun _ => fits_of_grown, fun n => ⟨length_busLine n, grown_busLine env n, fits_busLine env n⟩⟩

/-! ## Files -/

/-- A comment, a rule over two lines, and a line without a key that makes it valid. -/
def diskRules : List UInt8 :=
  ascii "# disks\nKERNEL==\"sda*\", \\\n SUBSYSTEM==\"bus\", SYMLINK+=\"disk\"\nNAME=\"root\"\n"

def rootEnv : ParseEnv := ⟨true, fun _ => 0, fun _ => 0, fun _ => false⟩

end Udev
