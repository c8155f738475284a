/-
  udev — the text of a rules file.

  `parse_file` takes the lines out of a file, and `get_key` the keys, operators and
  values out of a line.  `Reads` is the grammar of one of them; `getKeys_iff`: what is
  read from a line is what the grammar reads from its beginning, up to where it
  reads nothing more.  The rest of the line is left out without a word.
-/
import KernelLinux.Udev.Db

namespace Udev

/-- `enum key_operation`, with KEY_OP_ left out -/
inductive KeyOperation where
  | opUnset
  | opMatch
  | opNomatch
  | opAdd
  | opAssign
  | opAssignFinal
deriving DecidableEq

/-- What `get_key` finds. -/
structure Token where
  key : Str
  operation : KeyOperation
  value : Str
deriving DecidableEq

def quote : UInt8 := 0x22

/-- LINE_SIZE -/
def lineSize : ℕ := 512

/-! ## parse_file -/

/-- The copy of a line.  The backslash before a newline is skipped; the newline stays. -/
def copyLine : Str → Str
  | [] => []
  | c :: s => if c = backslash ∧ s.head? = some newline then copyLine s else c :: copyLine s

/-- The C string that `parse_file` makes of a line, if it does not skip the line. -/
def ruleLine (line : Str) : Option Str :=
  -- eat the whitespace
  let line := line.dropWhile isSpace
  -- a comment, or a line that does not fit
  if line = [] ∨ line.head? = some 0x23 ∨ lineSize ≤ line.length then none
  else some ((copyLine line).takeWhile (· ≠ 0))

/-- The loop of `parse_file`; `n` bounds the number of lines. -/
def ruleLines.loop : ℕ → List UInt8 → List Str
  | 0, _ => []
  | n + 1, buf =>
    if buf = [] then []
    else
      let count := bufGetLine false buf
      (ruleLine (buf.take count)).toList ++ ruleLines.loop n (buf.drop (count + 1))

/-- The lines of a rules file that `parse_file` gives to `add_to_rules`. -/
def ruleLines (buf : List UInt8) : List Str := ruleLines.loop buf.length buf

theorem length_copyLine_le (s : Str) : (copyLine s).length ≤ s.length := by
  induction s with
  | nil => exact le_rfl
  | cons c s ih =>
    rw [copyLine]
    split_ifs
    · exact Nat.le_succ_of_le ih
    · exact Nat.succ_le_succ ih

theorem ruleLine_eq_some {line s : Str} (h : ruleLine line = some s) : 0 ∉ s ∧ s.length < lineSize := by
  rw [ruleLine] at h
  split_ifs at h with hskip
  obtain rfl := Option.some.inj h
  simp only [not_or, not_le] at hskip
  refine ⟨fun h0 => by simpa using List.mem_takeWhile_imp h0, ?_⟩
  exact ((List.takeWhile_sublist _).length_le.trans (length_copyLine_le _)).trans_lt hskip.2.2

theorem mem_ruleLines {buf s : Str} (h : s ∈ ruleLines buf) : 0 ∉ s ∧ s.length < lineSize := by
  have hloop : ∀ n buf, s ∈ ruleLines.loop n buf → 0 ∉ s ∧ s.length < lineSize := by
    intro n
    induction n with
    | zero => exact fun _ h => absurd h List.not_mem_nil
    | succ n ih =>
      intro buf h
      rw [ruleLines.loop] at h
      split_ifs at h
      · exact absurd h List.not_mem_nil
      · rcases List.mem_append.1 h with h | h
        · exact ruleLine_eq_some (Option.mem_toList.1 h)
        · exact ih _ h
  exact hloop _ _ h

/-- A file is read line by line. -/
theorem ruleLines_flatMap {lines : List Str} (h : ∀ line ∈ lines, OneLine false line) :
    ruleLines (lines.flatMap fun line => line ++ [newline]) = lines.filterMap ruleLine := by
  have hloop : ∀ n, lines.length ≤ n →
      ruleLines.loop n (lines.flatMap fun line => line ++ [newline]) = lines.filterMap ruleLine := by
    induction lines with
    | nil => rintro (_ | n) - <;> rfl
    | cons line lines ih =>
      intro n hn
      obtain ⟨n, rfl⟩ := Nat.exists_eq_succ_of_ne_zero (Nat.ne_zero_of_lt hn)
      obtain ⟨htake, hdrop⟩ :=
        split_bufGetLine (h line List.mem_cons_self) (lines.flatMap fun line => line ++ [newline])
      have hbuf : (line :: lines).flatMap (fun line => line ++ [newline]) =
          line ++ newline :: lines.flatMap fun line => line ++ [newline] := by simp
      rw [hbuf, ruleLines.loop, if_neg (by simp)]
      simp only [htake, hdrop, ih (fun l hl => h l (List.mem_cons_of_mem _ hl)) n (by simpa using hn)]
      cases hline : ruleLine line <;> simp [hline]
  refine hloop _ ?_
  rw [List.length_flatMap]
  exact (List.length_le_sum_of_one_le _ (by simp)).trans' (by simp)

/-! ## get_key -/

/-- Whitespace or a comma. -/
def isSep (c : UInt8) : Bool := isSpace c || c = 0x2c

/-- A key ends where this begins. -/
def keyEnds : Str → Bool
  | [] => false
  | c :: s => isSpace c || c = 0x3d || ((c = 0x2b || c = 0x21 || c = 0x3a) && s.head? = some 0x3d)

/-- A key after its first character, and what follows it. -/
def getKey.key : Str → Option (Str × Str)
  | [] => none
  | c :: s =>
    if keyEnds (c :: s) then some ([], c :: s)
    else (getKey.key s).map fun (k, rest) => (c :: k, rest)

/-- The type of an operation, and what follows it. -/
def getKey.operation : Str → Option (KeyOperation × Str)
  | 0x3d :: 0x3d :: s => some (.opMatch, s)
  | 0x21 :: 0x3d :: s => some (.opNomatch, s)
  | 0x2b :: 0x3d :: s => some (.opAdd, s)
  | 0x3d :: s => some (.opAssign, s)
  | 0x3a :: 0x3d :: s => some (.opAssignFinal, s)
  | _ => none

/-- The value between quotes, and what follows it. -/
def getKey.value : Str → Option (Str × Str)
  | [] => none
  | c :: s =>
    if c = quote ∧ quote ∈ s then some (s.takeWhile (· ≠ quote), (s.dropWhile (· ≠ quote)).tail)
    else none

/-- `get_key(&line, &key, &operation, &value)`, and where `line` points to then. -/
def getKey (line : Str) : Option (Token × Str) :=
  -- skip whitespace
  match line.dropWhile isSep with
  | [] => none
  | c :: s =>
    (getKey.key s).bind fun (key, s) =>
      (getKey.operation (s.dropWhile isSpace)).bind fun (operation, s) =>
        (getKey.value (s.dropWhile isSpace)).map fun (value, rest) =>
          (⟨c :: key, operation, value⟩, rest)

/-- The keys that `add_to_rules` gets from a line; `n` bounds their number. -/
def getKeys.loop : ℕ → Str → List Token
  | 0, _ => []
  | n + 1, line =>
    match getKey line with
    | none => []
    | some (t, rest) => t :: getKeys.loop n rest

def getKeys (line : Str) : List Token := getKeys.loop line.length line

/-! ## The grammar -/

/-- How an operation is written. -/
def KeyOperation.text : KeyOperation → Str
  | .opUnset => []
  | .opMatch => ascii "=="
  | .opNomatch => ascii "!="
  | .opAdd => ascii "+="
  | .opAssign => ascii "="
  | .opAssignFinal => ascii ":="

/-- A key goes on over `k` and ends where `s` begins. -/
def KeyEndsAt : Str → Str → Prop
  | [], s => keyEnds s
  | c :: k, s => ¬ keyEnds (c :: (k ++ s)) ∧ KeyEndsAt k s

/-- The line begins with a key, an operation and a value, and goes on with `rest`. -/
structure Reads (line : Str) (t : Token) (rest : Str) : Prop where
  exists_text : ∃ seps c key spaces spaces', (∀ c ∈ seps, isSep c) ∧ ¬ isSep c ∧ t.key = c :: key ∧
    (∀ c ∈ spaces, isSpace c) ∧ (∀ c ∈ spaces', isSpace c) ∧
    KeyEndsAt key (spaces ++ t.operation.text ++ spaces' ++ quote :: (t.value ++ quote :: rest)) ∧
    line = seps ++ t.key ++ spaces ++ t.operation.text ++ spaces' ++ quote :: (t.value ++ quote :: rest)
  operation : t.operation ≠ .opUnset
  value : quote ∉ t.value

/-- The line has the keys `ts`, after which nothing can be read. -/
inductive ReadsAll : Str → List Token → Prop
  | stop {line} (h : ∀ t rest, ¬ Reads line t rest) : ReadsAll line []
  | next {line t rest ts} (h : Reads line t rest) (hs : ReadsAll rest ts) : ReadsAll line (t :: ts)

theorem key_eq_some_iff {s k rest : Str} :
    getKey.key s = some (k, rest) ↔ s = k ++ rest ∧ KeyEndsAt k rest := by
  induction s generalizing k with
  | nil =>
    simp only [getKey.key, reduceCtorEq, false_iff]
    rintro ⟨h, hk⟩
    obtain ⟨rfl, rfl⟩ := List.append_eq_nil_iff.1 h.symm
    exact absurd hk (by simp [KeyEndsAt, keyEnds])
  | cons c s ih =>
    rw [getKey.key]
    by_cases hc : keyEnds (c :: s)
    · rw [if_pos hc, Option.some.injEq, Prod.mk.injEq]
      constructor
      · rintro ⟨rfl, rfl⟩
        exact ⟨rfl, hc⟩
      · rintro ⟨h, hk⟩
        cases k with
        | nil => exact ⟨rfl, h⟩
        | cons d k =>
          obtain ⟨rfl, rfl⟩ := List.cons.inj h
          exact absurd hc hk.1
    · rw [if_neg hc]
      simp only [Option.map_eq_some_iff, Prod.mk.injEq, Prod.exists]
      constructor
      · rintro ⟨k', rest', hk', rfl, rfl⟩
        obtain ⟨rfl, hk⟩ := ih.1 hk'
        exact ⟨rfl, hc, hk⟩
      · rintro ⟨h, hk⟩
        cases k with
        | nil => rw [List.nil_append] at h; exact absurd (h ▸ hk) hc
        | cons d k =>
          obtain ⟨rfl, rfl⟩ := List.cons.inj h
          exact ⟨k, rest, ih.2 ⟨rfl, hk.2⟩, rfl, rfl⟩

theorem value_eq_some_iff {s v rest : Str} :
    getKey.value s = some (v, rest) ↔ s = quote :: (v ++ quote :: rest) ∧ quote ∉ v := by
  cases s with
  | nil => simp [getKey.value]
  | cons c s =>
    rw [getKey.value]
    constructor
    · intro h
      split_ifs at h with hc
      obtain ⟨rfl, hmem⟩ := hc
      obtain ⟨rfl, rfl⟩ := Prod.mk.inj (Option.some.inj h)
      obtain ⟨a, b, rfl, ha⟩ := List.eq_append_cons_of_mem hmem
      have hall : ∀ x ∈ a, decide (x ≠ quote) = true := fun x hx =>
        decide_eq_true fun heq => ha (heq ▸ hx)
      rw [List.takeWhile_append_of_pos hall, List.dropWhile_append_of_pos hall]
      simp [ha]
    · rintro ⟨h, hv⟩
      obtain ⟨rfl, rfl⟩ := List.cons.inj h
      have hall : ∀ x ∈ v, decide (x ≠ quote) = true := fun x hx =>
        decide_eq_true fun heq => hv (heq ▸ hx)
      rw [if_pos ⟨rfl, by simp⟩, List.takeWhile_append_of_pos hall, List.dropWhile_append_of_pos hall]
      simp

theorem operation_eq_some_iff {s rest : Str} {op : KeyOperation} :
    getKey.operation s = some (op, rest) ↔
      op ≠ .opUnset ∧ s = op.text ++ rest ∧ (op = .opAssign → rest.head? ≠ some 0x3d) := by
  constructor
  · intro h
    unfold getKey.operation at h
    split at h <;> simp only [Option.some.injEq, Prod.mk.injEq, reduceCtorEq] at h
    · obtain ⟨rfl, rfl⟩ := h; exact ⟨by simp, rfl, by simp⟩
    · obtain ⟨rfl, rfl⟩ := h; exact ⟨by simp, rfl, by simp⟩
    · obtain ⟨rfl, rfl⟩ := h; exact ⟨by simp, rfl, by simp⟩
    · next hne =>
      obtain ⟨rfl, rfl⟩ := h
      refine ⟨by simp, rfl, fun _ hhead => ?_⟩
      obtain ⟨s', rfl⟩ := List.head?_eq_some_iff.1 hhead
      exact hne s' rfl
    · obtain ⟨rfl, rfl⟩ := h; exact ⟨by simp, rfl, by simp⟩
  · rintro ⟨hop, rfl, hhead⟩
    cases op with
    | opUnset => exact absurd rfl hop
    | opAssign =>
      cases rest with
      | nil => rfl
      | cons c rest =>
        have hc : c ≠ 0x3d := fun hc => hhead rfl (by simp [hc])
        show getKey.operation (0x3d :: c :: rest) = _
        unfold getKey.operation
        split <;> simp_all [List.cons.injEq]
    | _ => rfl

/-- What white space is skipped before. -/
theorem dropWhile_eq {p : UInt8 → Bool} {l s : Str} (hl : ∀ c ∈ l, p c) (hs : ∀ c ∈ s.head?, ¬ p c) :
    (l ++ s).dropWhile p = s := by
  rw [List.dropWhile_append_of_pos hl]
  cases s with
  | nil => rfl
  | cons c s => exact List.dropWhile_cons_of_neg (hs c rfl)

theorem KeyOperation.head_text {op : KeyOperation} (h : op ≠ .opUnset) (s : Str) :
    ∀ c ∈ (op.text ++ s).head?, ¬ isSpace c := by
  cases op with
  | opUnset => exact absurd rfl h
  | _ => intro c hc; obtain rfl := Option.mem_some_iff.1 hc; decide

/-- `get_key` reads what the grammar says. -/
theorem getKey_eq_some_iff {line rest : Str} {t : Token} :
    getKey line = some (t, rest) ↔ Reads line t rest := by
  constructor
  · intro h
    rw [getKey] at h
    have hline : line.takeWhile isSep ++ line.dropWhile isSep = line := List.takeWhile_append_dropWhile
    split at h
    · exact absurd h (by simp)
    next c s hc =>
    rw [hc] at hline
    simp only [Option.bind_eq_some_iff, Option.map_eq_some_iff, Prod.mk.injEq, Prod.exists] at h
    obtain ⟨k, s1, hk, op, s2, hop, v, r, hv, rfl, rfl⟩ := h
    obtain ⟨rfl, hends⟩ := key_eq_some_iff.1 hk
    obtain ⟨hop, hs1, -⟩ := operation_eq_some_iff.1 hop
    obtain ⟨hs2, hv⟩ := value_eq_some_iff.1 hv
    have htext : s1 = s1.takeWhile isSpace ++ op.text ++ s2.takeWhile isSpace ++ quote :: (v ++ quote :: r) := by
      rw [← hs2, List.append_assoc, List.append_assoc, List.takeWhile_append_dropWhile, ← hs1,
        List.takeWhile_append_dropWhile]
    refine ⟨⟨line.takeWhile isSep, c, k, s1.takeWhile isSpace, s2.takeWhile isSpace, fun _ => List.mem_takeWhile_imp,
      fun hsep => ?_, rfl, fun _ => List.mem_takeWhile_imp, fun _ => List.mem_takeWhile_imp, ?_, ?_⟩, hop, hv⟩
    · have := List.head?_dropWhile_not isSep line
      rw [hc] at this
      simp [hsep] at this
    · rw [← htext]; exact hends
    · simp only [List.append_assoc] at htext ⊢
      rw [← htext]
      exact hline.symm
  · rintro ⟨⟨seps, c, key, spaces, spaces', hseps, hc, hkey, hspaces, hspaces', hends, rfl⟩, hop, hvalue⟩
    have hskip : (seps ++ t.key ++ spaces ++ t.operation.text ++ spaces' ++
        quote :: (t.value ++ quote :: rest)).dropWhile isSep =
        c :: (key ++ (spaces ++ t.operation.text ++ spaces' ++ quote :: (t.value ++ quote :: rest))) := by
      simp only [hkey, List.append_assoc]
      exact dropWhile_eq hseps fun d hd => by obtain rfl := Option.mem_some_iff.1 hd; exact hc
    rw [getKey, hskip]
    dsimp only
    rw [key_eq_some_iff.2 ⟨rfl, hends⟩, Option.bind_some]
    simp only [List.append_assoc]
    rw [dropWhile_eq hspaces (KeyOperation.head_text hop _), operation_eq_some_iff.2 ⟨hop, rfl, ?_⟩]
    · rw [Option.bind_some, dropWhile_eq hspaces' (by rintro d hd; obtain rfl := Option.mem_some_iff.1 hd; decide),
        value_eq_some_iff.2 ⟨rfl, hvalue⟩, Option.map_some, ← hkey]
    · rintro - hhead
      cases spaces' with
      | nil => exact absurd (Option.some.inj hhead) (by decide)
      | cons d _ =>
        have hd := hspaces' d List.mem_cons_self
        rw [Option.some.inj hhead] at hd
        exact absurd hd (by decide)

/-- What the text of a key takes of the line. -/
theorem Reads.length_le {line rest : Str} {t : Token} (h : Reads line t rest) :
    t.key.length + t.operation.text.length + t.value.length + 2 + rest.length ≤ line.length := by
  obtain ⟨⟨seps, c, key, spaces, spaces', -, -, -, -, -, -, rfl⟩, -, -⟩ := h
  simp only [List.length_append, List.length_cons]
  omega

theorem Reads.subset {line rest : Str} {t : Token} (h : Reads line t rest) :
    t.key ⊆ line ∧ t.value ⊆ line ∧ rest ⊆ line := by
  obtain ⟨⟨seps, c, key, spaces, spaces', -, -, -, -, -, -, rfl⟩, -, -⟩ := h
  refine ⟨fun x hx => ?_, fun x hx => ?_, fun x hx => ?_⟩ <;> simp [hx]

theorem getKeys.loop_iff {n : ℕ} {line : Str} (hn : line.length ≤ n) {ts : List Token} :
    loop n line = ts ↔ ReadsAll line ts := by
  have hstop : ∀ {line}, getKey line = none ↔ ∀ t rest, ¬ Reads line t rest := fun {line} => by
    simp only [← getKey_eq_some_iff, Option.eq_none_iff_forall_ne_some, Prod.forall]
  induction n generalizing line ts with
  | zero =>
    obtain rfl := List.eq_nil_of_length_eq_zero (Nat.le_zero.1 hn)
    have hnone : ∀ t rest, ¬ Reads [] t rest := hstop.1 rfl
    constructor
    · rintro rfl
      exact .stop hnone
    · rintro (_ | ⟨h, _⟩)
      · rfl
      · exact absurd h (hnone _ _)
  | succ n ih =>
    rw [loop]
    cases hkey : getKey line with
    | none =>
      constructor
      · rintro rfl
        exact .stop (hstop.1 hkey)
      · rintro (_ | ⟨h, _⟩)
        · rfl
        · exact absurd h (hstop.1 hkey _ _)
    | some r =>
      obtain ⟨t, rest⟩ := r
      have hreads := getKey_eq_some_iff.1 hkey
      have hlen := hreads.length_le
      constructor
      · rintro rfl
        exact .next hreads ((ih (by omega)).1 rfl)
      · rintro (h | ⟨h, hs⟩)
        · exact absurd hreads (h _ _)
        · obtain ⟨rfl, rfl⟩ := Prod.mk.inj (Option.some.inj (hkey.symm.trans (getKey_eq_some_iff.2 h)))
          exact congrArg (t :: ·) ((ih (by omega)).2 hs)

/-- **The keys of a line** are those that the grammar reads, one after the other, until it reads none. -/
theorem getKeys_iff {line : Str} {ts : List Token} : getKeys line = ts ↔ ReadsAll line ts :=
  getKeys.loop_iff le_rfl

end Udev
