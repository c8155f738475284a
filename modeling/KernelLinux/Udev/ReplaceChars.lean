/-
  udev — replace_chars.

  Names that come from programs and rules are cleaned: what is neither in the
  whitelist nor a letter, a digit, a hex-escape or valid UTF-8 becomes '_'.  The
  result is `Clean`, and clean strings are left alone (`replaceChars_spec`); so
  the database can store it on a line (`Clean.oneLine`).
-/
import KernelLinux.Udev.Db

namespace Udev

/-- ALLOWED_CHARS -/
def allowedChars : Str := ascii "#+-.:=@_"

/-- ALLOWED_CHARS_FILE -/
def allowedCharsFile : Str := allowedChars ++ ascii "/"

/-- ALLOWED_CHARS_INPUT -/
def allowedCharsInput : Str := allowedCharsFile ++ ascii " $%?,"

/-! ## UTF-8 -/

/-- `utf8_encoded_expected_len`, of the first byte -/
def utf8EncodedExpectedLen (c : UInt8) : ℕ :=
  if c < 0x80 then 1
  else if c &&& 0xe0 = 0xc0 then 2
  else if c &&& 0xf0 = 0xe0 then 3
  else if c &&& 0xf8 = 0xf0 then 4
  else if c &&& 0xfc = 0xf8 then 5
  else if c &&& 0xfe = 0xfc then 6
  else 0

/-- The loop of `utf8_encoded_to_unichar` from `i` on, with `n` rounds left -/
def utf8EncodedToUnichar.loop (s : Str) : ℕ → ℕ → ℤ → ℤ
  | 0, _, unichar => unichar
  | n + 1, i, unichar =>
    if s.getD i 0 &&& 0xc0 ≠ 0x80 then -1
    else utf8EncodedToUnichar.loop s n (i + 1) (unichar * 64 + (s.getD i 0 &&& 0x3f).toNat)

/-- `utf8_encoded_to_unichar`, for more than one byte -/
def utf8EncodedToUnichar (s : Str) : ℤ :=
  let len := utf8EncodedExpectedLen (s.getD 0 0)
  let mask : UInt8 := match len with
    | 2 => 0x1f
    | 3 => 0x0f
    | 4 => 0x07
    | 5 => 0x03
    | _ => 0x01
  utf8EncodedToUnichar.loop s (len - 1) 1 (s.getD 0 0 &&& mask).toNat

def utf8UnicharToEncodedLen (unichar : ℤ) : ℕ :=
  if unichar < 0x80 then 1
  else if unichar < 0x800 then 2
  else if unichar < 0x10000 then 3
  else if unichar < 0x200000 then 4
  else if unichar < 0x4000000 then 5
  else 6

/-- `utf8_unichar_valid_range`; the value is not negative. -/
def utf8UnicharValidRange (unichar : ℤ) : Bool :=
  if 0x10ffff < unichar then false
  else if unichar / 0x800 = 0xd800 / 0x800 then false
  else if 0xfdcf < unichar ∧ unichar < 0xfdf0 then false
  else if unichar % 0x10000 = 0xffff then false
  else true

/-- `utf8_encoded_valid_unichar` -/
def utf8EncodedValidUnichar (s : Str) : ℤ :=
  let len := utf8EncodedExpectedLen (s.getD 0 0)
  if len = 0 then -1
  -- ascii is valid
  else if len = 1 then 1
  -- check if expected encoded chars are available
  else if ¬ ∀ i < len, s.getD i 0 &&& 0x80 = 0x80 then -1
  -- check if encoded length matches encoded value
  else if utf8UnicharToEncodedLen (utf8EncodedToUnichar s) ≠ len then -1
  -- check if value has valid range
  else if utf8UnicharValidRange (utf8EncodedToUnichar s) = false then -1
  else len

/-! ## replace_chars -/

/-- "plain ascii char" -/
def isPlain (c : UInt8) : Bool := (0x30 ≤ c ∧ c ≤ 0x39) ∨ (0x41 ≤ c ∧ c ≤ 0x5a) ∨ (0x61 ≤ c ∧ c ≤ 0x7a)

/-- The loop of `replace_chars` on what is left of the string, with at most `n` rounds: what it
    becomes, and the characters that are replaced -/
def replaceChars.loop (white : Str) : ℕ → Str → Str × ℕ
  | 0, s => (s, 0)
  | _ + 1, [] => ([], 0)
  | n + 1, c :: s =>
    -- accept whitelist
    if c ∈ white then
      let (t, replaced) := replaceChars.loop white n s
      (c :: t, replaced)
    -- accept plain ascii char
    else if isPlain c then
      let (t, replaced) := replaceChars.loop white n s
      (c :: t, replaced)
    -- accept hex encoding
    else if c = backslash ∧ s.head? = some 0x78 then
      let (t, replaced) := replaceChars.loop white n s.tail
      (c :: 0x78 :: t, replaced)
    -- accept valid utf8
    else if 1 < utf8EncodedValidUnichar (c :: s) then
      let len := (utf8EncodedValidUnichar (c :: s)).toNat
      let (t, replaced) := replaceChars.loop white n ((c :: s).drop len)
      ((c :: s).take len ++ t, replaced)
    -- if space is allowed, replace whitespace with ordinary space
    else if isSpace c ∧ 0x20 ∈ white then
      let (t, replaced) := replaceChars.loop white n s
      (0x20 :: t, replaced + 1)
    -- everything else is replaced with '_'
    else
      let (t, replaced) := replaceChars.loop white n s
      (0x5f :: t, replaced + 1)

/-- `replace_chars(str, white)` -/
def replaceChars (str white : Str) : Str × ℕ := replaceChars.loop white str.length str

/-! ## What is valid -/

theorem utf8EncodedToUnichar.loop_congr {s t : Str} {n i : ℕ} (h : ∀ j, i ≤ j → j < i + n → s.getD j 0 = t.getD j 0)
    (u : ℤ) : loop s n i u = loop t n i u := by
  induction n generalizing i u with
  | zero => rfl
  | succ n ih =>
    rw [loop, loop, h i le_rfl (by omega)]
    split_ifs
    · rfl
    · exact ih (fun j hij hj => h j (by omega) (by omega)) _

/-- Only the bytes of the character matter. -/
theorem utf8EncodedValidUnichar_congr {s t : Str}
    (h : ∀ j, j < max 1 (utf8EncodedExpectedLen (s.getD 0 0)) → s.getD j 0 = t.getD j 0) :
    utf8EncodedValidUnichar s = utf8EncodedValidUnichar t := by
  have h0 : s.getD 0 0 = t.getD 0 0 := h 0 (by omega)
  have hto : utf8EncodedToUnichar s = utf8EncodedToUnichar t := by
    simp only [utf8EncodedToUnichar, ← h0]
    exact utf8EncodedToUnichar.loop_congr (fun j hj hlt => h j (by omega)) _
  have hall : (∀ i < utf8EncodedExpectedLen (s.getD 0 0), s.getD i 0 &&& 0x80 = 0x80) ↔
      ∀ i < utf8EncodedExpectedLen (s.getD 0 0), t.getD i 0 &&& 0x80 = 0x80 :=
    forall₂_congr fun i hi => by rw [h i (by omega)]
  simp only [utf8EncodedValidUnichar, hto, hall, ← h0]

/-- A character of several bytes: it is whole, and none of its bytes is ASCII. -/
theorem utf8EncodedValidUnichar_spec {s : Str} (h : 1 < utf8EncodedValidUnichar s) :
    utf8EncodedValidUnichar s = utf8EncodedExpectedLen (s.getD 0 0) ∧
      (∀ i < utf8EncodedExpectedLen (s.getD 0 0), s.getD i 0 &&& 0x80 = 0x80) ∧
      utf8EncodedExpectedLen (s.getD 0 0) ≤ s.length := by
  simp only [utf8EncodedValidUnichar] at h ⊢
  split_ifs at h ⊢ with h0 h1 hall hlen hrange
  case neg =>
    refine ⟨rfl, hall, ?_⟩
    -- a byte after the end is no part of a character
    by_contra hlt
    have := hall s.length (by omega)
    rw [List.getD_eq_getElem?_getD, List.getElem?_eq_none le_rfl] at this
    exact absurd this (by decide)
  all_goals exact absurd h (by decide)

theorem high_of_and {c : UInt8} (h : c &&& 0x80 = 0x80) : ¬ c < 0x80 := by
  intro hlt
  have hbit := congrArg (fun c => c.toNat.testBit 7) h
  simp only [UInt8.toNat_and, Nat.testBit_and] at hbit
  rw [Nat.testBit_lt_two_pow (show c.toNat < 2 ^ 7 from UInt8.lt_iff_toNat_lt.1 hlt)] at hbit
  exact absurd hbit (by decide)

theorem getD_take {s : Str} {n i : ℕ} (h : i < n) : (s.take n).getD i 0 = s.getD i 0 := by
  simp [List.getD_eq_getElem?_getD, List.getElem?_take_of_lt h]

theorem getD_append {s t : Str} {i : ℕ} (h : i < s.length) : (s ++ t).getD i 0 = s.getD i 0 := by
  simp [List.getD_eq_getElem?_getD, List.getElem?_append_left h]

/-- What `replace_chars` leaves alone. -/
inductive Clean (white : Str) : Str → Prop
  | nil : Clean white []
  | white {c : UInt8} {s : Str} : c ∈ white → Clean white s → Clean white (c :: s)
  | plain {c : UInt8} {s : Str} : isPlain c → Clean white s → Clean white (c :: s)
  | hex {s : Str} : Clean white s → Clean white (backslash :: 0x78 :: s)
  | utf8 {t s : Str} : 1 < t.length → utf8EncodedValidUnichar t = t.length → Clean white s →
      Clean white (t ++ s)

/-- A whitelist of ASCII characters that does not let a backslash or a control character through. -/
structure Whitelist (white : Str) : Prop where
  underscore : 0x5f ∈ white
  ascii : ∀ c ∈ white, 0x20 ≤ c ∧ c < 0x80 ∧ c ≠ backslash

theorem Whitelist.of_all {white : Str}
    (h : white.all fun c => decide (0x20 ≤ c ∧ c < 0x80 ∧ c ≠ backslash)) (hu : 0x5f ∈ white) :
    Whitelist white :=
  ⟨hu, fun c hc => of_decide_eq_true (List.all_eq_true.1 h c hc)⟩

theorem whitelist_file : Whitelist allowedCharsFile := .of_all rfl (by decide)

theorem whitelist_symlink : Whitelist (allowedCharsFile ++ Udev.ascii " ") := .of_all rfl (by decide)

theorem whitelist_input : Whitelist allowedCharsInput := .of_all rfl (by decide)

section
variable {white : Str} (hwhite : Whitelist white)
include hwhite

theorem replaceChars.loop_clean {n : ℕ} {s : Str} (hn : s.length ≤ n) :
    Clean white (loop white n s).1 ∧ (loop white n s).1.length = s.length := by
  induction n using Nat.strong_induction_on generalizing s with
  | _ n ih =>
    cases s with
    | nil => cases n <;> exact ⟨.nil, rfl⟩
    | cons c s =>
      obtain ⟨n, rfl⟩ := Nat.exists_eq_succ_of_ne_zero (Nat.ne_zero_of_lt hn)
      rw [loop]
      have hs := @ih n (Nat.lt_succ_self n) s (by simpa using hn)
      split_ifs with h1 h2 h3 h4 h5
      · exact ⟨.white h1 hs.1, congrArg Nat.succ hs.2⟩
      · exact ⟨.plain h2 hs.1, congrArg Nat.succ hs.2⟩
      · obtain ⟨rfl, hx⟩ := h3
        obtain ⟨t, rfl⟩ := List.head?_eq_some_iff.1 hx
        have ht := @ih n (Nat.lt_succ_self n) t (by simp at hn; omega)
        exact ⟨.hex ht.1, by simpa using ht.2⟩
      · obtain ⟨heq, hall, hle⟩ := utf8EncodedValidUnichar_spec h4
        obtain ⟨m, hm⟩ : ∃ m, utf8EncodedExpectedLen ((c :: s).getD 0 0) = m := ⟨_, rfl⟩
        rw [hm] at heq hle
        rw [heq] at h4
        have hm1 : 1 < m := by exact_mod_cast h4
        have htake : ((c :: s).take m).length = m := List.length_take_of_le hle
        have hvalid : utf8EncodedValidUnichar ((c :: s).take m) = ((c :: s).take m).length := by
          rw [htake, ← heq]
          exact (utf8EncodedValidUnichar_congr fun j hj => (getD_take (by omega)).symm).symm
        have hdrop := @ih n (Nat.lt_succ_self n) ((c :: s).drop m) (by
          rw [List.length_drop]; omega)
        simp only [heq, Int.toNat_natCast]
        exact ⟨.utf8 (by omega) hvalid hdrop.1, by
          rw [List.length_append, hdrop.2, htake, List.length_drop]; omega⟩
      · exact ⟨.white h5.2 hs.1, congrArg Nat.succ hs.2⟩
      · exact ⟨.white hwhite.underscore hs.1, congrArg Nat.succ hs.2⟩

omit hwhite in
theorem utf8_high {t : Str} (hlen : 1 < t.length) (hvalid : utf8EncodedValidUnichar t = t.length) :
    ∀ c ∈ t, ¬ c < 0x80 := by
  intro c hc
  obtain ⟨heq, hall, -⟩ := utf8EncodedValidUnichar_spec (s := t) (by rw [hvalid]; exact_mod_cast hlen)
  obtain ⟨i, hi, rfl⟩ := List.getElem_of_mem hc
  have := hall i (by rw [hvalid] at heq; omega)
  rw [List.getD_eq_getElem?_getD, List.getElem?_eq_getElem hi] at this
  exact high_of_and this

/-- The first byte of a character of several bytes. -/
theorem utf8_head {c : UInt8} {t : Str} (hlen : 1 < (c :: t).length)
    (hvalid : utf8EncodedValidUnichar (c :: t) = (c :: t).length) :
    c ∉ white ∧ isPlain c = false ∧ c ≠ backslash := by
  have hhigh := utf8_high hlen hvalid c List.mem_cons_self
  refine ⟨fun hmem => hhigh (hwhite.ascii c hmem).2.1, ?_, ?_⟩
  · rw [isPlain, decide_eq_false_iff_not]
    rw [UInt8.not_lt] at hhigh
    rintro (⟨-, h⟩ | ⟨-, h⟩ | ⟨-, h⟩) <;> exact absurd (UInt8.le_trans hhigh h) (by decide)
  · rintro rfl
    exact hhigh (by decide)

theorem replaceChars.loop_of_clean {s : Str} (h : Clean white s) {n : ℕ} (hn : s.length ≤ n) :
    loop white n s = (s, 0) := by
  induction h generalizing n with
  | nil => cases n <;> rfl
  | @white c s hc _ ih =>
    obtain ⟨n, rfl⟩ := Nat.exists_eq_succ_of_ne_zero (Nat.ne_zero_of_lt hn)
    rw [loop, if_pos hc, ih (by simpa using hn)]
  | @plain c s hc _ ih =>
    obtain ⟨n, rfl⟩ := Nat.exists_eq_succ_of_ne_zero (Nat.ne_zero_of_lt hn)
    rw [loop, if_pos hc, ih (by simpa using hn)]
    split_ifs <;> rfl
  | @hex s _ ih =>
    obtain ⟨n, rfl⟩ := Nat.exists_eq_succ_of_ne_zero (Nat.ne_zero_of_lt hn)
    rw [loop, if_neg fun hmem => (hwhite.ascii _ hmem).2.2 rfl, if_neg (by decide), if_pos ⟨rfl, rfl⟩,
      List.tail_cons, ih (by simp at hn; omega)]
  | @utf8 t s hlen hvalid _ ih =>
    cases t with
    | nil => exact absurd hlen (by decide)
    | cons c t =>
      obtain ⟨n, rfl⟩ := Nat.exists_eq_succ_of_ne_zero (Nat.ne_zero_of_lt hn)
      obtain ⟨h1, h2, h3⟩ := utf8_head hwhite hlen hvalid
      -- the rest of the string does not matter
      have hsame : utf8EncodedValidUnichar (c :: (t ++ s)) = (c :: t).length := by
        rw [← hvalid]
        obtain ⟨-, -, hle⟩ := utf8EncodedValidUnichar_spec (s := c :: t) (by rw [hvalid]; exact_mod_cast hlen)
        exact (utf8EncodedValidUnichar_congr fun j hj => (getD_append (s := c :: t) (t := s) (by omega)).symm).symm
      rw [List.cons_append, loop, if_neg h1, if_neg (by simp [h2]), if_neg fun h => h3 h.1,
        if_pos (by rw [hsame]; exact_mod_cast hlen)]
      simp only [hsame, Int.toNat_natCast]
      rw [← List.cons_append, List.drop_left, List.take_left, ih (by simp at hn; omega)]

theorem Clean.bytes {s : Str} (h : Clean white s) : ∀ c ∈ s, 0x20 ≤ c := by
  induction h with
  | nil => simp
  | white hc _ ih => exact List.forall_mem_cons.2 ⟨(hwhite.ascii _ hc).1, ih⟩
  | @plain c s hc _ ih =>
    refine List.forall_mem_cons.2 ⟨?_, ih⟩
    rw [isPlain, decide_eq_true_eq] at hc
    rcases hc with ⟨h, -⟩ | ⟨h, -⟩ | ⟨h, -⟩ <;> exact UInt8.le_trans (by decide) h
  | hex _ ih => exact List.forall_mem_cons.2 ⟨by decide, List.forall_mem_cons.2 ⟨by decide, ih⟩⟩
  | @utf8 t s hlen hvalid _ ih =>
    intro c hc
    rcases List.mem_append.1 hc with hc | hc
    · exact UInt8.le_trans (by decide) (UInt8.not_lt.1 (utf8_high hlen hvalid c hc))
    · exact ih c hc

/-- A clean string ends neither a line nor with a backslash. -/
theorem Clean.oneLine {s : Str} (h : Clean white s) : OneLine false s := by
  have hcons : ∀ {c : UInt8} {s : Str}, c ≠ newline → c ≠ backslash → OneLine false s → OneLine false (c :: s) :=
    fun h1 h2 h => ⟨fun h => h1 h.2, by rwa [decide_eq_false h2]⟩
  induction h with
  | nil => rfl
  | white hc _ ih =>
    obtain ⟨h1, -, h2⟩ := hwhite.ascii _ hc
    exact hcons (fun h => absurd h1 (by rw [h]; decide)) h2 ih
  | @plain c s hc _ ih =>
    refine hcons ?_ ?_ ih <;> rintro rfl <;> exact absurd hc (by decide)
  | hex _ ih => exact ⟨by decide, by decide, ih⟩
  | @utf8 t s hlen hvalid _ ih =>
    have hhigh := utf8_high hlen hvalid
    clear hlen hvalid
    induction t with
    | nil => exact ih
    | cons c t iht =>
      have hc := hhigh c List.mem_cons_self
      exact hcons (fun h => hc (by rw [h]; decide)) (fun h => hc (by rw [h]; decide))
        (iht fun c hc => hhigh c (List.mem_cons_of_mem _ hc))

omit hwhite in
theorem replaceChars.loop_of_zero {n : ℕ} {s : Str} (h : (loop white n s).2 = 0) : (loop white n s).1 = s := by
  induction n using Nat.strong_induction_on generalizing s with
  | _ n ih =>
    cases n with
    | zero => rfl
    | succ n =>
      cases s with
      | nil => rfl
      | cons c s =>
        rw [loop] at h ⊢
        split_ifs at h ⊢ with h1 h2 h3 h4 h5
        · exact congrArg _ (ih n (Nat.lt_succ_self n) h)
        · exact congrArg _ (ih n (Nat.lt_succ_self n) h)
        · obtain ⟨rfl, hx⟩ := h3
          obtain ⟨t, rfl⟩ := List.head?_eq_some_iff.1 hx
          exact congrArg (fun t => backslash :: 0x78 :: t) (ih n (Nat.lt_succ_self n) h)
        · exact (congrArg _ (ih n (Nat.lt_succ_self n) h)).trans (List.take_append_drop _ _)

end

end Udev
