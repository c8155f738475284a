/-
  udev — path_encode and path_decode.

  The names of queue files, of database files and of index entries are devpaths
  in which '/' and '\' are escaped.  `path_decode` works in place and undoes
  `path_encode` (`pathDecode_escape`).  `path_encode` writes past its own buffer
  or leaves the string without its NUL for some paths that do fit in the caller's
  buffer (`pathEncode_eq_none_iff`, `pathEncode_terminated_iff`).
-/
import KernelLinux.Udev.Devpath

namespace Udev

/-- '\\' -/
def backslash : UInt8 := 0x5c

/-- "\\x2f" -/
def escapedSlash : Str := [0x5c, 0x78, 0x32, 0x66]

/-- "\\x5c" -/
def escapedBackslash : Str := [0x5c, 0x78, 0x35, 0x63]

/-! ## path_encode -/

/-- What a round of the loop of `path_encode` writes for `c`. -/
def escapeChar (c : UInt8) : Str :=
  if c = slash then escapedSlash else if c = backslash then escapedBackslash else [c]

/-- What the loop of `path_encode` writes to `t`. -/
def escape (s : Str) : Str := s.flatMap escapeChar

/-- `path_encode(s, len)`: the returned length and the `len` bytes that `s` then has.  It is `none`
    if `t`, of `len * 3 + 1` bytes, is too short for the escaped string and its NUL. -/
def pathEncode (s : Str) (len : ℕ) : Option (ℕ × List UInt8) :=
  let t := escape s
  if t.length + 1 ≤ len * 3 + 1 then
    -- strncpy: filled up with NULs, or cut off
    some (t.length, (t ++ List.replicate (len - t.length) 0).take len)
  else none

/-- The C string in a buffer, if it is terminated. -/
def cString (buf : List UInt8) : Option Str := if 0 ∈ buf then some (buf.takeWhile (· ≠ 0)) else none

theorem cString_append {s : Str} (hs : 0 ∉ s) (rest : List UInt8) : cString (s ++ 0 :: rest) = some s := by
  rw [cString, if_pos (by simp), List.takeWhile_append_of_pos (by
    intro c hc
    simpa using ne_of_mem_of_not_mem hc hs)]
  simp

@[simp] theorem escape_nil : escape [] = [] := rfl

@[simp] theorem escape_cons (c : UInt8) (s : Str) : escape (c :: s) = escapeChar c ++ escape s := rfl

theorem zero_notMem_escape {s : Str} (h : 0 ∉ s) : 0 ∉ escape s := by
  rw [escape, List.mem_flatMap]
  rintro ⟨c, hc, h0⟩
  rw [escapeChar] at h0
  split_ifs at h0 with h1 h2
  · revert h0; decide
  · revert h0; decide
  · rw [List.mem_singleton] at h0
    exact h (h0 ▸ hc)

/-- An escaped path is the name of one file. -/
theorem slash_notMem_escape (s : Str) : slash ∉ escape s := by
  rw [escape, List.mem_flatMap]
  rintro ⟨c, -, hc⟩
  rw [escapeChar] at hc
  split_ifs at hc with h1 h2
  · revert hc; decide
  · revert hc; decide
  · exact h1 (List.mem_singleton.1 hc).symm

/-- The characters that `path_encode` escapes. -/
def escaped (s : Str) : ℕ := s.countP fun c => c = slash ∨ c = backslash

theorem escapeChar_length (c : UInt8) :
    (escapeChar c).length = if c = slash ∨ c = backslash then 4 else 1 := by
  rw [escapeChar]
  split_ifs <;> simp_all [escapedSlash, escapedBackslash]

theorem escape_length (s : Str) : (escape s).length = s.length + 3 * escaped s := by
  induction s with
  | nil => rfl
  | cons c s ih =>
    rw [escape_cons, List.length_append, ih, escaped, escaped, List.countP_cons, List.length_cons,
      escapeChar_length]
    simp only [decide_eq_true_eq]
    split_ifs <;> omega

theorem pathEncode_eq_none_iff (s : Str) (len : ℕ) :
    pathEncode s len = none ↔ 3 * len < s.length + 3 * escaped s := by
  simp only [pathEncode, escape_length]
  split_ifs with h
  · simp only [false_iff]; omega
  · simp only [true_iff]; omega

/-- What a terminated result says: the string is whole. -/
theorem pathEncode_terminated_iff {s : Str} (hs : 0 ∉ s) {len j : ℕ} {buf : List UInt8}
    (h : pathEncode s len = some (j, buf)) :
    cString buf = some (escape s) ↔ s.length + 3 * escaped s < len := by
  have h0 := zero_notMem_escape hs
  rw [← escape_length]
  simp only [pathEncode] at h
  split_ifs at h
  obtain ⟨-, rfl⟩ := Prod.mk.inj (Option.some.inj h)
  by_cases hlen : (escape s).length < len
  · obtain ⟨k, hk⟩ : ∃ k, len - (escape s).length = k + 1 := ⟨len - (escape s).length - 1, by omega⟩
    rw [List.take_of_length_le (by simp; omega), hk, List.replicate_succ]
    exact iff_of_true (cString_append h0 _) hlen
  · simp only [hlen, iff_false]
    rw [List.take_append_of_le_length (by omega), cString,
      if_neg fun h => h0 (List.mem_of_mem_take h)]
    simp

/-! ## path_decode -/

/-- The loop of `path_decode` on the buffer `buf`, which is decoded up to `i` and in which the result
    ends before `j`.  `n` bounds the number of rounds. -/
def pathDecode.loop : ℕ → List UInt8 → ℕ → ℕ → List UInt8 × ℕ
  | 0, buf, _, j => (buf, j)
  | n + 1, buf, i, j =>
    if buf.getD i 0 = 0 then (buf.set j 0, j)
    else if (buf.drop i).take 4 = escapedSlash then
      pathDecode.loop n (buf.set j slash) (i + 4) (j + 1)
    else if (buf.drop i).take 4 = escapedBackslash then
      pathDecode.loop n (buf.set j backslash) (i + 4) (j + 1)
    else pathDecode.loop n (buf.set j (buf.getD i 0)) (i + 1) (j + 1)

/-- `path_decode`: the buffer and the returned length. -/
def pathDecode (buf : List UInt8) : List UInt8 × ℕ := pathDecode.loop (buf.length + 1) buf 0 0

/-- A byte of the result is written no later than it is read. -/
theorem drop_set {buf : List UInt8} {i j k : ℕ} (h : j < i + k) (c : UInt8) :
    (buf.set j c).drop (i + k) = (buf.drop i).drop k := by
  rw [List.drop_set_of_lt h, List.drop_drop]

theorem take_set {buf : List UInt8} {j : ℕ} (h : j < buf.length) (c : UInt8) :
    (buf.set j c).take (j + 1) = buf.take j ++ [c] := by
  rw [List.take_add_one, List.take_set_of_le le_rfl, List.getElem?_set_self h]
  rfl

theorem lt_length_of_drop {buf t : List UInt8} {i : ℕ} {c : UInt8} (h : buf.drop i = c :: t) :
    i < buf.length ∧ buf.getD i 0 = c := by
  have hi : i < buf.length := by
    by_contra hi
    rw [List.drop_eq_nil_of_le (by omega)] at h
    exact absurd h (by simp)
  rw [List.drop_eq_getElem_cons hi] at h
  exact ⟨hi, by rw [List.getD_eq_getElem?_getD, List.getElem?_eq_getElem hi, Option.getD_some,
    (List.cons.inj h).1]⟩

/-- The loop goes through an escaped character in one round. -/
theorem pathDecode.loop_escapeChar {n i j : ℕ} {buf t : List UInt8} {c : UInt8} (hc : c ≠ 0)
    (h : buf.drop i = escapeChar c ++ t) :
    loop (n + 1) buf i j = loop n (buf.set j c) (i + (escapeChar c).length) (j + 1) := by
  rw [loop]
  by_cases h1 : c = slash
  · subst h1
    obtain ⟨-, hget⟩ := lt_length_of_drop h
    rw [if_neg (hget ▸ by decide), if_pos (by rw [h]; rfl)]
    rfl
  · by_cases h2 : c = backslash
    · subst h2
      obtain ⟨-, hget⟩ := lt_length_of_drop h
      rw [if_neg (hget ▸ by decide), if_neg (by rw [h]; rintro ⟨⟩), if_pos (by rw [h]; rfl)]
      rfl
    · rw [escapeChar, if_neg h1, if_neg h2] at h ⊢
      obtain ⟨-, hget⟩ := lt_length_of_drop h
      have hne : ∀ u : Str, u.head? = some backslash → (buf.drop i).take 4 ≠ u := fun u hu h' => by
        rw [← h', h] at hu
        exact h2 (Option.some.inj hu)
      rw [hget, if_neg hc, if_neg (hne _ rfl), if_neg (hne _ rfl)]
      rfl

theorem pathDecode.loop_escape {s : Str} (hs : 0 ∉ s) {n i j : ℕ} {buf rest : List UInt8}
    (hn : s.length < n) (hj : j ≤ i) (h : buf.drop i = escape s ++ 0 :: rest) :
    (loop n buf i j).2 = j + s.length ∧
      (loop n buf i j).1.take (j + s.length + 1) = buf.take j ++ s ++ [0] := by
  induction s generalizing n i j buf with
  | nil =>
    obtain ⟨n, rfl⟩ := Nat.exists_eq_succ_of_ne_zero (Nat.ne_zero_of_lt hn)
    obtain ⟨hi, hget⟩ := lt_length_of_drop h
    rw [loop, if_pos hget]
    exact ⟨rfl, by simpa using take_set (by omega) 0⟩
  | cons c s ih =>
    simp only [List.mem_cons, not_or] at hs
    obtain ⟨n, rfl⟩ := Nat.exists_eq_succ_of_ne_zero (Nat.ne_zero_of_lt hn)
    rw [escape_cons, List.append_assoc] at h
    have hlen : 0 < (escapeChar c).length := by rw [escapeChar_length]; split_ifs <;> omega
    have hi : i < buf.length := by
      by_contra hi
      rw [List.drop_eq_nil_of_le (by omega)] at h
      exact absurd h.symm (by simp)
    rw [loop_escapeChar (Ne.symm hs.1) h]
    obtain ⟨h1, h2⟩ := @ih hs.2 n (i + (escapeChar c).length) (j + 1) (buf.set j c)
      (by simpa using hn) (by omega) (by rw [drop_set (by omega), h, List.drop_left])
    rw [take_set (by omega)] at h2
    exact ⟨by rw [h1, List.length_cons]; omega, by simpa [Nat.add_assoc, Nat.add_comm 1] using h2⟩

theorem cString_of_take {s : Str} (hs : 0 ∉ s) {buf : List UInt8}
    (h : buf.take (s.length + 1) = s ++ [0]) : cString buf = some s := by
  obtain ⟨t, rfl⟩ : ∃ t, buf = s ++ [0] ++ t := ⟨_, h ▸ (List.take_append_drop _ _).symm⟩
  rw [List.append_assoc]
  exact cString_append hs t

/-- `path_decode` undoes `path_encode`, whatever follows the string in the buffer. -/
theorem pathDecode_escape {s : Str} (hs : 0 ∉ s) (rest : List UInt8) :
    cString (pathDecode (escape s ++ 0 :: rest)).1 = some s ∧
      (pathDecode (escape s ++ 0 :: rest)).2 = s.length := by
  have hlen : s.length < (escape s ++ 0 :: rest).length + 1 := by
    rw [List.length_append, escape_length]; omega
  obtain ⟨h1, h2⟩ := @pathDecode.loop_escape s hs _ 0 0 (escape s ++ 0 :: rest) rest hlen le_rfl rfl
  simp only [Nat.zero_add, List.take_zero, List.nil_append] at h1 h2
  exact ⟨cString_of_take hs h2, h1⟩

theorem escape_inj {s t : Str} (hs : 0 ∉ s) (ht : 0 ∉ t) (h : escape s = escape t) : s = t := by
  have h1 := (pathDecode_escape hs []).1
  rw [h, (pathDecode_escape ht []).1] at h1
  exact (Option.some.inj h1).symm

/-- What becomes of a path in a buffer of `len` bytes: `t` overflows, or the string loses its NUL, or
    `path_decode` gets it back. -/
theorem pathEncode_pathDecode {s : Str} (hs : 0 ∉ s) (len : ℕ) :
    (pathEncode s len = none ↔ 3 * len < s.length + 3 * escaped s) ∧
      ∀ j buf, pathEncode s len = some (j, buf) →
        buf.length = len ∧ j = s.length + 3 * escaped s ∧
          (cString buf = none ↔ len ≤ j) ∧
          (j < len → cString buf = some (escape s) ∧ slash ∉ escape s ∧
            cString (pathDecode buf).1 = some s ∧ (pathDecode buf).2 = s.length) := by
  refine ⟨pathEncode_eq_none_iff s len, fun j buf h => ?_⟩
  have hterm := pathEncode_terminated_iff hs h
  simp only [pathEncode] at h
  split_ifs at h
  obtain ⟨rfl, rfl⟩ := Prod.mk.inj (Option.some.inj h)
  rw [← escape_length] at hterm ⊢
  refine ⟨by simp; omega, rfl, ?_, fun hlt => ⟨hterm.2 hlt, slash_notMem_escape s, ?_⟩⟩
  · constructor
    · intro hnone
      by_contra hlt
      rw [hterm.2 (by omega)] at hnone
      exact Option.some_ne_none _ hnone
    · intro hle
      rw [List.take_append_of_le_length hle, cString,
        if_neg fun h => zero_notMem_escape hs (List.mem_of_mem_take h)]
  · obtain ⟨k, hk⟩ : ∃ k, len - (escape s).length = k + 1 := ⟨len - (escape s).length - 1, by omega⟩
    rw [List.take_of_length_le (by simp; omega), hk, List.replicate_succ]
    exact pathDecode_escape hs _

/-- "a/b" in eight bytes. -/
theorem pathEncode_pathDecode_eight :
    pathEncode [0x61, 0x2f, 0x62] 8 = some (6, [0x61, 0x5c, 0x78, 0x32, 0x66, 0x62, 0, 0]) ∧
      cString (pathDecode [0x61, 0x5c, 0x78, 0x32, 0x66, 0x62, 0, 0]).1 = some [0x61, 0x2f, 0x62] :=
  ⟨by decide, (((pathEncode_pathDecode (by decide) 8).2 6 _ (by decide)).2.2.2 (by decide)).2.2.1⟩

end Udev
