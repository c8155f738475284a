/-
  SimpleLinuxRamDisk — the hex dump of `rd_transfer`.

  Before it copies, `rd_transfer` prints the first `DEBUG_BLOCK_SIZE` bytes of the transfer buffer to
  the array `buf`, three characters apart.  `snprintf` is given the size of the whole array whatever is
  left of it, and `"%02X "` the byte as the `int` that a `char` is promoted to: a byte from 128 on is
  printed with eight digits.

  * `dump`: the loop, with the offsets from `buf` on that it stores to;
  * `dump_read`: the three characters of each byte that are left in the end;
  * `dump_read_iff`: the string is the dump meant if and only if no byte is 128 or more;
  * `dump_decode`: the bytes that are read off the string;
  * `dump_overruns`: there is always a byte stored behind `buf`.
-/
import KernelLinux.Lib.Bytes
import Mathlib.Data.Nat.Digits.Defs

namespace Ramdisk

open Bytes

def DEBUG_BLOCK_SIZE : ℕ := 300
def ARR_SIZE : ℕ := DEBUG_BLOCK_SIZE * 3

/-! ## Printing -/

/-- A digit of `%X`. -/
def hexDigit (d : ℕ) : UInt8 := UInt8.ofNat (if d < 10 then 48 + d else 55 + d)

/-- `%02X` of an `unsigned int` -/
def fmt02X (v : ℕ) : List UInt8 :=
  let digits := (Nat.digits 16 v).reverse.map hexDigit
  List.replicate (2 - digits.length) 48 ++ digits

/-- A signed `char` as the `unsigned int` that `%X` takes it for. -/
def promoted (c : UInt8) : ℕ := (c.toBitVec.signExtend 32).toNat

/-- What `snprintf(dst, size, "%02X ", c)` stores from `dst` on. -/
def snprintf02X (size : ℕ) (c : UInt8) : List UInt8 :=
  if size = 0 then [] else (fmt02X (promoted c) ++ [32]).take (size - 1) ++ [0]

/-- The memory from `buf` on, and the offsets that were stored to. -/
structure Dump where
  mem : Block
  stored : List ℕ

/-- The loop of the dump at byte `i`, with `n` counts left. -/
def dumpLoop (buffer : Block) : ℕ → ℕ → Dump → Dump
  | 0, _, d => d
  | n + 1, i, d =>
    let out := snprintf02X ARR_SIZE (buffer i)
    dumpLoop buffer n (i + 1)
      ⟨d.mem.write (i * 3) out, d.stored ++ (List.range out.length).map fun k => i * 3 + k⟩

/-- The dump of the transfer buffer, to the memory at `buf`. -/
def dump (buffer mem : Block) : Dump := dumpLoop buffer DEBUG_BLOCK_SIZE 0 ⟨mem, []⟩

/-! ## The dump that is meant -/

/-- The two digits of a byte, and a space. -/
def hexByte (c : UInt8) : List UInt8 := [hexDigit (c.toNat / 16), hexDigit (c.toNat % 16), 32]

/-- The dump of a list of bytes. -/
def hexText (cs : List UInt8) : List UInt8 := cs.flatMap hexByte

/-- The value of a digit. -/
def digitValue (d : UInt8) : ℕ := if d.toNat < 65 then d.toNat - 48 else d.toNat - 55

/-- The bytes of a dump. -/
def decode : List UInt8 → List UInt8
  | a :: b :: _ :: rest => UInt8.ofNat (digitValue a * 16 + digitValue b) :: decode rest
  | _ => []

/-- The loop stores nothing behind `buf`, and leaves there the dump as a string, from which the bytes
    can be read off. -/
structure DumpsExactly (buffer mem : Block) : Prop where
  inside : ∀ o ∈ (dump buffer mem).stored, o < ARR_SIZE
  string : (dump buffer mem).mem.read 0 (ARR_SIZE + 1) =
    hexText (buffer.read 0 DEBUG_BLOCK_SIZE) ++ [0]
  decodes : decode ((dump buffer mem).mem.read 0 ARR_SIZE) = buffer.read 0 DEBUG_BLOCK_SIZE

theorem digitValue_hexDigit {d : ℕ} (h : d < 16) : digitValue (hexDigit d) = d := by
  unfold digitValue hexDigit
  rw [UInt8.toNat_ofNat']
  split_ifs <;> omega

/-! ## What is printed -/

theorem promoted_eq (c : UInt8) : promoted c = c.toNat + if 128 ≤ c then 2 ^ 32 - 2 ^ 8 else 0 := by
  have hc : c.toNat < 256 := c.toNat_lt
  rw [promoted, BitVec.toNat_signExtend, BitVec.toNat_setWidth, BitVec.msb_eq_decide]
  simp only [UInt8.toNat_toBitVec, UInt8.le_iff_toNat_le, decide_eq_true_eq]
  rw [Nat.mod_eq_of_lt (by omega)]
  rfl

theorem fmt02X_low {v : ℕ} (h : v < 256) : fmt02X v = [hexDigit (v / 16), hexDigit (v % 16)] := by
  unfold fmt02X
  rcases Nat.eq_zero_or_pos v with rfl | hpos
  · rfl
  rw [Nat.digits_def' (by norm_num) hpos]
  rcases Nat.eq_zero_or_pos (v / 16) with hlow | hhigh
  · rw [hlow, Nat.digits_zero]
    rfl
  · have hmod : v / 16 % 16 = v / 16 := Nat.mod_eq_of_lt (by omega)
    rw [Nat.digits_def' (by norm_num) hhigh, Nat.div_eq_of_lt (a := v / 16) (by omega),
      Nat.digits_zero, hmod]
    rfl

theorem fmt02X_high {v : ℕ} (h : v < 256) : fmt02X (v + (2 ^ 32 - 2 ^ 8)) =
    List.replicate 6 70 ++ [hexDigit (v / 16), hexDigit (v % 16)] := by
  have hdigits : Nat.digits 16 (v + (2 ^ 32 - 2 ^ 8)) = [v % 16, v / 16, 15, 15, 15, 15, 15, 15] := by
    have hrest : (v + (2 ^ 32 - 2 ^ 8)) / 16 / 16 = 16777215 := by omega
    have hfirst : (v + (2 ^ 32 - 2 ^ 8)) % 16 = v % 16 := by omega
    have hsecond : (v + (2 ^ 32 - 2 ^ 8)) / 16 % 16 = v / 16 := by omega
    rw [Nat.digits_def' (by norm_num) (by omega), Nat.digits_def' (by norm_num) (by omega), hfirst,
      hsecond, hrest]
    norm_num
  unfold fmt02X
  rw [hdigits]
  rfl

/-- A byte below 128 is printed as it is meant to be. -/
theorem snprintf_low {c : UInt8} (h : c < 128) : snprintf02X ARR_SIZE c = hexByte c ++ [0] := by
  rw [snprintf02X, promoted_eq, if_neg (UInt8.not_le.2 h), Nat.add_zero, fmt02X_low c.toNat_lt]
  rfl

/-- Six digits `F` come before any other. -/
theorem snprintf_high {c : UInt8} (h : 128 ≤ c) :
    snprintf02X ARR_SIZE c = List.replicate 6 70 ++ hexByte c ++ [0] := by
  rw [snprintf02X, promoted_eq, if_pos h, fmt02X_high c.toNat_lt]
  rfl

theorem snprintf_length (c : UInt8) : (snprintf02X ARR_SIZE c).length = if c < 128 then 4 else 10 := by
  split_ifs with h
  · rw [snprintf_low h]
    rfl
  · rw [snprintf_high (UInt8.not_lt.1 h)]
    rfl

/-! ## The loop -/

section
variable {buffer mem : Block} {n i o : ℕ} {d : Dump}

theorem mem_stored : o ∈ (dumpLoop buffer n i d).stored ↔ o ∈ d.stored ∨ ∃ j, i ≤ j ∧ j < i + n ∧
    j * 3 ≤ o ∧ o < j * 3 + (snprintf02X ARR_SIZE (buffer j)).length := by
  induction n generalizing i d with
  | zero =>
    rw [dumpLoop]
    refine (or_iff_left ?_).symm
    rintro ⟨j, hij, hjn, -⟩
    omega
  | succ n ih =>
    rw [dumpLoop, ih]
    dsimp only
    rw [List.mem_append, or_assoc]
    refine or_congr_right ?_
    simp only [List.mem_map, List.mem_range]
    constructor
    · rintro (⟨k, hk, rfl⟩ | ⟨j, hij, hjn, hj⟩)
      · exact ⟨i, le_rfl, by omega, by omega, by omega⟩
      · exact ⟨j, by omega, by omega, hj⟩
    · rintro ⟨j, hij, hjn, hle, hlt⟩
      rcases Nat.eq_or_lt_of_le hij with rfl | hlt'
      · exact Or.inl ⟨o - i * 3, by omega, by omega⟩
      · exact Or.inr ⟨j, hlt', by omega, hle, hlt⟩

/-- What was printed before stays. -/
theorem dumpLoop_before (h : o < i * 3) : (dumpLoop buffer n i d).mem o = d.mem o := by
  induction n generalizing i d with
  | zero => rfl
  | succ n ih =>
    rw [dumpLoop, ih (by omega)]
    exact Block.write_before h

theorem dumpLoop_read {j : ℕ} (hij : i ≤ j) (hjn : j < i + n) :
    (dumpLoop buffer n i d).mem.read (j * 3) 3 = (snprintf02X ARR_SIZE (buffer j)).take 3 := by
  induction n generalizing i d with
  | zero => omega
  | succ n ih =>
    rw [dumpLoop]
    rcases Nat.eq_or_lt_of_le hij with rfl | hlt
    · have hlen : 3 ≤ (snprintf02X ARR_SIZE (buffer i)).length := by
        rw [snprintf_length]
        split_ifs <;> omega
      rw [Block.read_congr fun k hk => dumpLoop_before (by omega)]
      have hread := congrArg (List.take 3)
        (Block.read_write d.mem (i * 3) (snprintf02X ARR_SIZE (buffer i)))
      rwa [Block.take_read, Nat.min_eq_left hlen] at hread
    · exact ih hlt (by omega)

end

/-! ## The string that is left -/

section
variable (buffer mem : Block)

/-- **What is left of each byte**: the first three characters that were printed. -/
theorem dump_read : (dump buffer mem).mem.read 0 ARR_SIZE =
    (buffer.read 0 DEBUG_BLOCK_SIZE).flatMap fun c => (snprintf02X ARR_SIZE c).take 3 := by
  have hpart : ∀ n ≤ DEBUG_BLOCK_SIZE, (dump buffer mem).mem.read 0 (n * 3) =
      (buffer.read 0 n).flatMap fun c => (snprintf02X ARR_SIZE c).take 3 := by
    intro n hn
    induction n with
    | zero => rfl
    | succ n ih =>
      rw [Nat.succ_mul, Block.read_add, Block.read_add, ih (by omega), List.flatMap_append,
        Nat.zero_add, Nat.zero_add, dump, dumpLoop_read (Nat.zero_le n) (by omega)]
      simp [Block.read]
  exact hpart DEBUG_BLOCK_SIZE le_rfl

/-- The characters of a byte are the ones meant if and only if it is below 128. -/
theorem take_snprintf {c : UInt8} : (snprintf02X ARR_SIZE c).take 3 = hexByte c ↔ c < 128 := by
  constructor
  · intro h
    by_contra hc
    rw [snprintf_high (UInt8.not_lt.1 hc)] at h
    -- the third character would be a digit
    have hspace := congrArg (·[2]?) h
    exact absurd hspace (by simp [hexByte])
  · intro h
    rw [snprintf_low h]
    rfl

theorem decode_hexByte (c : UInt8) (rest : List UInt8) :
    decode (hexByte c ++ rest) = c :: decode rest := by
  have hc : c.toNat < 256 := c.toNat_lt
  show UInt8.ofNat (digitValue (hexDigit (c.toNat / 16)) * 16 + digitValue (hexDigit (c.toNat % 16))) ::
    decode rest = _
  rw [digitValue_hexDigit (by omega), digitValue_hexDigit (by omega), Nat.div_add_mod',
    UInt8.ofNat_toNat]

/-- **What is read off the dump**: a byte from 128 on is read as `FF`. -/
theorem dump_decode : decode ((dump buffer mem).mem.read 0 ARR_SIZE) =
    (buffer.read 0 DEBUG_BLOCK_SIZE).map fun c => if c < 128 then c else 255 := by
  rw [dump_read]
  induction buffer.read 0 DEBUG_BLOCK_SIZE with
  | nil => rfl
  | cons c cs ih =>
    rw [List.flatMap_cons, List.map_cons, ← ih]
    split_ifs with hc
    · rw [take_snprintf.2 hc, decode_hexByte]
    · rw [snprintf_high (UInt8.not_lt.1 hc)]
      rfl

/-- The byte behind `buf` is stored. -/
theorem end_stored : ARR_SIZE ∈ (dump buffer mem).stored := by
  refine mem_stored.2 (Or.inr ⟨DEBUG_BLOCK_SIZE - 1, Nat.zero_le _, by decide, by decide, ?_⟩)
  rw [snprintf_length]
  split_ifs <;> decide

/-- **How far the dump reaches behind `buf`**: by the NUL of the last byte, or by the digits that a
    last or last but one byte from 128 on has more. -/
theorem stored_iff {o : ℕ} : o ∈ (dump buffer mem).stored ↔
    o < ARR_SIZE + if 128 ≤ buffer (DEBUG_BLOCK_SIZE - 1) then 7
      else if 128 ≤ buffer (DEBUG_BLOCK_SIZE - 2) then 4 else 1 := by
  have hlen : ∀ j, (snprintf02X ARR_SIZE (buffer j)).length = if 128 ≤ buffer j then 10 else 4 := by
    intro j
    rw [snprintf_length]
    split_ifs with hlow hhigh hhigh
    · exact absurd hlow (UInt8.not_lt.2 hhigh)
    · rfl
    · rfl
    · exact absurd (UInt8.not_lt.1 hlow) hhigh
  rw [dump, mem_stored]
  simp only [List.not_mem_nil, false_or, hlen]
  show (∃ j, 0 ≤ j ∧ j < 0 + 300 ∧ j * 3 ≤ o ∧ _) ↔
    o < 900 + if 128 ≤ buffer 299 then 7 else if 128 ≤ buffer 298 then 4 else 1
  constructor
  · rintro ⟨j, -, hj, hle, hlt⟩
    rcases (by omega : j = 299 ∨ j = 298 ∨ j < 298) with rfl | rfl | hj'
    · split_ifs at hlt ⊢ <;> omega
    · split_ifs at hlt ⊢ <;> omega
    · split_ifs at hlt ⊢ <;> omega
  · intro h
    by_cases ho : o < 900
    · refine ⟨o / 3, Nat.zero_le _, by omega, by omega, ?_⟩
      split_ifs <;> omega
    · split_ifs at h with hlast hnext
      · refine ⟨299, by omega, by omega, by omega, ?_⟩
        rw [if_pos hlast]
        omega
      · refine ⟨298, by omega, by omega, by omega, ?_⟩
        rw [if_pos hnext]
        omega
      · refine ⟨299, by omega, by omega, by omega, ?_⟩
        rw [if_neg hlast]
        omega

/-- **When the string is the dump that is meant**: if and only if all bytes are below 128. -/
theorem dump_read_iff :
    (dump buffer mem).mem.read 0 ARR_SIZE = hexText (buffer.read 0 DEBUG_BLOCK_SIZE) ↔
      ∀ c ∈ buffer.read 0 DEBUG_BLOCK_SIZE, c < 128 := by
  rw [dump_read, hexText]
  generalize buffer.read 0 DEBUG_BLOCK_SIZE = cs
  induction cs with
  | nil => simp
  | cons c cs ih =>
    have hlen : ((snprintf02X ARR_SIZE c).take 3).length = (hexByte c).length := by
      rw [List.length_take, snprintf_length]
      split_ifs <;> rfl
    rw [List.flatMap_cons, List.flatMap_cons, List.forall_mem_cons, ← ih, ← take_snprintf]
    constructor
    · exact fun h => List.append_inj h hlen
    · rintro ⟨hhead, htail⟩
      rw [hhead, htail]

/-- **The dump never keeps to `buf`.** -/
theorem dump_overruns : ¬ DumpsExactly buffer mem := fun h =>
  (h.inside ARR_SIZE (end_stored buffer mem)).false

end

/-- A buffer of zeros. -/
theorem zeros_overrun : ¬ DumpsExactly (fun _ => 0) fun _ => 0 := fun h =>
  (h.inside ARR_SIZE (end_stored _ _)).false

end Ramdisk
