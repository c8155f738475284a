/-
  simplefs — what a create changes of the parent's data block.

  `simplefs_create_fs_object` copies the name with `strcpy` into `filename`, which has 25 bytes,
  of a record of 40.  A name that runs over the padding meets the record's own number,
  then the records behind, then whatever is behind the block.

  * `Filled`: the bytes after name and number were stored, in either order;
  * `sets_iff`: one record has the name and the number and no other byte has changed exactly
    if the bytes of the name behind the padding are there already;
  * `createRecord_iff`: the same of the call, with any lock attempts interrupted.
-/
import KernelLinux.Simplefs.Interrupt

namespace Simplefs

open Bytes Prog

/-! ## Names and numbers byte by byte -/

/-- The bytes of the C string, NUL behind its end. -/
def Name.at (x : Name) (t : ℕ) : UInt8 := x.bytes.getD t 0

theorem Name.at_end (x : Name) : x.at x.bytes.length = 0 := by simp [Name.at]

theorem Name.at_ne (x : Name) {t : ℕ} (h : t < x.bytes.length) : x.at t ≠ 0 := by
  intro h0
  rw [Name.at, List.getD_eq_getElem _ _ h] at h0
  exact x.noNul (h0 ▸ List.getElem_mem h)

theorem Name.getElem?_cString (x : Name) {t : ℕ} (h : t ≤ x.bytes.length) :
    (x.bytes ++ [(0 : UInt8)])[t]? = some (x.at t) := by
  rcases Nat.lt_or_eq_of_le h with hlt | rfl
  · rw [List.getElem?_append_left hlt, Name.at, List.getD_eq_getElem _ _ hlt,
      List.getElem?_eq_getElem hlt]
  · rw [x.at_end]
    simp

/-- The bytes of a number of 64 bits. -/
def numberAt (n t : ℕ) : UInt8 := (leBytes 8 n).getD t 0

theorem getElem?_leBytes (n : ℕ) {t : ℕ} (h : t < 8) : (leBytes 8 n)[t]? = some (numberAt n t) := by
  rw [numberAt, List.getD_eq_getElem _ _ (by simpa using h), List.getElem?_eq_getElem]

section
variable {b : Block} {i n a : ℕ} {x : Name}

theorem recIs_iff : recIs b i x = true ↔ ∀ t ≤ x.bytes.length, b (recName i + t) = x.at t := by
  rw [recIs, Block.streq_iff, List.ext_getElem?_iff]
  constructor
  · intro h t ht
    have := h t
    rw [Block.getElem?_read, if_pos (Nat.lt_succ_of_le ht), x.getElem?_cString ht] at this
    exact Option.some.inj this
  · intro h t
    rw [Block.getElem?_read]
    split_ifs with ht
    · rw [x.getElem?_cString (Nat.le_of_lt_succ ht), h t (Nat.le_of_lt_succ ht)]
    · rw [List.getElem?_eq_none (by simp only [List.length_append, List.length_singleton]; omega)]

theorem recIno_iff (hn : n < 2 ^ 64) :
    recIno b i = n ↔ ∀ t < 8, b (recInoOff i + t) = numberAt n t := by
  have hread : recIno b i = n ↔ b.read (recInoOff i) 8 = leBytes 8 n := by
    constructor
    · rintro rfl
      have := leBytes_leNat (b.read (recInoOff i) 8)
      rw [Block.length_read] at this
      exact this.symm
    · intro h
      rw [recIno, Block.getLE, h, leNat_leBytes, Nat.mod_eq_of_lt (by simpa using hn)]
  rw [hread, List.ext_getElem?_iff]
  constructor
  · intro h t ht
    have := h t
    rw [Block.getElem?_read, if_pos ht, getElem?_leBytes n ht] at this
    exact Option.some.inj this
  · intro h t
    rw [Block.getElem?_read]
    split_ifs with ht
    · rw [getElem?_leBytes n ht, h t ht]
    · rw [List.getElem?_eq_none (by simp only [length_leBytes]; omega)]

theorem strcpy_apply : b.strcpy (recName i) x.bytes a =
    if recName i ≤ a ∧ a ≤ recName i + x.bytes.length then x.at (a - recName i) else b a := by
  rw [Block.strcpy, Block.write]
  split_ifs with hlt hin hin
  · omega
  · rfl
  · rw [x.getElem?_cString (by omega), Option.getD_some]
  · rw [List.getElem?_eq_none (by simp only [List.length_append, List.length_singleton]; omega)]
    rfl

theorem putIno_apply : b.putLE 8 (recInoOff i) n a =
    if recInoOff i ≤ a ∧ a < recInoOff i + 8 then numberAt n (a - recInoOff i) else b a := by
  rw [Block.putLE, Block.write]
  split_ifs with hlt hin hin
  · omega
  · rfl
  · rw [getElem?_leBytes n (by omega), Option.getD_some]
  · rw [List.getElem?_eq_none (by simp only [length_leBytes]; omega)]
    rfl

end

/-! ## One record of a block -/

/-- The whole records of a block. -/
def RECORDS_PER_BLOCK : ℕ := SIMPLEFS_DEFAULT_BLOCK_SIZE / recSize

/-- Record `i` holds the name and the number. -/
def HoldsRecord (b : Block) (i : ℕ) (x : Name) (n : ℕ) : Prop := recIs b i x = true ∧ recIno b i = n

/-- Only bytes of record `i` have changed, which holds the name and the number. -/
structure Sets (b b' : Block) (i : ℕ) (x : Name) (n : ℕ) : Prop where
  outside : ∀ a, a < recName i ∨ recName i + recSize ≤ a → b' a = b a
  holds : HoldsRecord b' i x n

/-- That record lies in the block. -/
def OneRecord (b b' : Block) (x : Name) (n : ℕ) : Prop := ∃ i < RECORDS_PER_BLOCK, Sets b b' i x n

/-- Every other record keeps its number, its name and whatever string inside it it is equal to. -/
theorem Sets.others {b b' : Block} {i j n : ℕ} {x : Name} (h : Sets b b' i x n) (hj : j ≠ i) :
    recIno b' j = recIno b j ∧
    b'.read (recName j) SIMPLEFS_FILENAME_MAXLEN = b.read (recName j) SIMPLEFS_FILENAME_MAXLEN ∧
    ∀ y : Name, y.bytes.length < recSize → recIs b' j y = recIs b j y := by
  have hbyte : ∀ t < recSize, b' (recName j + t) = b (recName j + t) := by
    intro t ht
    refine h.outside _ ?_
    simp only [recName, recSize] at ht ⊢
    omega
  refine ⟨congrArg leNat (Block.read_congr fun t ht => ?_),
    Block.read_congr fun t ht => hbyte t (ht.trans (by decide)), fun y hy => ?_⟩
  · have := hbyte (32 + t) (by simp only [recSize]; omega)
    rwa [← Nat.add_assoc] at this
  · exact Block.streq_congr fun t ht => hbyte t (by omega)

/-- The bytes of the block after the name and the number `n` were stored in record `r`. -/
structure Filled (b b' : Block) (r : ℕ) (x : Name) (n : ℕ) : Prop where
  before : ∀ a, a < recName r → b' a = b a
  behind : ∀ a, recName r + recSize ≤ a → recName r + x.bytes.length < a → b' a = b a
  name : ∀ t ≤ x.bytes.length, t < 32 ∨ recSize ≤ t → b' (recName r + t) = x.at t
  ino : ∀ t < 8, x.bytes.length < 32 + t → b' (recInoOff r + t) = numberAt n t
  /-- where name and number meet, one of them is there -/
  both : ∀ t < 8, 32 + t ≤ x.bytes.length →
    b' (recInoOff r + t) = x.at (32 + t) ∨ b' (recInoOff r + t) = numberAt n t
  gap : ∀ t, x.bytes.length < t → t < 32 → b' (recName r + t) = b (recName r + t)

section
variable {b b' : Block} {r i n a : ℕ} {x : Name}

theorem reuse_apply : reuseRecord b r x n a =
    if recInoOff r ≤ a ∧ a < recInoOff r + 8 then numberAt n (a - recInoOff r)
    else if recName r ≤ a ∧ a ≤ recName r + x.bytes.length then x.at (a - recName r) else b a := by
  rw [reuseRecord, putIno_apply, strcpy_apply]

theorem append_apply : appendRecord b r x n a =
    if recName r ≤ a ∧ a ≤ recName r + x.bytes.length then x.at (a - recName r)
    else if recInoOff r ≤ a ∧ a < recInoOff r + 8 then numberAt n (a - recInoOff r) else b a := by
  rw [appendRecord, strcpy_apply, putIno_apply]

theorem reuse_filled : Filled b (reuseRecord b r x n) r x n := by
  have hoff : recInoOff r = recName r + 32 := rfl
  have hsize : recSize = 40 := rfl
  refine ⟨fun a ha => ?_, fun a ha hlen => ?_, fun t ht hpart => ?_, fun t ht hlen => ?_,
    fun t ht hlen => ?_, fun t hlen ht => ?_⟩ <;> rw [reuse_apply]
  · rw [if_neg (by omega), if_neg (by omega)]
  · rw [if_neg (by omega), if_neg (by omega)]
  · rw [if_neg (by omega), if_pos (by omega), Nat.add_sub_cancel_left]
  · rw [if_pos (by omega), Nat.add_sub_cancel_left]
  · right
    rw [if_pos (by omega), Nat.add_sub_cancel_left]
  · rw [if_neg (by omega), if_neg (by omega)]

theorem append_filled : Filled b (appendRecord b r x n) r x n := by
  have hoff : recInoOff r = recName r + 32 := rfl
  have hsize : recSize = 40 := rfl
  refine ⟨fun a ha => ?_, fun a ha hlen => ?_, fun t ht hpart => ?_, fun t ht hlen => ?_,
    fun t ht hlen => ?_, fun t hlen ht => ?_⟩ <;> rw [append_apply]
  · rw [if_neg (by omega), if_neg (by omega)]
  · rw [if_neg (by omega), if_neg (by omega)]
  · rw [if_pos (by omega), Nat.add_sub_cancel_left]
  · rw [if_neg (by omega), if_pos (by omega), Nat.add_sub_cancel_left]
  · left
    rw [if_pos (by omega), hoff, Nat.add_assoc, Nat.add_sub_cancel_left]
  · rw [if_neg (by omega), if_neg (by omega)]

/-- Record `r` has the bytes of the name and the number already; where name and number meet, those
    of the name if it is the one that is stored `last`. -/
structure Stored (b : Block) (r : ℕ) (x : Name) (n : ℕ) (last : Bool) : Prop where
  name : ∀ t ≤ x.bytes.length, t < 32 ∨ recSize ≤ t ∨ last = true → b (recName r + t) = x.at t
  ino : ∀ t < 8, x.bytes.length < 32 + t ∨ last = false → b (recInoOff r + t) = numberAt n t

/-- Storing number and name in the order of the reused record changes nothing. -/
theorem reuse_eq_iff : reuseRecord b r x n = b ↔ Stored b r x n false := by
  have hoff : recInoOff r = recName r + 32 := rfl
  have hsize : recSize = 40 := rfl
  constructor
  · intro h
    refine ⟨fun t ht hpart => ?_, fun t ht _ => ?_⟩
    · simp only [Bool.false_eq_true, or_false] at hpart
      rw [← h, reuse_apply, if_neg (by omega), if_pos (by omega), Nat.add_sub_cancel_left]
    · rw [← h, reuse_apply, if_pos (by omega), Nat.add_sub_cancel_left]
  · intro h
    funext a
    rw [reuse_apply]
    split_ifs with hino hname
    · rw [← h.ino _ (by omega) (Or.inr rfl), Nat.add_sub_cancel' hino.1]
    · rw [← h.name _ (by omega) (by omega), Nat.add_sub_cancel' hname.1]
    · rfl

/-- The same of the appended one. -/
theorem append_eq_iff : appendRecord b r x n = b ↔ Stored b r x n true := by
  have hoff : recInoOff r = recName r + 32 := rfl
  have hsize : recSize = 40 := rfl
  constructor
  · intro h
    refine ⟨fun t ht _ => ?_, fun t ht hpart => ?_⟩
    · rw [← h, append_apply, if_pos (by omega), Nat.add_sub_cancel_left]
    · simp only [Bool.true_eq_false, or_false] at hpart
      rw [← h, append_apply, if_neg (by omega), if_pos (by omega), Nat.add_sub_cancel_left]
  · intro h
    funext a
    rw [append_apply]
    split_ifs with hname hino
    · rw [← h.name _ (by omega) (Or.inr (Or.inr rfl)), Nat.add_sub_cancel' hname.1]
    · rw [← h.ino _ (by omega) (by omega), Nat.add_sub_cancel' hino.1]
    · rfl

/-- The name and the number agree where the name runs over the number. -/
def Meets (x : Name) (n : ℕ) : Prop :=
  ∀ t < 8, 32 + t ≤ x.bytes.length → x.at (32 + t) = numberAt n t

/-- The bytes of the name behind the padding, with its NUL, are those that the block has there once
    the number is stored. -/
def Fits (b : Block) (r : ℕ) (x : Name) (n : ℕ) : Prop :=
  ∀ t, 32 ≤ t → t ≤ x.bytes.length → x.at t = b.putLE 8 (recInoOff r) n (recName r + t)

theorem fits_iff : Fits b r x n ↔
    Meets x n ∧ ∀ t, recSize ≤ t → t ≤ x.bytes.length → x.at t = b (recName r + t) := by
  have hoff : recInoOff r = recName r + 32 := rfl
  have hsize : recSize = 40 := rfl
  constructor
  · intro h
    refine ⟨fun t ht hlen => ?_, fun t ht hlen => ?_⟩
    · rw [h (32 + t) (by omega) hlen, putIno_apply, if_pos (by omega), hoff, ← Nat.add_assoc,
        Nat.add_sub_cancel_left]
    · rw [h t (by omega) hlen, putIno_apply, if_neg (by omega)]
  · rintro ⟨hmeets, htail⟩ t ht hlen
    rw [putIno_apply]
    split_ifs with hin
    · obtain ⟨u, rfl⟩ := Nat.exists_eq_add_of_le ht
      rw [hmeets u (by omega) hlen, hoff, ← Nat.add_assoc, Nat.add_sub_cancel_left]
    · exact htail t (by omega) hlen

variable (hn : n < 2 ^ 64)
include hn

theorem HoldsRecord.meets (h : HoldsRecord b i x n) : Meets x n := by
  obtain ⟨hname, hino⟩ := h
  rw [recIs_iff] at hname
  rw [recIno_iff hn] at hino
  intro t ht hlen
  rw [← hname (32 + t) hlen, ← hino t ht, ← Nat.add_assoc]
  rfl

/-- Where they agree, the record holds both. -/
theorem Filled.holds (F : Filled b b' r x n) (hmeets : Meets x n) : HoldsRecord b' r x n := by
  have hsize : recSize = 40 := rfl
  have hboth : ∀ t < 8, 32 + t ≤ x.bytes.length →
      b' (recInoOff r + t) = x.at (32 + t) ∧ b' (recInoOff r + t) = numberAt n t := by
    intro t ht hlen
    rw [hmeets t ht hlen, and_self]
    rcases F.both t ht hlen with h | h
    · rw [h, hmeets t ht hlen]
    · exact h
  refine ⟨recIs_iff.2 fun t ht => ?_, (recIno_iff hn).2 fun t ht => ?_⟩
  · by_cases hpart : t < 32 ∨ recSize ≤ t
    · exact F.name t ht hpart
    · obtain ⟨u, rfl⟩ := Nat.exists_eq_add_of_le (show 32 ≤ t by omega)
      rw [← Nat.add_assoc]
      exact (hboth u (by omega) ht).1
  · rcases Nat.lt_or_ge x.bytes.length (32 + t) with hlen | hlen
    · exact F.ino t ht hlen
    · exact (hboth t ht hlen).2

/-- The record that was filled. -/
theorem Filled.sets_iff (F : Filled b b' r x n) : Sets b b' r x n ↔ Fits b r x n := by
  have hsize : recSize = 40 := rfl
  rw [fits_iff]
  constructor
  · intro h
    refine ⟨h.holds.meets hn, fun t ht hlen => ?_⟩
    rw [← F.name t hlen (Or.inr ht), h.outside _ (Or.inr (by omega))]
  · rintro ⟨hmeets, htail⟩
    refine ⟨fun a ha => ?_, F.holds hn hmeets⟩
    rcases ha with ha | ha
    · exact F.before a ha
    · rcases Nat.lt_or_ge (recName r + x.bytes.length) a with hlen | hlen
      · exact F.behind a ha hlen
      · obtain ⟨t, rfl⟩ := Nat.exists_eq_add_of_le (show recName r ≤ a by omega)
        rw [F.name t (by omega) (Or.inr (by omega)), htail t (by omega) (by omega)]

/-- Nothing changes where the name and the number are there already. -/
theorem HoldsRecord.filled_eq (h : HoldsRecord b r x n) (F : Filled b b' r x n) : b' = b := by
  have hsize : recSize = 40 := rfl
  obtain ⟨hname', hino'⟩ := F.holds hn (h.meets hn)
  obtain ⟨hname, hino⟩ := h
  rw [recIs_iff] at hname hname'
  rw [recIno_iff hn] at hino hino'
  funext a
  rcases Nat.lt_or_ge a (recName r) with ha | ha
  · exact F.before a ha
  obtain ⟨t, rfl⟩ := Nat.exists_eq_add_of_le ha
  rcases Nat.lt_or_ge x.bytes.length t with hlen | hlen
  · rcases Nat.lt_or_ge t 32 with h32 | h32
    · exact F.gap t hlen h32
    · rcases Nat.lt_or_ge t recSize with h40 | h40
      · obtain ⟨u, rfl⟩ := Nat.exists_eq_add_of_le h32
        rw [← Nat.add_assoc]
        exact (hino' u (by omega)).trans (hino u (by omega)).symm
      · exact F.behind _ (by omega) (by omega)
  · rw [hname' t hlen, hname t hlen]

theorem HoldsRecord.fits (h : HoldsRecord b r x n) : Fits b r x n := by
  refine fits_iff.2 ⟨h.meets hn, fun t _ hlen => ?_⟩
  exact (recIs_iff.1 h.1 t hlen).symm

/-- If another record than the one that was filled is the one that has changed, nothing has: the
    name, which ends with a NUL, cannot be found in its own bytes behind the first. -/
theorem Filled.sets_other (F : Filled b b' r x n) (hi : i ≠ r) (h : Sets b b' i x n) :
    b' = b ∧ HoldsRecord b r x n ∧ HoldsRecord b i x n := by
  have hsize : recSize = 40 := rfl
  have hname := recIs_iff.1 h.holds.1
  -- record `i` is not reached by the name
  have hfar : i < r ∨ recName r + x.bytes.length < recName i := by
    by_contra hnear
    have hlt : recName r + recSize ≤ recName i := by
      simp only [recName, recSize]
      omega
    have hpos : 0 < x.bytes.length := List.length_pos_iff.2 x.ne_nil
    obtain ⟨m, hm⟩ := Nat.exists_eq_add_of_le (show recName i ≤ recName r + x.bytes.length by omega)
    have hend := F.name x.bytes.length le_rfl (Or.inr (by omega))
    rw [x.at_end, hm, hname m (by omega)] at hend
    exact x.at_ne (by omega) hend
  have heq : b' = b := by
    funext a
    by_cases ha : a < recName i ∨ recName i + recSize ≤ a
    · exact h.outside a ha
    · rcases hfar with hfar | hfar
      · refine F.before a ?_
        simp only [recName, recSize] at ha ⊢
        omega
      · refine F.behind a ?_ (by omega)
        simp only [recName, recSize] at ha hfar ⊢
        omega
  have hr := F.holds hn (h.holds.meets hn)
  have hi' := h.holds
  rw [heq] at hr hi'
  exact ⟨heq, hr, hi'⟩

/-- The name and the number go into record `r` of the block, and nothing else changes; or they are
    both there already, and in a record of the block. -/
def RecordFits (b : Block) (r : ℕ) (x : Name) (n : ℕ) : Prop :=
  r < RECORDS_PER_BLOCK ∧ Fits b r x n ∨
    HoldsRecord b r x n ∧ ∃ i < RECORDS_PER_BLOCK, HoldsRecord b i x n

/-- **When one record has changed.** -/
theorem Filled.oneRecord_iff (F : Filled b b' r x n) : OneRecord b b' x n ↔ RecordFits b r x n := by
  constructor
  · rintro ⟨i, hi, h⟩
    by_cases hir : i = r
    · subst hir
      exact Or.inl ⟨hi, (F.sets_iff hn).1 h⟩
    · obtain ⟨-, hr, hi'⟩ := F.sets_other hn hir h
      exact Or.inr ⟨hr, i, hi, hi'⟩
  · rintro (⟨hr, hfits⟩ | ⟨hr, i, hi, hold⟩)
    · exact ⟨r, hr, (F.sets_iff hn).2 hfits⟩
    · rw [hr.filled_eq hn F]
      exact ⟨i, hi, fun _ _ => rfl, hold⟩

end

/-! ## The call -/

/-- The number that create gives the new inode. -/
def newNumber (s : Fs) : ℕ :=
  match firstDead s.toImage with
  | some k => (s.store k).deadInodeNo
  | none => s.sb.inodesCount + SIMPLEFS_START_INO - SIMPLEFS_RESERVED_INODES + 1

/-- The data block of the directory whose inode is at `dir`. -/
def dirBlock (s s' : Fs) (dir : ℕ) : Block := s'.data (s.sfs dir).dataBlockNumber

/-- The tombstone that create fills, if it does not append a record. -/
def reusable (s : Fs) (dir : ℕ) : Option ℕ :=
  match firstDead s.toImage with
  | some _ => firstTombstone (dirBlock s s dir) (s.sfs dir).dirChildrenCount
  | none => none

/-- The record that create fills. -/
def recordOf (s : Fs) (dir : ℕ) : ℕ := (reusable s dir).getD (s.sfs dir).dirChildrenCount

/-- The parent's block with that record filled. -/
def filledBlock (s : Fs) (dir : ℕ) (x : Name) : Block :=
  match reusable s dir with
  | some i => reuseRecord (dirBlock s s dir) i x (newNumber s)
  | none => appendRecord (dirBlock s s dir) (s.sfs dir).dirChildrenCount x (newNumber s)

theorem filledBlock_filled (s : Fs) (dir : ℕ) (x : Name) :
    Filled (dirBlock s s dir) (filledBlock s dir x) (recordOf s dir) x (newNumber s) := by
  unfold filledBlock recordOf
  cases reusable s dir with
  | some i => exact reuse_filled
  | none => exact append_filled

/-- It holds what is to be stored already. -/
theorem filledBlock_eq_iff (s : Fs) (dir : ℕ) (x : Name) :
    filledBlock s dir x = dirBlock s s dir ↔
      Stored (dirBlock s s dir) (recordOf s dir) x (newNumber s) (reusable s dir).isNone := by
  unfold filledBlock recordOf
  cases reusable s dir with
  | some i => exact reuse_eq_iff
  | none => exact append_eq_iff

section
variable (intr : Site → Bool)

/-- Create gets to the record. -/
def Reaches [Target] (s : Fs) (new : Option NewInode) (mode : ℕ) : Prop :=
  Starts intr s new mode ∧ (firstDead s.toImage = none →
    intr .freeblock = false ∧ (findFreeBlock s.sb.freeBlocks).isSome = true)

/-- From there on it waits for a mutex that it holds. -/
def Stuck : Prop := intr .createMgmt = false ∧ intr .addMgmt = false ∧ intr .addSb = true

/-- The inode store after `simplefs_inode_add`, of which only the numbers count. -/
def storeAfterAdd (s : Fs) : Fs :=
  if intr .addMgmt || intr .addSb then s
  else addSlot { (default : SimplefsInode) with inodeNo := newNumber s } (firstDead s.toImage).isSome s

/-- Create fails after it has filled the record: a lock attempt is interrupted, or the inode of the
    parent, of which the count is to be saved, is not found. -/
def FailsLate (s : Fs) (dir : ℕ) : Prop :=
  intr .createMgmt = true ∨ reusable s dir = none ∧
    (intr .saveSb = true ∨ inodeSearch (storeAfterAdd intr s).toImage (s.sfs dir) = none)

/-- What a call that has got to the record leaves: its result `o`, none if it is stuck, and the
    state `s'` that it ends in. -/
structure Recorded (s : Fs) (dir : ℕ) (x : Name) (a : NewInode) (o : Option (Except Errno Unit))
    (s' : Fs) : Prop where
  block : dirBlock s s' dir = filledBlock s dir x
  failed : (∃ e, o = some (.error e)) ↔ ¬ Stuck intr ∧ FailsLate intr s dir
  number : o = some (.ok ()) → ∃ v, s'.inodes a.addr = some v ∧ v.iIno = newNumber s

variable {intr} {s t : Fs} {dir blk : ℕ} {x : Name} {a : NewInode} {z : SimplefsInode}

theorem ends_createCommit_stuck (append : Bool) (hc : intr .createMgmt = false) :
    (createCommit a dir blk x z append).ends Site.mutex intr t (held true true false) =
      (none, if append then t.setBlock blk fun b =>
        appendRecord b (t.sfs dir).dirChildrenCount x z.inodeNo else t) := by
  cases append <;>
    simp [createCommit, ends, Prog.modify, markBufferDirty, syncDirtyBuffer, mutexLockInterruptible, hc,
      Site.mutex, held]

theorem ends_createFinish (exist samedir : Bool) :
    (createFinish a dir blk x z exist samedir).ends Site.mutex intr t (held true false false) =
      (createCommit a dir blk x z (!exist || !samedir)).ends Site.mutex intr
        (if intr .addMgmt || intr .addSb then t else addSlot z exist t)
        (held true (!intr .addMgmt && intr .addSb) false) := by
  have hadd := run_inodeAdd intr z exist t true
  unfold createFinish
  cases h1 : intr .addMgmt with
  | true =>
    rw [h1, if_pos rfl] at hadd
    rw [ends_bind _ _ _ hadd]
    rfl
  | false =>
    rw [h1, if_neg (by simp)] at hadd
    cases h2 : intr .addSb with
    | true =>
      rw [h2, if_pos rfl] at hadd
      rw [ends_bind _ _ _ hadd]
      rfl
    | false =>
      rw [h2, if_neg (by simp)] at hadd
      rw [ends_bind _ _ _ hadd]
      rfl

/-- The rest of create, after a tombstone was filled. -/
theorem createFinish_same_cases : ∃ o s',
    (createFinish a dir blk x z true true).ends Site.mutex intr t (held true false false) = (o, s') ∧
      s'.data = t.data ∧ ((∃ e, o = some (.error e)) ↔ ¬ Stuck intr ∧ intr .createMgmt = true) ∧
      (o = some (.ok ()) → s'.inodes a.addr = some ⟨z.inodeNo, z.mode, some z⟩) := by
  have hdata : (if intr .addMgmt || intr .addSb then t else addSlot z true t).data = t.data := by
    split_ifs
    · rfl
    · exact addSlot_data z true t
  rw [ends_createFinish]
  simp only [Bool.not_true, Bool.or_self]
  generalize (if intr .addMgmt || intr .addSb then t else addSlot z true t) = u at hdata ⊢
  have hrun := run_createCommit_same intr a dir blk x z u (!intr .addMgmt && intr .addSb)
  cases hc : intr .createMgmt with
  | true =>
    rw [hc, if_pos rfl] at hrun
    exact ⟨_, _, ends_of_run _ _ hrun, hdata, by simp [Stuck, hc], by simp⟩
  | false =>
    rw [hc, if_neg (by simp)] at hrun
    cases hm : (!intr .addMgmt && intr .addSb) with
    | true => exact ⟨_, _, ends_createCommit_stuck false hc, hdata, by simp, by simp⟩
    | false =>
      rw [hm, if_neg (by simp)] at hrun
      exact ⟨_, _, ends_of_run _ _ hrun, hdata, by simp, fun _ => Function.update_self _ _ _⟩

/-- The rest of create, which appends a record; `u` is the state after `simplefs_inode_add`. -/
theorem createFinish_append_cases {exist : Bool} {u : Fs}
    (hu : u = if intr .addMgmt || intr .addSb then t else addSlot z exist t) : ∃ o s',
    (createFinish a dir blk x z exist false).ends Site.mutex intr t (held true false false) = (o, s') ∧
      s'.data = Function.update t.data blk
        (appendRecord (t.data blk) (t.sfs dir).dirChildrenCount x z.inodeNo) ∧
      ((∃ e, o = some (.error e)) ↔ ¬ Stuck intr ∧ (intr .createMgmt = true ∨
        intr .saveSb = true ∨ inodeSearch (appendName dir blk x z.inodeNo u).toImage
          ((appendName dir blk x z.inodeNo u).sfs dir) = none)) ∧
      (o = some (.ok ()) → s'.inodes a.addr = some ⟨z.inodeNo, z.mode, some z⟩) := by
  have hdata : u.data = t.data := by
    rw [hu]
    split_ifs
    · rfl
    · exact addSlot_data z exist t
  have hsfs : u.sfs dir = t.sfs dir := by
    rw [hu]
    split_ifs
    · rfl
    · rw [addSlot_sfs]
  have happend : (appendName dir blk x z.inodeNo u).data = Function.update t.data blk
      (appendRecord (t.data blk) (t.sfs dir).dirChildrenCount x z.inodeNo) := by
    rw [← hdata, ← hsfs]
    rfl
  rw [ends_createFinish, ← hu]
  simp only [Bool.not_false, Bool.or_true]
  have hrun := run_createCommit_append intr a dir blk x z u (!intr .addMgmt && intr .addSb)
  dsimp only at hrun
  cases hc : intr .createMgmt with
  | true =>
    rw [hc, if_pos rfl] at hrun
    exact ⟨_, _, ends_of_run _ _ hrun, happend, by simp [Stuck, hc], by simp⟩
  | false =>
    rw [hc, if_neg (by simp)] at hrun
    cases hm : (!intr .addMgmt && intr .addSb) with
    | true =>
      have hstuck : Stuck intr := ⟨hc, by simpa using hm⟩
      exact ⟨_, _, ends_createCommit_stuck true hc, happend, by simp [hstuck], by simp⟩
    | false =>
      have hstuck : ¬ Stuck intr := by
        rintro ⟨-, h1, h2⟩
        simp [h1, h2] at hm
      rw [hm, if_neg (by simp)] at hrun
      cases hs : intr .saveSb with
      | true =>
        rw [hs, if_pos rfl] at hrun
        exact ⟨_, _, ends_of_run _ _ hrun, happend, by simp [hstuck], by simp⟩
      | false =>
        rw [hs, if_neg (by simp)] at hrun
        cases hsearch : inodeSearch (appendName dir blk x z.inodeNo u).toImage
            ((appendName dir blk x z.inodeNo u).sfs dir) with
        | none =>
          rw [hsearch] at hrun
          exact ⟨_, _, ends_of_run _ _ hrun, (saveSlot_data dir _).trans happend, by simp [hstuck],
            by simp⟩
        | some j =>
          rw [hsearch] at hrun
          exact ⟨_, _, ends_of_run _ _ hrun, (saveSlot_data dir _).trans happend, by simp,
            fun _ => Function.update_self _ _ _⟩

/-- A search goes by the numbers of the slots. -/
theorem inodeSearch_congr {g g' : Image} {y y' : SimplefsInode}
    (hcount : g.sb.inodesCount = g'.sb.inodesCount)
    (hno : ∀ i, (g.store i).inodeNo = (g'.store i).inodeNo) (hy : y.number = y'.number) :
    inodeSearch g y = inodeSearch g' y' := by
  refine Option.ext fun j => ?_
  rw [inodeSearch_some, inodeSearch_some, hcount, hy]
  simp only [hno]

theorem addSlot_numbers {z' : SimplefsInode} {e : Bool} (hcount : t.sb.inodesCount = s.sb.inodesCount)
    (hstore : t.store = s.store) (hz : z.inodeNo = z'.inodeNo) :
    (addSlot z e t).sb.inodesCount = (addSlot z' e s).sb.inodesCount ∧
      ∀ i, ((addSlot z e t).store i).inodeNo = ((addSlot z' e s).store i).inodeNo := by
  have hset : ∀ j i, (Function.update t.store j z i).inodeNo =
      (Function.update s.store j z' i).inodeNo := by
    intro j i
    by_cases hi : i = j
    · rw [hi, Function.update_self, Function.update_self, hz]
    · rw [Function.update_of_ne hi, Function.update_of_ne hi, hstore]
  cases e with
  | false =>
    refine ⟨congrArg (· + 1) hcount, fun i => ?_⟩
    show (Function.update t.store t.sb.inodesCount z i).inodeNo = _
    rw [hcount]
    exact hset s.sb.inodesCount i
  | true =>
    have hfind : findDead t.toImage z.inodeNo = findDead s.toImage z'.inodeNo := by
      rw [findDead, findDead, hcount, hstore, hz]
    unfold addSlot
    rw [if_pos rfl, if_pos rfl, hfind]
    cases findDead s.toImage z'.inodeNo with
    | none => exact ⟨hcount, fun i => by rw [hstore]⟩
    | some j => exact ⟨hcount, hset j⟩

theorem setSfs_number (t : Fs) (dir : ℕ) {f : SimplefsInode → SimplefsInode} (hf : ∀ y, (f y).number = y.number) :
    ((t.setSfs dir f).sfs dir).number = (t.sfs dir).number := by
  simp only [Fs.sfs, Fs.setSfs, Function.update_self]
  cases t.inodes dir with
  | none => rfl
  | some v =>
    simp only [Option.map_some, Option.bind_some]
    cases v.priv with
    | none => rfl
    | some y => exact hf y

/-- The search for the parent's inode, after the record was appended. -/
theorem search_appended {u : Fs} {n : ℕ} (hcount : t.sb.inodesCount = s.sb.inodesCount)
    (hstore : t.store = s.store) (hinodes : t.inodes = s.inodes) (hz : z.inodeNo = newNumber s)
    (hu : u = if intr .addMgmt || intr .addSb then t else addSlot z (firstDead s.toImage).isSome t) :
    inodeSearch (appendName dir blk x n u).toImage ((appendName dir blk x n u).sfs dir) =
      inodeSearch (storeAfterAdd intr s).toImage (s.sfs dir) := by
  have hsame : u.inodes = s.inodes ∧ u.sb.inodesCount = (storeAfterAdd intr s).sb.inodesCount ∧
      ∀ i, (u.store i).inodeNo = ((storeAfterAdd intr s).store i).inodeNo := by
    rw [hu, storeAfterAdd]
    split_ifs
    · exact ⟨hinodes, hcount, fun i => by rw [hstore]⟩
    · exact ⟨(addSlot_inodes z _ t).trans hinodes, addSlot_numbers hcount hstore hz⟩
  obtain ⟨hui, hucount, huno⟩ := hsame
  refine inodeSearch_congr hucount huno ?_
  have hkeep := setSfs_number (u.setBlock blk fun b =>
    appendRecord b (u.sfs dir).dirChildrenCount x n) dir
    (f := fun y => { y with size := y.dirChildrenCount + 1 }) fun _ => rfl
  refine hkeep.trans ?_
  show (u.sfs dir).number = _
  rw [Fs.sfs, hui]
  rfl

/-- The appended record, whichever way create got there from `s`; `t` is the state before
    `simplefs_inode_add`. -/
theorem createFinish_recorded {exist : Bool} (hreuse : reusable s dir = none)
    (hexist : exist = (firstDead s.toImage).isSome) (hblk : blk = (s.sfs dir).dataBlockNumber)
    (hdata : t.data = s.data) (hcount : t.sb.inodesCount = s.sb.inodesCount)
    (hstore : t.store = s.store) (hinodes : t.inodes = s.inodes) (hz : z.inodeNo = newNumber s) :
    ∃ o s', (createFinish a dir blk x z exist false).ends Site.mutex intr t (held true false false) =
      (o, s') ∧ Recorded intr s dir x a o s' := by
  subst hexist
  have hsfs : t.sfs dir = s.sfs dir := by rw [Fs.sfs, hinodes, Fs.sfs]
  obtain ⟨o, s', hends, hblock, herr, hok⟩ := createFinish_append_cases (a := a) (t := t) (z := z) rfl
  refine ⟨o, s', hends, ?_, ?_, fun h => ⟨_, hok h, hz⟩⟩
  · rw [dirBlock, hblock, filledBlock, hreuse, hz, hdata, hsfs, hblk, Function.update_self]
    rfl
  · rw [herr, search_appended hcount hstore hinodes hz rfl, FailsLate, hreuse]
    simp

section
variable [Target]

/-- **What a call that gets to the record does.** -/
theorem createBody_recorded {mode ino : ℕ}
    (hino : ino = s.sb.inodesCount + SIMPLEFS_START_INO - SIMPLEFS_RESERVED_INODES + 1)
    (hfree : firstDead s.toImage = none →
      intr .freeblock = false ∧ (findFreeBlock s.sb.freeBlocks).isSome = true) :
    ∃ o s', (createBody a dir x mode ino).ends Site.mutex intr s (held true false false) = (o, s') ∧
      Recorded intr s dir x a o s' := by
  have hget := getDeadInodeNo_run intr s (held true false false)
  simp only [createBody]
  rw [ends_bind _ _ _ (run_reads _ _ _ _ _), ends_bind _ _ _ hget]
  cases hdead : firstDead s.toImage with
  | some k =>
    have hnew : newNumber s = (s.store k).deadInodeNo := by rw [newNumber, hdead]
    dsimp only [Option.map_some]
    rw [ends_bind _ _ _ (run_step _ _ _ _ _ _)]
    dsimp only
    cases htomb : firstTombstone (s.data (s.sfs dir).dataBlockNumber) (s.sfs dir).dirChildrenCount with
    | some i =>
      have hreuse : reusable s dir = some i := by
        rw [reusable, hdead]
        exact htomb
      obtain ⟨o, s', hends, hdata, herr, hok⟩ := createFinish_same_cases
      refine ⟨o, s', hends, ?_, ?_, fun h => ⟨_, hok h, hnew.symm⟩⟩
      · rw [dirBlock, hdata, filledBlock, hreuse, hnew]
        exact Function.update_self _ _ _
      · rw [herr, FailsLate, hreuse]
        simp
    | none =>
      have hreuse : reusable s dir = none := by
        rw [reusable, hdead]
        exact htomb
      exact createFinish_recorded hreuse (by rw [hdead]; rfl) rfl rfl rfl rfl rfl hnew.symm
  | none =>
    obtain ⟨hfb, hsome⟩ := hfree hdead
    obtain ⟨b, hb⟩ := Option.isSome_iff_exists.1 hsome
    have hreuse : reusable s dir = none := by rw [reusable, hdead]
    have hnew : newNumber s = ino := by rw [newNumber, hdead, hino]
    have hblock := run_sbGetAFreeblock intr s true false
    rw [hfb, if_neg (by simp), exec_sbGetAFreeblock, hb] at hblock
    dsimp only [Option.map_none]
    rw [ends_bind _ _ _ hblock]
    exact createFinish_recorded hreuse (by rw [hdead]; rfl) rfl rfl rfl rfl rfl hnew.symm

/-- What a call leaves of the parent's block: unchanged if it fails, or one record of it with the
    name and the new inode's number and nothing else changed. -/
def TouchesOne (s : Fs) (dir : ℕ) (x : Name) (o : Option (Except Errno Unit)) (s' : Fs) : Prop :=
  (∃ e, o = some (.error e)) ∧ dirBlock s s' dir = dirBlock s s dir ∨
    OneRecord (dirBlock s s dir) (dirBlock s s' dir) x (newNumber s)

omit [Target] in
theorem Recorded.touchesOne_iff {o : Option (Except Errno Unit)} {s' : Fs}
    (R : Recorded intr s dir x a o s') (hn : newNumber s < 2 ^ 64) : TouchesOne s dir x o s' ↔
      RecordFits (dirBlock s s dir) (recordOf s dir) x (newNumber s) ∨
        ¬ Stuck intr ∧ FailsLate intr s dir ∧
          Stored (dirBlock s s dir) (recordOf s dir) x (newNumber s) (reusable s dir).isNone := by
  rw [TouchesOne, R.block, R.failed, (filledBlock_filled s dir x).oneRecord_iff hn, or_comm, and_assoc,
    filledBlock_eq_iff]

theorem ends_createFsObject_starts {mode : ℕ} (h : Starts intr s (some a) mode) :
    (createFsObject (some a) dir x mode).ends Site.mutex intr s (held false false false) =
      (createBody a dir x mode
        (s.sb.inodesCount + SIMPLEFS_START_INO - SIMPLEFS_RESERVED_INODES + 1)).ends Site.mutex intr s
        (held true false false) := by
  obtain ⟨h1, h2, h3, h4, -⟩ := h
  have hmode : (!S_ISDIR mode && !S_ISREG mode) = false := by
    rcases h4 with h | h <;> simp [h]
  have hc : ¬ SIMPLEFS_MAX_FILESYSTEM_OBJECTS_SUPPORTED ≤ s.sb.inodesCount := by omega
  simp [createFsObject, sbGetObjectsCount, ends, mutexLockInterruptible, reads, mutexUnlock, h1, h2,
    hmode, hc, Site.mutex]

theorem createFsObject_recorded (dir : ℕ) (x : Name) {mode : ℕ} (h : Reaches intr s (some a) mode) : ∃ o s',
    (createFsObject (some a) dir x mode).ends Site.mutex intr s (held false false false) = (o, s') ∧
      Recorded intr s dir x a o s' := by
  rw [ends_createFsObject_starts h.1]
  exact createBody_recorded rfl h.2

/-- A call that does not get to the record fails and changes nothing of the block. -/
theorem createFsObject_fails (dir : ℕ) (x : Name) {new : Option NewInode} {mode : ℕ} (h : ¬ Reaches intr s new mode) :
    ∃ e, (createFsObject new dir x mode).ends Site.mutex intr s (held false false false) =
      (some (.error e), s) := by
  by_cases hstart : Starts intr s new mode
  swap
  · obtain ⟨e, l, hrun⟩ := run_createFsObject_refused intr dir x hstart
    exact ⟨e, ends_of_run _ _ hrun⟩
  -- no block for the new inode
  obtain ⟨a, rfl⟩ := Option.isSome_iff_exists.1 hstart.2.2.2.2
  obtain ⟨hdead, hfree⟩ := Classical.not_imp.1 fun hfree => h ⟨hstart, hfree⟩
  rw [ends_createFsObject_starts hstart]
  have hrun := run_createBody intr a dir x mode
    (s.sb.inodesCount + SIMPLEFS_START_INO - SIMPLEFS_RESERVED_INODES + 1) s
  dsimp only at hrun
  rw [hdead] at hrun
  dsimp only at hrun
  cases hfb : intr .freeblock with
  | true =>
    rw [hfb, if_pos rfl] at hrun
    exact ⟨_, ends_of_run _ _ hrun⟩
  | false =>
    have hnone : findFreeBlock s.sb.freeBlocks = none := by simpa [hfb] using hfree
    rw [hfb, if_neg (by simp), hnone] at hrun
    exact ⟨_, ends_of_run _ _ hrun⟩

omit [Target] in
theorem newNumber_lt {new : Option NewInode} {mode : ℕ} (h : Starts intr s new mode)
    (hword : ∀ k, (s.store k).deadInodeNo < 2 ^ 64) : newNumber s < 2 ^ 64 := by
  have hlt : s.sb.inodesCount < 64 := h.2.2.1
  unfold newNumber
  cases firstDead s.toImage with
  | some k => exact hword k
  | none =>
    rw [fresh_ino]
    dsimp only
    omega

/-- **When create touches one record.**  Exactly if it does not get to the record, or the name fits
    there, or all that it stores is there already; `dead_inode_no` has 64 bits. -/
theorem createRecord_iff (intr : Site → Bool) (s : Fs) (new : Option NewInode) (dir : ℕ) (x : Name)
    (mode : ℕ) (hword : ∀ k, (s.store k).deadInodeNo < 2 ^ 64) :
    (∀ o s', (createFsObject new dir x mode).ends Site.mutex intr s (held false false false) = (o, s') →
      TouchesOne s dir x o s') ↔
    (Reaches intr s new mode →
      RecordFits (dirBlock s s dir) (recordOf s dir) x (newNumber s) ∨
        ¬ Stuck intr ∧ FailsLate intr s dir ∧
          Stored (dirBlock s s dir) (recordOf s dir) x (newNumber s) (reusable s dir).isNone) := by
  by_cases hreach : Reaches intr s new mode
  · obtain ⟨a, rfl⟩ := Option.isSome_iff_exists.1 hreach.1.2.2.2.2
    obtain ⟨o, s', hends, R⟩ := createFsObject_recorded dir x hreach
    rw [hends, imp_iff_right hreach, ← R.touchesOne_iff (newNumber_lt hreach.1 hword)]
    constructor
    · intro h
      exact h _ _ rfl
    · rintro h _ _ ⟨⟩
      exact h
  · obtain ⟨e, hends⟩ := createFsObject_fails dir x hreach
    rw [hends]
    refine iff_of_true ?_ fun h => absurd h hreach
    rintro _ _ ⟨⟩
    exact Or.inl ⟨⟨e, rfl⟩, rfl⟩

end

section

attribute [local instance] x86

/-- The file `a` in the root directory of the new file system. -/
theorem createRecord_iff_blank :
    (∀ o s', (createFsObject (some ⟨2, default⟩) rootAddr nameA S_IFREG).ends Site.mutex
      (fun _ => false) blankFs (held false false false) = (o, s') →
      TouchesOne blankFs rootAddr nameA o s') ↔
    (Reaches (fun _ => false) blankFs (some ⟨2, default⟩) S_IFREG →
      RecordFits (dirBlock blankFs blankFs rootAddr) (recordOf blankFs rootAddr) nameA
          (newNumber blankFs) ∨
        ¬ Stuck (fun _ => false) ∧ FailsLate (fun _ => false) blankFs rootAddr ∧
          Stored (dirBlock blankFs blankFs rootAddr) (recordOf blankFs rootAddr) nameA
            (newNumber blankFs) (reusable blankFs rootAddr).isNone) := by
  refine createRecord_iff _ _ _ _ _ _ fun k => ?_
  match k with
  | 0 => decide
  | 1 => decide
  | _ + 2 => exact (show 0 < 2 ^ 64 by decide)

/-- `"aaaaaaaaaaaaaaaaaaaaaaaaaaaaaaaa"`, which fills `filename` and the padding, without its NUL -/
def nameLong : Name := ⟨List.replicate 32 97, by decide, by decide, by decide⟩

/-- Its NUL falls on the number of the new record. -/
theorem nameLong_touches : fillSuper (mkfs blankDisk 0) = .ok blankFs ∧
    ¬ ∀ o s', (createFsObject (some ⟨2, default⟩) rootAddr nameLong S_IFREG).ends Site.mutex
      (fun _ => false) blankFs (held false false false) = (o, s') →
      TouchesOne blankFs rootAddr nameLong o s' := by
  refine ⟨blankFs_mount, fun h => ?_⟩
  have hreach : Reaches (fun _ => false) blankFs (some ⟨2, default⟩) S_IFREG :=
    ⟨⟨rfl, rfl, by decide, Or.inr (by decide), rfl⟩, fun _ => ⟨rfl, by decide⟩⟩
  obtain ⟨o, s', hends, R⟩ := createFsObject_recorded rootAddr nameLong hreach
  have hn : newNumber blankFs = 10 := by decide
  have hmeets : ¬ Meets nameLong (newNumber blankFs) := fun hm => by
    rw [hn] at hm
    exact absurd (hm 0 (by decide) (by decide)) (by decide)
  rcases (R.touchesOne_iff (hn ▸ by decide)).1 (h _ _ hends) with (⟨-, hfits⟩ | ⟨hold, -⟩) | ⟨-, hlate, -⟩
  · exact hmeets (fits_iff.1 hfits).1
  · exact hmeets (hold.meets (hn ▸ by decide))
  · rcases hlate with hlate | ⟨-, hlate | hlate⟩
    · exact absurd hlate (by decide)
    · exact absurd hlate (by decide)
    · exact absurd hlate (by decide)

end

end

end Simplefs
