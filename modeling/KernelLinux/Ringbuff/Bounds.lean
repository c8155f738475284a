/-
  userspace/ringbuff — what a transfer touches of the caller's buffer.

  `ring_buffer_read` stores each byte through an `int *`, so the three bytes behind the
  last one are overwritten with zeros, and the loops of both functions, `while (len--)`,
  take a negative `len` for a large one.  `transfers_inside_iff` says exactly when a call
  that returns stays inside the buffer.
-/
import KernelLinux.Ringbuff.Ring

namespace Ringbuff

open Bytes

/-- The rounds of `while (len--)`: those until the `int` is zero. -/
def rounds (len : ℤ) : ℕ := (len % 2 ^ 32).toNat

theorem rounds_of_nonneg {len : ℤ} (h : 0 ≤ len) (hlt : len < 2 ^ 31) : rounds len = len.toNat := by
  unfold rounds
  omega

theorem rounds_of_neg {len : ℤ} (h : len < 0) (hge : -2 ^ 31 ≤ len) : 0 < rounds len := by
  unfold rounds
  omega

/-! ## read -/

/-- An `int` that holds a byte, stored at `o`. -/
theorem putLE_int (b : Block) (o : ℕ) (x : UInt8) (a : ℕ) : b.putLE 4 o x.toNat a =
    if a = o then x else if o < a ∧ a < o + 4 then 0 else b a := by
  split_ifs with h h'
  · rw [h, Block.putLE_first, UInt8.ofNat_toNat]
  · obtain ⟨i, rfl⟩ := Nat.exists_eq_add_of_lt h'.1
    have hzero : x.toNat / 256 = 0 := Nat.div_eq_of_lt x.toNat_lt
    have hbytes : leBytes 4 x.toNat = [UInt8.ofNat x.toNat, 0, 0, 0] := by
      simp [leBytes, hzero]
    obtain rfl | rfl | rfl : i = 0 ∨ i = 1 ∨ i = 2 := by omega
    all_goals
      rw [Block.putLE, hbytes, Nat.add_assoc]
      exact Block.write_inside (by simp)
  · exact Block.putLE_outside (by omega)

/-- One call of `__ring_buffer_read`. -/
theorem readByte_cases {rb rb' : RingBuffer} {dst dst' : Block} {o rc : ℕ}
    (h : ringBufferReadByte rb dst o = .ok (rc, dst', rb')) :
    (rb.size = 0 ∧ rc = 1 ∧ dst' = dst) ∨
    (0 < rb.size ∧ rc = 0 ∧ rb'.size = rb.size - 1 ∧ ∃ x : UInt8, dst' = dst.putLE 4 o x.toNat) := by
  unfold ringBufferReadByte at h
  split_ifs at h with hsize hflag hcap
  · obtain ⟨rfl, rfl, rfl⟩ := h
    exact Or.inl ⟨hsize, rfl, rfl⟩
  · obtain ⟨rfl, rfl, rfl⟩ := h
    exact Or.inr ⟨Nat.pos_of_ne_zero hsize, rfl, rfl, _, rfl⟩

/-- **What the loop of `ring_buffer_read` stores behind what it delivers**: zeros in the next three
    bytes, if it delivers anything. -/
theorem readLoop_behind {len n r : ℕ} {dst dst' : Block} {rb rb' : RingBuffer}
    (h : readLoop len n dst rb = .ok (r, dst', rb')) : r = n + min len rb.size ∧
      ∀ a, r ≤ a → dst' a = if n < r ∧ a < r + 3 then 0 else dst a := by
  induction len generalizing n dst rb with
  | zero =>
    obtain ⟨rfl, rfl, rfl⟩ := h
    simp
  | succ len ih =>
    unfold readLoop at h
    cases hbyte : ringBufferReadByte rb dst n with
    | error e => simp [hbyte] at h
    | ok res =>
      obtain ⟨rc, dst₁, rb₁⟩ := res
      simp only [hbyte] at h
      rcases readByte_cases hbyte with ⟨hsize, rfl, rfl⟩ | ⟨hsize, rfl, hrb₁, x, rfl⟩
      · obtain ⟨rfl, rfl, rfl⟩ := h
        simp [hsize]
      · obtain ⟨hr, hbehind⟩ := ih h
        refine ⟨by omega, fun a ha => ?_⟩
        rw [hbehind a ha, putLE_int]
        -- the last round stores the three zeros
        split_ifs <;> first | rfl | omega

/-- A read has changed no byte outside the first `r`, which it returns. -/
structure ReadInside (len : ℤ) (dst : Block) (r : ℕ) (dst' : Block) : Prop where
  count : (r : ℤ) ≤ max len 0
  outside : ∀ a, r ≤ a → dst' a = dst a

theorem readInside_iff {rb rb' : RingBuffer} {len : ℤ} {dst dst' : Block} {r : ℕ}
    (hge : -2 ^ 31 ≤ len) (hlt : len < 2 ^ 31)
    (h : ringBufferRead rb dst (rounds len) = .ok (r, dst', rb')) : ReadInside len dst r dst' ↔
      rb.size = 0 ∨ len = 0 ∨ 0 < len ∧ ∀ i < 3, dst (min len.toNat rb.size + i) = 0 := by
  obtain ⟨hr, hbehind⟩ := readLoop_behind h
  rw [Nat.zero_add] at hr
  constructor
  · rintro ⟨hcount, hout⟩
    rcases lt_trichotomy len 0 with hneg | rfl | hpos
    · have := rounds_of_neg hneg hge
      left
      omega
    · exact Or.inr (Or.inl rfl)
    · rw [rounds_of_nonneg hpos.le hlt] at hr
      rcases Nat.eq_zero_or_pos rb.size with hsize | hsize
      · exact Or.inl hsize
      · refine Or.inr (Or.inr ⟨hpos, fun i hi => ?_⟩)
        rw [← hr, ← hout (r + i) (by omega), hbehind (r + i) (by omega), if_pos (by omega)]
  · intro hcond
    have hkept : r = 0 → ReadInside len dst r dst' := fun hr₀ =>
      ⟨by omega, fun a ha => by rw [hbehind a ha, if_neg (by omega)]⟩
    rcases hcond with hsize | rfl | ⟨hpos, hzeros⟩
    · exact hkept (by omega)
    · exact hkept (by simpa [rounds] using hr)
    · rw [rounds_of_nonneg hpos.le hlt] at hr
      refine ⟨by omega, fun a ha => ?_⟩
      rw [hbehind a ha]
      split_ifs with hnear
      · obtain ⟨i, rfl⟩ := Nat.exists_eq_add_of_le ha
        rw [hr]
        exact (hzeros i (by omega)).symm
      · rfl

/-! ## write -/

/-- The offsets at which the loop of `ring_buffer_write` reads the source: `*buf++` is read before
    `__ring_buffer_write` tells that the ring buffer is full. -/
def writeReads (buf : Block) : ℕ → ℕ → RingBuffer → List ℕ
  | 0, _, _ => []
  | len + 1, nWrote, rb =>
    nWrote :: match ringBufferWriteByte rb (buf nWrote) with
      | .error _ => []
      | .ok (rc, rb) => if rc ≠ 0 then [] else writeReads buf len (nWrote + 1) rb

theorem writeReads_lt {buf : Block} {len n : ℕ} {rb : RingBuffer} :
    ∀ o ∈ writeReads buf len n rb, o < n + len := by
  induction len generalizing n rb with
  | zero => exact fun o ho => absurd ho List.not_mem_nil
  | succ len ih =>
    intro o ho
    rw [writeReads, List.mem_cons] at ho
    rcases ho with rfl | ho
    · omega
    · split at ho
      · exact absurd ho List.not_mem_nil
      · split_ifs at ho with hrc
        · exact absurd ho List.not_mem_nil
        · have := ih o ho
          omega

theorem writeInside_iff {buf : Block} {len : ℤ} {rb : RingBuffer} (hge : -2 ^ 31 ≤ len)
    (hlt : len < 2 ^ 31) :
    (∀ o ∈ writeReads buf (rounds len) 0 rb, (o : ℤ) < max len 0) ↔ 0 ≤ len := by
  constructor
  · intro h
    by_contra hneg
    obtain ⟨k, hk⟩ := Nat.exists_eq_add_of_lt (rounds_of_neg (not_le.1 hneg) hge)
    have := h 0 (by rw [hk, Nat.zero_add]; exact List.mem_cons_self)
    omega
  · intro hnn o ho
    have := writeReads_lt o ho
    rw [rounds_of_nonneg hnn hlt] at this
    omega

/-- **When a transfer stays inside the caller's buffer.**  A read does if it delivers nothing, or
    `len` is positive and the three bytes behind those it delivers are zero; a write does if
    `len` is not negative. -/
theorem transfers_inside_iff (rb : RingBuffer) {len : ℤ} (hge : -2 ^ 31 ≤ len) (hlt : len < 2 ^ 31) :
    (∀ dst r dst' rb', ringBufferRead rb dst (rounds len) = .ok (r, dst', rb') →
      (ReadInside len dst r dst' ↔
        rb.size = 0 ∨ len = 0 ∨ 0 < len ∧ ∀ i < 3, dst (min len.toNat rb.size + i) = 0)) ∧
    (∀ buf n rb', ringBufferWrite rb buf (rounds len) = .ok (n, rb') →
      ((∀ o ∈ writeReads buf (rounds len) 0 rb, (o : ℤ) < max len 0) ↔ 0 ≤ len)) :=
  ⟨fun _ _ _ _ h => readInside_iff hge hlt h, fun _ _ _ _ => writeInside_iff hge hlt⟩

/-- A ring buffer with one byte. -/
def oneByte : RingBuffer := ⟨1, 0, RB_FLAG_NONBLOCK, 20, 1, fun _ => 97⟩

/-- `transfers_inside_iff` for a length of one. -/
theorem transfers_inside_iff_one :
    (ReadInside 1 (fun _ => 0) 1 (Block.putLE (fun _ => 0) 4 0 97) ↔
      oneByte.size = 0 ∨ (1 : ℤ) = 0 ∨
        (0 : ℤ) < 1 ∧ ∀ i < 3, (fun _ => 0 : Block) (min (1 : ℤ).toNat oneByte.size + i) = 0) ∧
    ((∀ o ∈ writeReads (fun _ => 0) (rounds 1) 0 oneByte, (o : ℤ) < max 1 0) ↔ (0 : ℤ) ≤ 1) := by
  have hge : -2 ^ 31 ≤ (1 : ℤ) := by decide
  obtain ⟨hread, hwrite⟩ := transfers_inside_iff oneByte hge (by decide)
  exact ⟨hread _ _ _ oneByte.take rfl, hwrite _ 1 (oneByte.put 0) rfl⟩

/-- A read of one byte overwrites the next three bytes of the destination. -/
theorem oneByte_overrun : Holds 20 oneByte [97] ∧ ∃ dst' rb',
    ringBufferRead oneByte (fun _ => 0xff) (rounds 1) = .ok (1, dst', rb') ∧
    dst'.read 0 5 = [97, 0, 0, 0, 0xff] ∧ ¬ ReadInside 1 (fun _ => 0xff) 1 dst' := by
  refine ⟨⟨rfl, by decide, by decide, by decide, by decide, rfl, rfl⟩, _, _, rfl, by decide, ?_⟩
  intro h
  have hbyte := h.outside 1 le_rfl
  revert hbyte
  decide

end Ringbuff
