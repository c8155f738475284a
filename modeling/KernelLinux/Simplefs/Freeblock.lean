/-
  simplefs — the block allocator.

  The mask `1 << i` is an `int` and the map of free blocks a 64-bit word: the mask
  of block 31 is sign-extended to all bits from 31 on, and the masks of the blocks
  behind it are what the target makes of the shift.  `freeblock_iff`: the maps for
  which `simplefs_sb_get_a_freeblock` takes the lowest free block and no other.
-/
import KernelLinux.Simplefs.Scan
import KernelLinux.Simplefs.Mount

namespace Simplefs

/-- The lowest free block, from block 3 on. -/
def lowestFree (free : BitVec 64) : Option ℕ :=
  (List.range SIMPLEFS_MAX_FILESYSTEM_OBJECTS_SUPPORTED).find? fun i => 3 ≤ i && free.getLsbD i

/-- What an allocator does: it takes the lowest free block, and only this one. -/
def allocate (s : Fs) : Except Errno ℕ × Fs :=
  match lowestFree s.sb.freeBlocks with
  | none => (.error .enospc, s)
  | some i =>
    (.ok i, { s with sb := { s.sb with freeBlocks := s.sb.freeBlocks &&& ~~~ BitVec.twoPow 64 i } })

/-- The maps of which the scan takes the lowest free block: it is below 31, or 31 and the only one,
    or there is none and no mask from 32 on tests a bit below 3. -/
def Exact [Target] (free : BitVec 64) : Prop :=
  (∃ i, 3 ≤ i ∧ i < 31 ∧ free.getLsbD i = true) ∨
    (∀ i, 3 ≤ i → i < 64 → (free.getLsbD i = true ↔ i = 31)) ∨
    (∀ i, 3 ≤ i → i < 64 → free.getLsbD i = false) ∧ ∀ i, 32 ≤ i → i < 64 → free &&& oneShl i = 0

/-! ## The masks -/

section
variable {free : BitVec 64} {i : ℕ}

theorem ne_zero_iff : free ≠ 0#64 ↔ ∃ i, i < 64 ∧ free.getLsbD i = true := by
  rw [Ne, BitVec.eq_of_getLsbD_eq_iff]
  simp

theorem getLsbD_sign : (BitVec.allOnes 64 <<< 31).getLsbD i = decide (31 ≤ i ∧ i < 64) := by
  rw [BitVec.getLsbD_shiftLeft, BitVec.getLsbD_allOnes, Bool.eq_iff_iff]
  simp
  omega

/-- A mask of one bit tests it. -/
theorem and_twoPow_ne_zero (h : i < 64) : free &&& BitVec.twoPow 64 i ≠ 0#64 ↔ free.getLsbD i = true := by
  rw [ne_zero_iff]
  simp only [BitVec.getLsbD_and, BitVec.getLsbD_twoPow, Bool.and_eq_true, decide_eq_true_eq]
  constructor
  · rintro ⟨_, -, hfree, -, rfl⟩
    exact hfree
  · intro hfree
    exact ⟨i, h, hfree, h, rfl⟩

/-- A search from 3 on finds the first index. -/
theorem find_from_some {p : ℕ → Bool} {n : ℕ} : ((List.range n).find? fun i => 3 ≤ i && p i) = some i ↔
    3 ≤ i ∧ i < n ∧ p i = true ∧ ∀ j, 3 ≤ j → j < i → p j = false := by
  rw [find_range]
  simp only [Bool.and_eq_true, decide_eq_true_eq, Bool.and_eq_false_imp]
  constructor
  · rintro ⟨hn, ⟨h3, hp⟩, hlow⟩
    exact ⟨h3, hn, hp, fun j h3j hj => hlow j hj h3j⟩
  · rintro ⟨h3, hn, hp, hlow⟩
    exact ⟨hn, ⟨h3, hp⟩, fun j hj h3j => hlow j h3j hj⟩

theorem find_from_none {p : ℕ → Bool} {n : ℕ} : ((List.range n).find? fun i => 3 ≤ i && p i) = none ↔
    ∀ i, 3 ≤ i → i < n → p i = false := by
  rw [find_range_none]
  simp only [Bool.and_eq_false_imp, decide_eq_true_eq]
  exact ⟨fun h i h3 hn => h i hn h3, fun h i hn h3 => h i h3 hn⟩

theorem lowestFree_some : lowestFree free = some i ↔
    3 ≤ i ∧ i < 64 ∧ free.getLsbD i = true ∧ ∀ j, 3 ≤ j → j < i → free.getLsbD j = false :=
  find_from_some

theorem lowestFree_none : lowestFree free = none ↔ ∀ i, 3 ≤ i → i < 64 → free.getLsbD i = false :=
  find_from_none

variable [Target]

/-- Below bit 31 the mask is one bit. -/
theorem oneShl_low (h : i < 31) : oneShl i = BitVec.twoPow 64 i := by
  have hall : ∀ i < 31, (1#32 <<< i).signExtend 64 = BitVec.twoPow 64 i := by decide +kernel
  rw [oneShl, if_pos (by omega), hall i h]

/-- The sign of `1 << 31` is extended. -/
theorem oneShl_sign : oneShl 31 = BitVec.allOnes 64 <<< 31 := by
  rw [oneShl, if_pos (by decide)]
  decide +kernel

theorem and_oneShl_low (h : i < 31) : free &&& oneShl i ≠ 0#64 ↔ free.getLsbD i = true := by
  rw [oneShl_low h, and_twoPow_ne_zero (by omega)]

/-- The mask of block 31 tests all bits from 31 on. -/
theorem and_oneShl_sign : free &&& oneShl 31 ≠ 0#64 ↔ ∃ i, 31 ≤ i ∧ i < 64 ∧ free.getLsbD i = true := by
  rw [oneShl_sign, ne_zero_iff]
  simp only [BitVec.getLsbD_and, getLsbD_sign, Bool.and_eq_true, decide_eq_true_eq]
  constructor
  · rintro ⟨i, -, hfree, h31, h64⟩
    exact ⟨i, h31, h64, hfree⟩
  · rintro ⟨i, h31, h64, hfree⟩
    exact ⟨i, h64, hfree, h31, h64⟩

/-- The mask of block 31 is as good as one bit if no bit behind it is set. -/
theorem clear_sign_iff : free &&& ~~~ oneShl 31 = free &&& ~~~ BitVec.twoPow 64 31 ↔
    ∀ i, 31 < i → i < 64 → free.getLsbD i = false := by
  rw [oneShl_sign, BitVec.eq_of_getLsbD_eq_iff]
  simp only [BitVec.getLsbD_and, BitVec.getLsbD_not, getLsbD_sign, BitVec.getLsbD_twoPow]
  refine forall_congr' fun i => ?_
  rcases lt_trichotomy i 31 with h | rfl | h
  · simp [h.not_ge, h.ne', h.not_gt]
  · simp
  · simp only [h.le, h.ne, h, true_and, decide_false, forall_true_left]
    refine forall_congr' fun h64 => ?_
    simp [h64]

/-! ## The scan -/

theorem findFreeBlock_eq_some : findFreeBlock free = some i ↔
    3 ≤ i ∧ i < 64 ∧ free &&& oneShl i ≠ 0#64 ∧ ∀ j, 3 ≤ j → j < i → free &&& oneShl j = 0#64 := by
  rw [findFreeBlock, SIMPLEFS_MAX_FILESYSTEM_OBJECTS_SUPPORTED,
    find_from_some (p := fun i => free &&& oneShl i != 0)]
  simp only [bne_iff_ne, bne_eq_false_iff_eq]
  rfl

theorem findFreeBlock_none : findFreeBlock free = none ↔
    ∀ i, 3 ≤ i → i < 64 → free &&& oneShl i = 0#64 := by
  rw [findFreeBlock, SIMPLEFS_MAX_FILESYSTEM_OBJECTS_SUPPORTED,
    find_from_none (p := fun i => free &&& oneShl i != 0)]
  simp only [bne_eq_false_iff_eq]
  rfl

theorem and_oneShl_eq_zero (h : i < 31) (hfree : free.getLsbD i = false) : free &&& oneShl i = 0#64 := by
  by_contra hne
  rw [(and_oneShl_low h).1 hne] at hfree
  exact absurd hfree (by decide)

/-- A lowest free block below 31 is found. -/
theorem findFreeBlock_low (h : lowestFree free = some i) (hi : i < 31) : findFreeBlock free = some i := by
  obtain ⟨h3, h64, hfree, hlow⟩ := lowestFree_some.1 h
  exact findFreeBlock_eq_some.2 ⟨h3, h64, (and_oneShl_low hi).2 hfree, fun j h3j hj =>
    and_oneShl_eq_zero (by omega) (hlow j h3j hj)⟩

/-- Block 31 is found in place of any lowest free block from 31 on. -/
theorem findFreeBlock_sign (h : lowestFree free = some i) (hi : 31 ≤ i) : findFreeBlock free = some 31 := by
  obtain ⟨-, h64, hfree, hlow⟩ := lowestFree_some.1 h
  exact findFreeBlock_eq_some.2 ⟨by decide, by decide, and_oneShl_sign.2 ⟨i, hi, h64, hfree⟩,
    fun j h3j hj => and_oneShl_eq_zero hj (hlow j h3j (by omega))⟩

/-- If no block is free, only the masks from 32 on can test a bit. -/
theorem findFreeBlock_none_iff (h : lowestFree free = none) :
    findFreeBlock free = none ↔ ∀ i, 32 ≤ i → i < 64 → free &&& oneShl i = 0#64 := by
  rw [lowestFree_none] at h
  rw [findFreeBlock_none]
  refine ⟨fun hz i h32 h64 => hz i (by omega) h64, fun hz i h3 h64 => ?_⟩
  rcases lt_trichotomy i 31 with hi | rfl | hi
  · exact and_oneShl_eq_zero hi (h i h3 h64)
  · by_contra hne
    obtain ⟨j, h31, h64, hfree⟩ := and_oneShl_sign.1 hne
    rw [h j (by omega) h64] at hfree
    exact absurd hfree (by decide)
  · exact hz i hi h64

/-- Which of the cases of `Exact` can hold. -/
theorem exact_iff_of_none (h : lowestFree free = none) :
    Exact free ↔ ∀ i, 32 ≤ i → i < 64 → free &&& oneShl i = 0#64 := by
  rw [lowestFree_none] at h
  constructor
  · rintro (⟨i, h3, h31, hfree⟩ | honly | ⟨-, hz⟩)
    · rw [h i h3 (by omega)] at hfree
      exact absurd hfree (by decide)
    · have := (honly 31 (by decide) (by decide)).2 rfl
      rw [h 31 (by decide) (by decide)] at this
      exact absurd this (by decide)
    · exact hz
  · exact fun hz => Or.inr (Or.inr ⟨h, hz⟩)

theorem exact_iff_of_high (h : lowestFree free = some i) (hi : 31 ≤ i) :
    Exact free ↔ i = 31 ∧ ∀ j, 31 < j → j < 64 → free.getLsbD j = false := by
  obtain ⟨h3, h64, hfree, hlow⟩ := lowestFree_some.1 h
  constructor
  · rintro (⟨j, h3j, hj, hfree'⟩ | honly | ⟨hnone, -⟩)
    · rw [hlow j h3j (by omega)] at hfree'
      exact absurd hfree' (by decide)
    · refine ⟨(honly i h3 h64).1 hfree, fun j hj hj64 => ?_⟩
      by_contra hne
      have := (honly j (by omega) hj64).1 (by simpa using hne)
      omega
    · rw [hnone i h3 h64] at hfree
      exact absurd hfree (by decide)
  · rintro ⟨rfl, hhigh⟩
    refine Or.inr (Or.inl fun j h3j hj64 => ⟨fun hfree' => ?_, fun hj => hj ▸ hfree⟩)
    rcases lt_trichotomy j 31 with hj | hj | hj
    · rw [hlow j h3j hj] at hfree'
      exact absurd hfree' (by decide)
    · exact hj
    · rw [hhigh j hj hj64] at hfree'
      exact absurd hfree' (by decide)

/-- **Which maps are allocated from as an allocator does.** -/
theorem exec_allocate_iff (s : Fs) : sbGetAFreeblock.exec s = allocate s ↔ Exact s.sb.freeBlocks := by
  rw [exec_sbGetAFreeblock, allocate]
  cases h : lowestFree s.sb.freeBlocks with
  | none =>
    rw [exact_iff_of_none h, ← findFreeBlock_none_iff h]
    cases hf : findFreeBlock s.sb.freeBlocks <;> simp
  | some i =>
    rcases Nat.lt_or_ge i 31 with hi | hi
    · obtain ⟨h3, -, hfree, -⟩ := lowestFree_some.1 h
      rw [findFreeBlock_low h hi]
      refine iff_of_true ?_ (Or.inl ⟨i, h3, hi, hfree⟩)
      simp only [takeBlock, oneShl_low hi]
    · rw [findFreeBlock_sign h hi, exact_iff_of_high h hi, ← clear_sign_iff]
      constructor
      · intro heq
        obtain rfl : 31 = i := by simpa using congrArg Prod.fst heq
        exact ⟨rfl, congrArg (fun r => r.2.sb.freeBlocks) heq⟩
      · rintro ⟨rfl, heq⟩
        simp only [takeBlock, heq]

/-! ## Repeated calls -/

/-- What `n` calls return. -/
def freeblockCalls : ℕ → Fs → List (Except Errno ℕ)
  | 0, _ => []
  | n + 1, s => (sbGetAFreeblock.exec s).1 :: freeblockCalls n (sbGetAFreeblock.exec s).2

/-- The calls return each of the blocks 4 to 63 once, and then fail. -/
def Drains (s : Fs) : Prop :=
  ∃ l : List ℕ, l.Perm (List.range' 4 60) ∧ freeblockCalls 61 s = l.map .ok ++ [.error .enospc]

/-- A block from 32 on. -/
def isHigh : Except Errno ℕ → Bool
  | .ok i => 32 ≤ i
  | .error _ => false

/-- The bits below 3, which no call looks at before it comes to block 32. -/
def lowBits (free : BitVec 64) : ℕ := (free &&& 7#64).toNat

omit [Target] in
theorem lowBits_le (free : BitVec 64) : lowBits free ≤ 7 := by
  rw [lowBits, BitVec.toNat_and]
  exact Nat.and_le_right

omit [Target] in
theorem lowBits_clear_le (free m : BitVec 64) : lowBits (free &&& ~~~ m) ≤ lowBits free := by
  have : free &&& ~~~ m &&& 7#64 = (free &&& 7#64) &&& ~~~ m := by ac_rfl
  rw [lowBits, lowBits, this, BitVec.toNat_and]
  exact Nat.and_le_left

/-- A block from 32 on is returned for a bit below 3, which is cleared. -/
theorem lowBits_clear_lt (h : findFreeBlock free = some i) (hi : 32 ≤ i) :
    lowBits (free &&& ~~~ oneShl i) < lowBits free := by
  obtain ⟨-, -, hne, hlow⟩ := findFreeBlock_eq_some.1 h
  obtain ⟨k, hk, hbit⟩ := ne_zero_iff.1 hne
  rw [BitVec.getLsbD_and, Bool.and_eq_true] at hbit
  have hk3 : k < 3 := by
    by_contra hk3
    rcases Nat.lt_or_ge k 31 with hk31 | hk31
    · exact (and_oneShl_low hk31).2 hbit.1 (hlow k (by omega) (by omega))
    · exact and_oneShl_sign.2 ⟨k, hk31, hk, hbit.1⟩ (hlow 31 (by decide) (by omega))
  refine lt_of_le_of_ne (lowBits_clear_le free _) fun heq => ?_
  have hcleared := congrArg (fun b => b.getLsbD k) (BitVec.eq_of_toNat_eq heq)
  have hseven : (7#64).getLsbD k = true := by
    have : ∀ k < 3, (7#64).getLsbD k = true := by decide
    exact this k hk3
  simp [hbit.1, hbit.2, hseven] at hcleared

theorem lowBits_exec (s : Fs) : lowBits (sbGetAFreeblock.exec s).2.sb.freeBlocks +
    (if isHigh (sbGetAFreeblock.exec s).1 then 1 else 0) ≤ lowBits s.sb.freeBlocks := by
  rw [exec_sbGetAFreeblock]
  cases h : findFreeBlock s.sb.freeBlocks with
  | none => simp [isHigh]
  | some i =>
    by_cases hi : 32 ≤ i
    · simpa [isHigh, hi, takeBlock, Nat.succ_le_iff] using lowBits_clear_lt h hi
    · simpa [isHigh, hi, takeBlock] using lowBits_clear_le s.sb.freeBlocks (oneShl i)

theorem countP_freeblockCalls (n : ℕ) (s : Fs) :
    (freeblockCalls n s).countP isHigh ≤ lowBits s.sb.freeBlocks := by
  induction n generalizing s with
  | zero => simp [freeblockCalls]
  | succ n ih =>
    have := ih (sbGetAFreeblock.exec s).2
    have := lowBits_exec s
    rw [freeblockCalls, List.countP_cons]
    omega

/-- Of the blocks from 32 on, too few are returned. -/
theorem not_drains (s : Fs) : ¬ Drains s := by
  rintro ⟨l, hperm, hcalls⟩
  have hhigh : l.countP (fun i => decide (32 ≤ i)) = 32 := by
    rw [hperm.countP_eq]
    decide
  have hmap : (l.map (Except.ok : ℕ → Except Errno ℕ)).countP isHigh =
      l.countP (fun i => decide (32 ≤ i)) := by
    rw [List.countP_map]
    rfl
  have := countP_freeblockCalls 61 s
  have := lowBits_le s.sb.freeBlocks
  rw [hcalls, List.countP_append, hmap, hhigh] at *
  omega

/-- **The block allocator**: the maps from which it takes the lowest free block and no other; and
    from none are the blocks 4 to 63 taken one after the other. -/
theorem freeblock_iff : (∀ s : Fs, sbGetAFreeblock.exec s = allocate s ↔ Exact s.sb.freeBlocks) ∧
    ∀ s : Fs, ¬ Drains s :=
  ⟨exec_allocate_iff, not_drains⟩

end

/-- A new file system of which the blocks 4 to 30 are taken. -/
def thirtyTaken : Fs := { blankFs with sb := { blankFs.sb with freeBlocks := 0xffffffff80000007#64 } }

/-- With block 31 all blocks from 32 on are taken. -/
theorem thirtyTaken_not_exact :
    (@sbGetAFreeblock x86).exec thirtyTaken ≠ allocate thirtyTaken := by
  intro h
  have hfree := congrArg (fun r => r.2.sb.freeBlocks) h
  revert hfree
  decide +kernel

end Simplefs
