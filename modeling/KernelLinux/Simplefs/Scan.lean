/-
  simplefs — what the scans of the inode store and of a directory find.

  Each scan returns the first index with some property.  Under the store
  invariant that index is known: `simplefs_inode_search` finds the slot with a
  live number (or, one past the counted slots, whatever lies there),
  `simplefs_inode_add` the dead slot `simplefs_get_dead_inode_no` gave out,
  `simplefs_unlink` and `simplefs_lookup` the record that names a slot.
-/
import KernelLinux.Simplefs.Inv

namespace Simplefs

open Bytes

/-! ## First indices -/

theorem find_range {p : ℕ → Bool} {n i : ℕ} :
    (List.range n).find? p = some i ↔ i < n ∧ p i = true ∧ ∀ j < i, p j = false := by
  rw [List.find?_range_eq_some]
  simp only [List.mem_range, Bool.not_eq_true']
  tauto

theorem find_range_none {p : ℕ → Bool} {n : ℕ} :
    (List.range n).find? p = none ↔ ∀ i < n, p i = false := by
  rw [List.find?_range_eq_none]
  simp

/-- A property with one index below the bound is found there. -/
theorem find_range_unique {p : ℕ → Bool} {n i : ℕ} (hi : i < n) (hp : p i = true)
    (hu : ∀ j < n, p j = true → j = i) : (List.range n).find? p = some i := by
  refine find_range.2 ⟨hi, hp, fun j hj => ?_⟩
  by_contra h
  have := hu j (by omega) (by simpa using h)
  omega

theorem searchLoop_some {store : ℕ → SimplefsInode} {tmp j : ℕ} : ∀ {n i : ℕ},
    searchLoop store tmp n i = some j ↔
      i ≤ j ∧ j ≤ i + n ∧ (store j).inodeNo = tmp ∧ ∀ l, i ≤ l → l < j → (store l).inodeNo ≠ tmp
  | 0, i => by
    unfold searchLoop
    split_ifs with h
    · constructor
      · rintro ⟨⟩
        exact ⟨le_rfl, le_rfl, h, fun l h1 h2 => absurd h2 (by omega)⟩
      · rintro ⟨h1, h2, -, -⟩
        rw [show i = j by omega]
    · refine iff_of_false (by simp) ?_
      rintro ⟨h1, h2, h3, -⟩
      exact h (by rwa [show i = j by omega])
  | n + 1, i => by
    unfold searchLoop
    split_ifs with h
    · constructor
      · rintro ⟨⟩
        exact ⟨le_rfl, by omega, h, fun l h1 h2 => absurd h2 (by omega)⟩
      · rintro ⟨h1, -, -, h4⟩
        by_cases hij : i = j
        · rw [hij]
        · exact absurd h (h4 i le_rfl (by omega))
    · rw [searchLoop_some (n := n)]
      constructor
      · rintro ⟨h1, h2, h3, h4⟩
        refine ⟨by omega, by omega, h3, fun l hl hlj => ?_⟩
        by_cases hil : l = i
        · rwa [hil]
        · exact h4 l (by omega) hlj
      · rintro ⟨h1, h2, h3, h4⟩
        have hij : i ≠ j := fun hij => h (by rwa [hij])
        exact ⟨by omega, by omega, h3, fun l hl hlj => h4 l (by omega) hlj⟩

/-- `simplefs_inode_search` looks for a slot whose `inode_no` is the number of its argument, one
    slot further than the counted ones. -/
theorem inodeSearch_some {g : Image} {y : SimplefsInode} {j : ℕ} : inodeSearch g y = some j ↔
    j ≤ g.sb.inodesCount ∧ (g.store j).inodeNo = y.number ∧
      ∀ l < j, (g.store l).inodeNo ≠ y.number := by
  have : inodeSearch g y = searchLoop g.store y.number g.sb.inodesCount 0 := rfl
  rw [this, searchLoop_some]
  simp

/-! ## Slots -/

theorem firstDead_some {g : Image} {k : ℕ} : firstDead g = some k ↔
    k < g.sb.inodesCount ∧ (g.store k).inodeNo = 0 ∧ ∀ j < k, (g.store j).inodeNo ≠ 0 := by
  rw [firstDead, find_range]
  simp

theorem findFreeBlock_some [Target] {free : BitVec 64} {i : ℕ} (h : findFreeBlock free = some i) :
    3 ≤ i ∧ i < SIMPLEFS_MAX_FILESYSTEM_OBJECTS_SUPPORTED ∧ free &&& oneShl i ≠ 0 := by
  obtain ⟨h1, h2, -⟩ := find_range.1 h
  simp only [Bool.and_eq_true, decide_eq_true_eq, bne_iff_ne, ne_eq] at h2
  exact ⟨h2.1, h1, h2.2⟩

namespace StoreInv
variable [Target] {g : Image} (H : StoreInv g)
include H

/-- A dead slot is the only one with its number. -/
theorem findDead {k : ℕ} (hk : k < g.sb.inodesCount) (h0 : (g.store k).inodeNo = 0) :
    findDead g (g.store k).deadInodeNo = some k := by
  refine find_range_unique hk (by simp [h0]) fun j hj h => ?_
  simp only [Bool.and_eq_true, beq_iff_eq] at h
  refine H.number_inj j hj k hk ?_
  rw [SimplefsInode.number_dead h.1, SimplefsInode.number_dead h0, h.2]

/-- A search for a live number finds its slot. -/
theorem search_live {k : ℕ} {y : SimplefsInode} (hk : g.Live k)
    (hy : y.number = (g.store k).inodeNo) : inodeSearch g y = some k := by
  refine inodeSearch_some.2 ⟨hk.1.le, hy.symm, fun j hj h => ?_⟩
  have hlive : g.Live j := ⟨by have := hk.1; omega, by rw [h, hy]; exact hk.2⟩
  have := H.live_inj hlive hk (h.trans hy)
  omega

omit H [Target] in
/-- A search for a number no live slot has finds nothing among the counted slots. -/
theorem search_dead {j : ℕ} {y : SimplefsInode} (h0 : y.number ≠ 0)
    (hy : ∀ k, g.Live k → (g.store k).inodeNo ≠ y.number) (h : inodeSearch g y = some j) :
    j = g.sb.inodesCount := by
  obtain ⟨h1, h2, -⟩ := inodeSearch_some.1 h
  by_contra hj
  exact hy j ⟨by omega, by rw [h2]; exact h0⟩ h2

theorem getInode_live {k : ℕ} (hk : g.Live k) :
    getInode g (g.store k).inodeNo = some (g.store k) := by
  have : (List.range g.sb.inodesCount).find? (fun i => (g.store i).inodeNo == (g.store k).inodeNo)
      = some k := by
    refine find_range_unique hk.1 (by simp) fun j hj h => ?_
    have h' := beq_iff_eq.1 h
    exact H.live_inj ⟨hj, by rw [h']; exact hk.2⟩ hk h'
  rw [getInode, this]
  rfl

/-! ## Records -/

theorem findIno_entry {d r k : ℕ} (he : g.Entry d r k) :
    findIno (g.block d) (g.store d).dirChildrenCount (g.store k).inodeNo = some r := by
  refine find_range_unique he.counted (by simp [he.ino]) fun r' hr' h => ?_
  have h' := beq_iff_eq.1 h
  exact (H.entry_inj d r' d r k ⟨he.dir, hr', he.live, h'⟩ he).2

theorem findName_some {d r : ℕ} {x : Name} (hd : g.LiveDir d)
    (h : findName (g.block d) (g.store d).dirChildrenCount x = some r) :
    ∃ k, g.Entry d r k ∧ recIs (g.block d) r x = true := by
  obtain ⟨hr, hp, -⟩ := find_range.1 h
  simp only [Bool.and_eq_true, bne_iff_ne, ne_eq] at hp
  obtain ⟨k, hk⟩ := H.names_live d r hd hr hp.2
  exact ⟨k, hk, hp.1⟩

omit H [Target] in
theorem findName_none {d : ℕ} {x : Name}
    (h : findName (g.block d) (g.store d).dirChildrenCount x = none) {r k : ℕ}
    (he : g.Entry d r k) : recIs (g.block d) r x = false := by
  have := find_range_none.1 h r he.counted
  simpa [he.ino_ne] using this

end StoreInv

theorem firstTombstone_some {b : Block} {n r : ℕ} (h : firstTombstone b n = some r) :
    r < n ∧ recIno b r = 0 := by
  obtain ⟨h1, h2, -⟩ := find_range.1 h
  exact ⟨h1, by simpa using h2⟩

theorem firstTombstone_none {b : Block} {n : ℕ} (h : firstTombstone b n = none) :
    ∀ r < n, recIno b r ≠ 0 := by
  intro r hr
  simpa using find_range_none.1 h r hr

end Simplefs
