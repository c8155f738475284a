/-
  simplefs — which slot `simplefs_inode_search` finds.

  The loop looks at a slot before it compares its index with `inodes_count`, and at the slot where it
  ended once more.  So it looks at one slot more than are counted, unless it has found the number
  before, and if that slot happens to hold the number it is the one that is returned.

  * `FindsCounted`, `SavesCounted`: the search is one of the counted slots, and the inode is saved there;
  * `inodeSearch_eq`: what the search finds in general;
  * `inodeSave_iff`: a number is searched for among the counted slots only if one of them has it.
-/
import KernelLinux.Simplefs.Inside

namespace Simplefs.Buffers

open Bytes Prog

/-! ## Search -/

/-- The first counted slot with the number that is searched for. -/
def countedSlot (g : Image) (search : SimplefsInode) : Option ℕ :=
  (List.range g.sb.inodesCount).find? fun i => (g.store i).inodeNo == search.number

/-- The search finds that slot, and looks at no other than counted ones. -/
structure FindsCounted (g : Image) (search : SimplefsInode) : Prop where
  result : inodeSearch g search = countedSlot g search
  reads : ∀ i, .slot i ∈ searched g search → i < g.sb.inodesCount

section
variable {g : Image} {y : SimplefsInode} {i : ℕ}

theorem slot_mem_searched : .slot i ∈ searched g y ↔
    i ≤ g.sb.inodesCount ∧ ∀ j < i, (g.store j).inodeNo ≠ y.number := by
  rw [searched, slots, List.mem_map]
  simp only [Access.slot.injEq, exists_eq_right, mem_visits_zero, Nat.lt_succ_iff, beq_eq_false_iff_ne]

theorem countedSlot_some : countedSlot g y = some i ↔
    i < g.sb.inodesCount ∧ (g.store i).inodeNo = y.number ∧
      ∀ j < i, (g.store j).inodeNo ≠ y.number := by
  rw [countedSlot, find_range]
  simp only [beq_iff_eq, beq_eq_false_iff_ne]

theorem countedSlot_none : countedSlot g y = none ↔
    ∀ i < g.sb.inodesCount, (g.store i).inodeNo ≠ y.number := by
  rw [countedSlot, find_range_none]
  simp only [beq_eq_false_iff_ne]

/-- The slot behind the counted ones is found if it has the number and none of them has. -/
theorem inodeSearch_eq (g : Image) (y : SimplefsInode) : inodeSearch g y =
    match countedSlot g y with
    | some i => some i
    | none => if (g.store g.sb.inodesCount).inodeNo = y.number then some g.sb.inodesCount else none := by
  cases h : countedSlot g y with
  | some i =>
    obtain ⟨hi, hno, hfirst⟩ := countedSlot_some.1 h
    exact inodeSearch_some.2 ⟨hi.le, hno, hfirst⟩
  | none =>
    have hnone := countedSlot_none.1 h
    dsimp only
    split_ifs with hlast
    · exact inodeSearch_some.2 ⟨le_rfl, hlast, hnone⟩
    · cases hj : inodeSearch g y with
      | none => rfl
      | some j =>
        obtain ⟨hle, hno, -⟩ := inodeSearch_some.1 hj
        rcases Nat.lt_or_eq_of_le hle with hlt | rfl
        · exact absurd hno (hnone j hlt)
        · exact absurd hno hlast

/-- **When the search keeps to the counted slots**: if it finds the number there. -/
theorem findsCounted_iff : FindsCounted g y ↔ ∃ i < g.sb.inodesCount, (g.store i).inodeNo = y.number := by
  constructor
  · intro h
    by_contra hnone
    simp only [not_exists, not_and] at hnone
    exact (h.reads g.sb.inodesCount (slot_mem_searched.2 ⟨le_rfl, hnone⟩)).false
  · rintro ⟨i, hi, hno⟩
    obtain ⟨j, hj⟩ : ∃ j, countedSlot g y = some j := by
      refine Option.ne_none_iff_exists'.1 fun hnone => ?_
      exact countedSlot_none.1 hnone i hi hno
    refine ⟨by rw [inodeSearch_eq, hj], fun k hk => ?_⟩
    obtain ⟨-, hfirst⟩ := slot_mem_searched.1 hk
    by_contra hlt
    exact hfirst i (by omega) hno

end

/-! ## Save -/

/-- What a save of the private inode at address `p` does, with `simplefs_sb_lock` free: it changes the
    counted slot with the inode's number, and looks at no other than counted ones. -/
structure SavesCounted (intr : Site → Bool) (c i : Bool) (s : Traced) (p : ℕ) : Prop where
  finds : FindsCounted s.mem.image (s.mem.sfs p)
  saved : intr .saveSb = false → ∃ s', (inodeSave p).run Site.mutex intr s (held c i false) =
      some ((match countedSlot s.mem.image (s.mem.sfs p) with
        | some _ => .ok ()
        | none => .error .eio), s', held c i false) ∧
    s'.mem = (match countedSlot s.mem.image (s.mem.sfs p) with
      | some k => s.mem.setSlot k ((s.mem.priv p).getD fun _ => 0)
      | none => s.mem) ∧
    ∀ k, .slot k ∈ s'.touched → .slot k ∈ s.touched ∨ k < s.mem.image.sb.inodesCount
  interrupted : intr .saveSb = true →
    (inodeSave p).run Site.mutex intr s (held c i false) = some (.error .eintr, s, held c i false)

/-- **When a save keeps to the counted slots.** -/
theorem inodeSave_iff (intr : Site → Bool) (c i : Bool) (s : Traced) (p : ℕ) :
    SavesCounted intr c i s p ↔
      ∃ k < s.mem.image.sb.inodesCount, (s.mem.image.store k).inodeNo = (s.mem.sfs p).number := by
  refine ⟨fun h => findsCounted_iff.1 h.finds, fun h => ?_⟩
  have hfinds := findsCounted_iff.2 h
  have hrun := run_inodeSave intr s p c i
  refine ⟨hfinds, fun hs => ?_, fun hs => by rw [hrun, if_pos hs]⟩
  have hreads : ∀ k, .slot k ∈ s.touched ++ searched s.mem.image (s.mem.sfs p) →
      .slot k ∈ s.touched ∨ k < s.mem.image.sb.inodesCount := fun k hk =>
    (List.mem_append.1 hk).imp_right (hfinds.reads k)
  rw [hs, if_neg Bool.false_ne_true, hfinds.result, saveSlot, hfinds.result] at hrun
  cases hc : countedSlot s.mem.image (s.mem.sfs p) with
  | none =>
    rw [hc] at hrun
    exact ⟨_, hrun, rfl, hreads⟩
  | some k =>
    rw [hc] at hrun
    exact ⟨_, hrun, rfl, hreads⟩

/-- One inode is counted, with the number 1; the slot behind it holds the number 5. -/
def staleSlots : Mem where
  blocks b o := if b = 0 ∧ o = 24 ∨ b = 1 ∧ o = 8 then 1 else if b = 1 ∧ o = 48 then 5 else 0
  inodes _ := some ⟨5, S_IFREG, some fun o => if o = 8 then 5 else 0⟩
  dcache _ _ := none

/-- **A slot that is not counted is found**, and overwritten. -/
theorem staleSlots_saved : staleSlots.image.sb.inodesCount = 1 ∧
    inodeSearch staleSlots.image (staleSlots.sfs 2) = some 1 ∧
    ¬ SavesCounted (fun _ => false) false false ⟨staleSlots, []⟩ 2 := by
  have hcount : staleSlots.image.sb.inodesCount = 1 := by decide
  refine ⟨hcount, by decide, fun h => ?_⟩
  obtain ⟨k, hk, hno⟩ := (inodeSave_iff _ _ _ _ _).1 h
  rw [hcount, Nat.lt_one_iff] at hk
  subst hk
  exact absurd hno (by decide)

end Simplefs.Buffers
