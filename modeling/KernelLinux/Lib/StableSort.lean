/-
  Stable insertion into lists that are sorted by a key.

  `List.orderedInsert` with the strict order of the keys puts an element behind those with an equal key.
  A sorted list is determined by its elements of each key in their order (`eq_of_filter`), so that
  inserting one element after the other is the stable sort (`foldl_insert`).
-/
import Mathlib.Data.List.Sort
import Mathlib.Order.Basic

namespace StableSort

variable {α κ : Type*} [LinearOrder κ] (key : α → κ)

/-- The list is sorted by its keys. -/
def Sorted (xs : List α) : Prop := xs.Pairwise fun a b => key a ≤ key b

/-- `n` goes behind the elements whose key is not larger. -/
def insert (xs : List α) (n : α) : List α := xs.orderedInsert (fun a b => key a < key b) n

variable {key} {n : α} {xs ys ns : List α}

theorem insert_eq (xs : List α) (n : α) :
    insert key xs n = (xs.takeWhile fun a => !decide (key n < key a)) ++
      n :: xs.dropWhile fun a => !decide (key n < key a) := by
  rw [insert, List.orderedInsert_eq_take_drop]
  simp only [decide_not]

theorem perm_insert (xs : List α) (n : α) : (insert key xs n).Perm (n :: xs) :=
  List.perm_orderedInsert _ n xs

theorem Sorted.insert (h : Sorted key xs) : Sorted key (insert key xs n) := by
  induction xs with
  | nil => exact List.pairwise_singleton _ n
  | cons x xs ih =>
    obtain ⟨hx, hxs⟩ := List.pairwise_cons.1 h
    rw [StableSort.insert, List.orderedInsert_cons]
    split_ifs with hlt
    · refine List.pairwise_cons.2 ⟨?_, h⟩
      rw [List.forall_mem_cons]
      exact ⟨hlt.le, fun a ha => hlt.le.trans (hx a ha)⟩
    · refine List.pairwise_cons.2 ⟨fun a ha => ?_, ih hxs⟩
      rcases List.mem_cons.1 ((perm_insert xs n).mem_iff.1 ha) with rfl | ha
      · exact not_lt.1 hlt
      · exact hx a ha

/-- **The order of equal keys is kept**, and the new element is the last of them. -/
theorem filter_insert (h : Sorted key xs) (n : α) (k : κ) :
    (insert key xs n).filter (fun a => key a = k) = (xs ++ [n]).filter fun a => key a = k := by
  induction xs with
  | nil => rfl
  | cons x xs ih =>
    obtain ⟨hx, hxs⟩ := List.pairwise_cons.1 h
    rw [insert, List.orderedInsert_cons]
    split_ifs with hlt
    · by_cases hk : key n = k
      · -- no element behind has the key
        have hnone : (x :: xs).filter (fun a => key a = k) = [] := by
          rw [List.filter_eq_nil_iff, List.forall_mem_cons]
          refine ⟨by simp [← hk, hlt.ne'], fun a ha => ?_⟩
          simp [← hk, (hlt.trans_le (hx a ha)).ne']
        rw [List.filter_cons_of_pos (by simp [hk]), List.filter_append, hnone]
        simp [hk]
      · rw [List.filter_cons_of_neg (by simp [hk]), List.filter_append]
        simp [hk]
    · rw [List.cons_append, List.filter_cons, List.filter_cons, ← ih hxs]
      rfl

/-- **A sorted list is its elements of each key.** -/
theorem eq_of_filter (hx : Sorted key xs) (hy : Sorted key ys)
    (h : ∀ k, xs.filter (fun a => key a = k) = ys.filter fun a => key a = k) : xs = ys := by
  have hmem : ∀ a, a ∈ xs ↔ a ∈ ys := fun a => by
    have ha : a ∈ xs.filter (fun b => key b = key a) ↔ a ∈ ys.filter fun b => key b = key a := by rw [h]
    simpa using ha
  induction xs generalizing ys with
  | nil =>
    cases ys with
    | nil => rfl
    | cons y ys => exact absurd ((hmem y).2 List.mem_cons_self) List.not_mem_nil
  | cons x xs ih =>
    cases ys with
    | nil => exact absurd ((hmem x).1 List.mem_cons_self) List.not_mem_nil
    | cons y ys =>
      obtain ⟨hxle, hxs⟩ := List.pairwise_cons.1 hx
      obtain ⟨hyle, hys⟩ := List.pairwise_cons.1 hy
      have hkey : key x = key y := by
        refine le_antisymm ?_ ?_
        · rcases List.mem_cons.1 ((hmem y).2 List.mem_cons_self) with rfl | hmem'
          · exact le_rfl
          · exact hxle y hmem'
        · rcases List.mem_cons.1 ((hmem x).1 List.mem_cons_self) with rfl | hmem'
          · exact le_rfl
          · exact hyle x hmem'
      have hhead := h (key x)
      rw [List.filter_cons_of_pos (by simp), List.filter_cons_of_pos (by simp [hkey])] at hhead
      obtain ⟨rfl, htail⟩ := List.cons.inj hhead
      have hrest : ∀ k, xs.filter (fun a => key a = k) = ys.filter fun a => key a = k := by
        intro k
        by_cases hk : key x = k
        · rw [← hk]
          exact htail
        · have hall := h k
          rwa [List.filter_cons_of_neg (by simpa using hk), List.filter_cons_of_neg (by simpa using hk)]
            at hall
      refine congrArg (x :: ·) (ih hxs hys hrest fun a => ?_)
      have ha : a ∈ xs.filter (fun b => key b = key a) ↔ a ∈ ys.filter fun b => key b = key a := by
        rw [hrest]
      simpa using ha

/-! ## The stable sort -/

section
variable (key)

theorem sorted_mergeSort (xs : List α) : Sorted key (xs.mergeSort fun a b => key a ≤ key b) := by
  have hsorted : (xs.mergeSort fun a b => key a ≤ key b).Pairwise fun a b => decide (key a ≤ key b) :=
    List.pairwise_mergeSort
      (fun a b c hab hbc => decide_eq_true ((of_decide_eq_true hab).trans (of_decide_eq_true hbc)))
      (fun a b => by simpa using le_total (key a) (key b)) xs
  exact hsorted.imp fun h => of_decide_eq_true h

theorem filter_mergeSort (xs : List α) (k : κ) :
    (xs.mergeSort fun a b => key a ≤ key b).filter (fun a => key a = k) =
      xs.filter fun a => key a = k := by
  have hequal : (xs.filter fun a => key a = k).Pairwise fun a b => decide (key a ≤ key b) = true := by
    refine List.pairwise_of_forall_mem_list fun a ha b hb => ?_
    simp only [List.mem_filter, decide_eq_true_eq] at ha hb
    exact decide_eq_true (ha.2.trans hb.2.symm).le
  have hsub : (xs.filter fun a => key a = k).Sublist (xs.mergeSort fun a b => key a ≤ key b) :=
    List.sublist_mergeSort
      (fun a b c hab hbc => decide_eq_true ((of_decide_eq_true hab).trans (of_decide_eq_true hbc)))
      (fun a b => by simpa using le_total (key a) (key b)) hequal List.filter_sublist
  have hfilter := hsub.filter fun a => decide (key a = k)
  rw [List.filter_filter] at hfilter
  simp only [Bool.and_self] at hfilter
  refine (hfilter.eq_of_length ?_).symm
  exact ((List.mergeSort_perm xs _).filter _).length_eq.symm

end

/-- **Insertion of one element after the other is the stable sort.** -/
theorem foldl_insert (h : Sorted key xs) : ns.foldl (insert key) xs =
    (xs ++ ns).mergeSort fun a b => key a ≤ key b := by
  have hfold : Sorted key (ns.foldl (insert key) xs) ∧ ∀ k,
      (ns.foldl (insert key) xs).filter (fun a => key a = k) = (xs ++ ns).filter fun a => key a = k := by
    induction ns generalizing xs with
    | nil => exact ⟨h, fun k => by rw [List.append_nil, List.foldl_nil]⟩
    | cons n ns ih =>
      obtain ⟨hsorted, hfilter⟩ := ih h.insert
      refine ⟨hsorted, fun k => ?_⟩
      rw [List.foldl_cons, hfilter, List.filter_append, filter_insert h, ← List.filter_append,
        List.append_assoc, List.singleton_append]
  refine eq_of_filter hfold.1 (sorted_mergeSort key _) fun k => ?_
  rw [hfold.2, filter_mergeSort]

end StableSort
