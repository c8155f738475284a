/-
  The search tree of `data_struct/kernel_rbtree/rbtree.c`.

  The module keeps its nodes in a red-black tree of the kernel.  It goes down the tree itself, and
  leaves the balancing to the kernel (`Kernel`), which keeps the order of the nodes, whatever the tree
  looks like afterwards.

  * `myRbSearch`, `myRbInsert`, `searchAndReplace`, `deleteTree`: the functions, with the number of
    rounds that their loops may make;
  * `Op.apply`: the finite map that is meant, from the values to the nodes that hold them;
  * `Refines`: the tree is ordered by its values and holds what the map says;
  * `search_ends`, `insert_present`, `insert_absent`, `replace_ends`, `delete_ends`: the functions;
  * `runOps_isMap`: after any operations the tree is the finite map.
-/
import KernelLinux.Rbtree.Kernel
import Mathlib.Data.Int.Order.Basic

namespace Rbtree
open SearchTree

/-- The tree and the `value` of each node. -/
structure Mem (α C : Type*) where
  rb : Rb α C
  value : α → ℤ

section
variable {α C : Type*} [DecidableEq α]

/-- A new node from `kmalloc`, with its value. -/
def Mem.alloc (m : Mem α C) (newnode : α) (value : ℤ) : Mem α C :=
  { m with value := Function.update m.value newnode value }

/-- `initTree` -/
def initTree (m : Mem α C) : Mem α C :=
  { m with rb := ⟨{ m.rb.links with root := none }, m.rb.parentColor⟩ }

/-- `my_rb_search` -/
def myRbSearch (fuel : ℕ) (m : Mem α C) (value : ℤ) : Option (Option α) :=
  Loop.run (m.rb.links.findStep m.value value) fuel m.rb.links.root

variable (K : Kernel α C)

/-- `my_rb_insert` behind its loop: with the link and its parent, or with none if the node exists. -/
def linkNew (m : Mem α C) (newnode : α) : Option (TreeSlot α × Option α) → ℤ × Mem α C
  | none => (1, m)
  | some (link, parent) =>
    (0, { m with rb := K.rbInsertColor (K.rbLinkNode m.rb newnode parent link) newnode })

/-- `my_rb_insert` -/
def myRbInsert (fuel : ℕ) (m : Mem α C) (newnode : α) : Option (ℤ × Mem α C) :=
  (Loop.run (m.rb.links.descendStep m.value (m.value newnode)) fuel (.root, none)).map
    (linkNew K m newnode)

/-- `searchAndReplace` behind its search; `newnode` is `none` if `kmalloc` failed. -/
def replaceFound (m : Mem α C) (target : ℤ) : Option α → Option α → Mem α C
  | some newnode, some pnode =>
    { m.alloc newnode target with rb := K.rbReplaceNode m.rb pnode newnode }
  | _, _ => m

/-- `searchAndReplace`, for any target. -/
def searchAndReplace (fuel : ℕ) (m : Mem α C) (target : ℤ) (newnode : Option α) : Option (Mem α C) :=
  (myRbSearch fuel m target).map (replaceFound K m target newnode)

/-- One round of `deleteTree`, with the nodes that were visited. -/
def deleteStep : Option α × Rb α C × List α → (Option α × Rb α C × List α) ⊕ (Rb α C × List α)
  | (none, rb, visited) => .inr (rb, visited)
  | (some thisnode, rb, visited) =>
    .inl (K.rbNext rb thisnode, K.rbErase rb thisnode, visited ++ [thisnode])

/-- `deleteTree` -/
def deleteTree (fuel : ℕ) (rb : Rb α C) : Option (Rb α C × List α) :=
  Loop.run (deleteStep K) fuel (K.rbFirst rb, rb, [])

/-- What may be done with the tree. -/
inductive Op (α : Type*) where
  | insert (newnode : α) (value : ℤ)
  | replace (target : ℤ) (newnode : Option α)

def exec (fuel : ℕ) (m : Mem α C) : Op α → Option (Mem α C)
  | .insert newnode value => (myRbInsert K fuel (m.alloc newnode value) newnode).map Prod.snd
  | .replace target newnode => searchAndReplace K fuel m target newnode

/-- Operations one after the other. -/
def runOps (fuel : ℕ) : List (Op α) → Mem α C → Option (Mem α C)
  | [], m => some m
  | op :: ops, m => (exec K fuel m op).bind (runOps fuel ops)

/-! ## The finite map -/

namespace Op

/-- What an operation does to the map from the values to the nodes that hold them. -/
def apply (holder : ℤ → Option α) : Op α → ℤ → Option α
  | insert newnode value =>
    if holder value = none then Function.update holder value (some newnode) else holder
  | replace _ none => holder
  | replace target (some newnode) =>
    if holder target = none then holder else Function.update holder target (some newnode)

/-- The node that an operation brings. -/
def node : Op α → Option α
  | insert newnode _ => some newnode
  | replace _ newnode => newnode

end Op

/-- The map after operations on an empty tree. -/
def holders (ops : List (Op α)) : ℤ → Option α := ops.foldl Op.apply fun _ => none

/-- Each operation brings a node that is not in the tree. -/
def Fresh : (ℤ → Option α) → List (Op α) → Prop
  | _, [] => True
  | holder, op :: ops =>
    (∀ n, op.node = some n → ∀ v, holder v ≠ some n) ∧ Fresh (Op.apply holder op) ops

/-- A value was inserted. -/
def Inserted (ops : List (Op α)) (v : ℤ) : Prop := ∃ newnode, Op.insert newnode v ∈ ops

/-- The tree is ordered by its values, and holds what the map says. -/
def Refines (IsRb : Rb α C → BinaryTree α → Prop) (m : Mem α C) (holder : ℤ → Option α) : Prop :=
  ∃ t, IsRb m.rb t ∧ Ordered m.value t ∧ ∀ v a, holder v = some a ↔ a ∈ inorder t ∧ m.value a = v

variable {K} {IsRb : Rb α C → BinaryTree α → Prop} {m : Mem α C} {holder : ℤ → Option α} {n : α} {v : ℤ}

omit [DecidableEq α] in
theorem holder_eq_find {t : BinaryTree α} (h : Ordered m.value t)
    (hholder : ∀ v a, holder v = some a ↔ a ∈ inorder t ∧ m.value a = v) (v : ℤ) :
    find m.value v t = holder v := by
  ext a
  rw [find_iff h, hholder]

/-! ## The functions -/

/-- **`my_rb_search`** returns the node that holds the value. -/
theorem search_ends (hK : K.Documented IsRb) (h : Refines IsRb m holder) (v : ℤ) :
    Ends (fun fuel => myRbSearch fuel m v) (holder v) := by
  obtain ⟨t, hrb, hordered, hholder⟩ := h
  rw [← holder_eq_find hordered hholder]
  exact TreeLinks.find_ends (hK.tree hrb).1

/-- A new node outside of the tree. -/
theorem alloc_refines (h : Refines IsRb m holder) (hn : ∀ v, holder v ≠ some n) (v : ℤ) :
    Refines IsRb (m.alloc n v) holder := by
  obtain ⟨t, hrb, hordered, hholder⟩ := h
  have hvalue : ∀ a ∈ inorder t, (m.alloc n v).value a = m.value a := fun a ha => by
    refine Function.update_of_ne ?_ _ _
    rintro rfl
    exact hn (m.value a) ((hholder _ a).2 ⟨ha, rfl⟩)
  refine ⟨t, hrb, ?_, fun w a => ?_⟩
  · refine List.Pairwise.imp_of_mem (fun {a b} ha hb hab => ?_) hordered
    rwa [hvalue a ha, hvalue b hb]
  · rw [hholder]
    exact and_congr_right fun ha => by rw [hvalue a ha]

/-- **`my_rb_insert` of a value that is present** changes nothing. -/
theorem insert_present (hK : K.Documented IsRb) (h : Refines IsRb m holder)
    (hv : holder (m.value n) ≠ none) : Ends (fun fuel => myRbInsert K fuel m n) (1, m) := by
  obtain ⟨t, hrb, hordered, hholder⟩ := h
  have hends := TreeLinks.descend_ends (s := .root) (hK.tree hrb).1 m.value (m.value n) none
  rw [holder_eq_find hordered hholder, if_pos (Option.isSome_iff_ne_none.2 hv)] at hends
  exact hends.map (linkNew K m n)

/-- **`my_rb_insert` of a value that is not present** puts the node into the tree. -/
theorem insert_absent (hK : K.Documented IsRb) (h : Refines IsRb m holder)
    (hn : ∀ v, holder v ≠ some n) (hv : holder (m.value n) = none) :
    ∃ m', Ends (fun fuel => myRbInsert K fuel m n) (0, m') ∧
      Refines IsRb m' (Function.update holder (m.value n) (some n)) := by
  obtain ⟨t, hrb, hordered, hholder⟩ := h
  obtain ⟨htree, hnodup⟩ := hK.tree hrb
  have hnt : n ∉ inorder t := fun hmem => hn _ ((hholder _ n).2 ⟨hmem, rfl⟩)
  have habsent : ∀ a ∈ inorder t, m.value a ≠ m.value n := by
    intro a ha hav
    rw [(hholder _ a).2 ⟨ha, hav⟩] at hv
    cases hv
  have hends := TreeLinks.descend_ends (s := .root) htree m.value (m.value n) none
  have hget := TreeLinks.bottom_get (s := .root) htree m.value (m.value n) none
  have hcases := bottom_cases m.value (m.value n) (.root, none) t
  have hroot : TreeLinks.Apart .root (n :: inorder t) := fun a _ => ⟨by rintro ⟨⟩, by rintro ⟨⟩⟩
  have hleaf := TreeLinks.holds_link (s := .root) htree hroot (List.nodup_cons.2 ⟨hnt, hnodup⟩)
    m.value none
  rw [holder_eq_find hordered hholder, hv] at hends
  rcases hbottom : bottom m.value (m.value n) (.root, none) t with ⟨link, parent⟩
  rw [hbottom] at hends hget hcases hleaf
  rw [← hK.rbLinkNode m.rb n parent link] at hleaf
  obtain ⟨t', hrb', hinorder⟩ := hK.rbInsertColor hrb hnt ⟨hget, hcases⟩ hleaf (perm_addLeaf t)
  refine ⟨_, hends.map (linkNew K m n), t', hrb', ?_, fun v a => ?_⟩
  · rw [Ordered, hinorder]
    exact ordered_addLeaf hordered habsent
  · rw [hinorder, (perm_addLeaf t).mem_iff, List.mem_cons]
    by_cases hvn : v = m.value n
    · rw [hvn, Function.update_self, Option.some.injEq]
      constructor
      · rintro rfl
        exact ⟨Or.inl rfl, rfl⟩
      · rintro ⟨rfl | ha, hav⟩
        · rfl
        · exact absurd hav (habsent a ha)
    · rw [Function.update_of_ne hvn, hholder]
      constructor
      · rintro ⟨ha, hav⟩
        exact ⟨Or.inr ha, hav⟩
      · rintro ⟨rfl | ha, hav⟩
        · exact absurd hav.symm hvn
        · exact ⟨ha, hav⟩

/-- The new node in the place of the one that holds the target. -/
theorem replaced_refines (hK : K.Documented IsRb) (h : Refines IsRb m holder) {target : ℤ} {a : α}
    (hfound : holder target = some a) (hn : ∀ v, holder v ≠ some n) :
    Refines IsRb (replaceFound K m target (some n) (some a))
      (Function.update holder target (some n)) := by
  obtain ⟨t, hrb, hordered, hholder⟩ := h
  obtain ⟨ha, hvalue⟩ := (hholder target a).1 hfound
  have hnt : n ∉ inorder t := fun hmem => hn _ ((hholder _ n).2 ⟨hmem, rfl⟩)
  obtain ⟨t', hrb', hinorder⟩ := hK.rbReplaceNode hrb ha hnt
  -- the value of a node is that of the node in its place
  have hsame : ∀ b ∈ inorder t, (m.alloc n target).value (if b = a then n else b) = m.value b := by
    intro b hb
    split_ifs with hba
    · rw [hba, hvalue]
      exact Function.update_self _ _ _
    · refine Function.update_of_ne ?_ _ _
      rintro rfl
      exact hnt hb
  have hplace : ∀ b ∈ inorder t, m.value b = target ↔ b = a := by
    intro b hb
    constructor
    · exact fun hbt => Option.some.inj (((hholder target b).2 ⟨hb, hbt⟩).symm.trans hfound)
    · rintro rfl
      exact hvalue
  refine ⟨t', hrb', ?_, fun v c => ?_⟩
  · rw [Ordered, hinorder, List.pairwise_map]
    refine List.Pairwise.imp_of_mem (fun {b c} hb hc hbc => ?_) hordered
    exact (hsame b hb).trans_lt (hbc.trans_eq (hsame c hc).symm)
  rw [hinorder, List.mem_map]
  by_cases hv : v = target
  · rw [hv, Function.update_self, Option.some.injEq]
    constructor
    · rintro rfl
      exact ⟨⟨a, ha, if_pos rfl⟩, Function.update_self _ _ _⟩
    · rintro ⟨⟨b, hb, rfl⟩, hc⟩
      rw [if_pos ((hplace b hb).1 ((hsame b hb).symm.trans hc))]
  · rw [Function.update_of_ne hv, hholder]
    have hother : ∀ b ∈ inorder t, m.value b = v → b ≠ a := fun b hb hbv hba =>
      hv (hbv.symm.trans ((hplace b hb).2 hba))
    constructor
    · rintro ⟨hc, hcv⟩
      have hkept : (if c = a then n else c) = c := if_neg (hother c hc hcv)
      have hc' := hsame c hc
      rw [hkept] at hc'
      exact ⟨⟨c, hc, hkept⟩, hc'.trans hcv⟩
    · rintro ⟨⟨b, hb, rfl⟩, hc⟩
      have hbv := (hsame b hb).symm.trans hc
      rw [if_neg (hother b hb hbv)]
      exact ⟨hb, hbv⟩

/-- **`searchAndReplace`** puts the new node in the place of the one that holds the value. -/
theorem replace_ends (hK : K.Documented IsRb) (h : Refines IsRb m holder) (target : ℤ)
    (newnode : Option α) (hn : ∀ n, newnode = some n → ∀ v, holder v ≠ some n) :
    ∃ m', Ends (fun fuel => searchAndReplace K fuel m target newnode) m' ∧
      Refines IsRb m' (Op.apply holder (.replace target newnode)) := by
  refine ⟨_, (search_ends hK h target).map (replaceFound K m target newnode), ?_⟩
  cases newnode with
  | none => exact h
  | some n =>
    rw [Op.apply]
    cases hfound : holder target with
    | none =>
      rw [if_pos rfl]
      exact h
    | some a =>
      rw [if_neg (Option.some_ne_none a)]
      exact replaced_refines hK h hfound (hn n rfl)

/-- **`deleteTree`** visits the nodes from left to right, each once, and leaves the empty tree. -/
theorem delete_ends (hK : K.Documented IsRb) {rb : Rb α C} {t : BinaryTree α} (h : IsRb rb t) :
    ∃ rb', Ends (fun fuel => deleteTree K fuel rb) (rb', inorder t) ∧ rb'.links.root = none := by
  have hloop : ∀ (xs visited : List α) (rb : Rb α C) (t : BinaryTree α), IsRb rb t → inorder t = xs →
      ∃ rb', Ends (fun fuel => Loop.run (deleteStep K) fuel (xs.head?, rb, visited))
        (rb', visited ++ xs) ∧ rb'.links.root = none := by
    intro xs
    induction xs with
    | nil =>
      intro visited rb t hrb hinorder
      obtain rfl := inorder_eq_nil hinorder
      rw [List.append_nil]
      exact ⟨rb, Loop.ends_leave rfl, (hK.tree hrb).1⟩
    | cons a xs ih =>
      intro visited rb t hrb hinorder
      have hsplit : inorder t = [] ++ a :: xs := hinorder
      have ha : a ∈ inorder t := by rw [hinorder]; exact List.mem_cons_self
      obtain ⟨t', hrb', hinorder'⟩ := hK.rbErase hrb ha
      rw [hinorder, List.erase_cons_head] at hinorder'
      obtain ⟨rb', hends, hroot⟩ := ih (visited ++ [a]) _ t' hrb' hinorder'
      rw [← hK.rbNext hrb hsplit, List.append_assoc] at hends
      have hstep : deleteStep K (some a, rb, visited) =
        .inl (K.rbNext rb a, K.rbErase rb a, visited ++ [a]) := rfl
      exact ⟨rb', (Loop.ends_continue hstep).2 hends, hroot⟩
  rw [← List.nil_append (inorder t)]
  have hfirst := hK.rbFirst h
  obtain ⟨rb', hends, hroot⟩ := hloop (inorder t) [] rb t h rfl
  rw [← hfirst] at hends
  exact ⟨rb', hends, hroot⟩

/-! ## Runs -/

/-- **One operation** ends, and does to the tree what it does to the map. -/
theorem exec_ends (hK : K.Documented IsRb) (h : Refines IsRb m holder) (op : Op α)
    (hn : ∀ n, op.node = some n → ∀ v, holder v ≠ some n) :
    ∃ m', Ends (fun fuel => exec K fuel m op) m' ∧ Refines IsRb m' (Op.apply holder op) := by
  cases op with
  | insert n v =>
    have halloc := alloc_refines h (hn n rfl) v
    have hvalue : (m.alloc n v).value n = v := Function.update_self _ _ _
    by_cases hv : holder v = none
    · obtain ⟨m', hends, hrefines⟩ := insert_absent hK halloc (hn n rfl) (by rwa [hvalue])
      rw [hvalue] at hrefines
      refine ⟨m', hends.map Prod.snd, ?_⟩
      rwa [Op.apply, if_pos hv]
    · have hends := insert_present hK halloc (n := n) (by rwa [hvalue])
      refine ⟨_, hends.map Prod.snd, ?_⟩
      rwa [Op.apply, if_neg hv]
  | replace target newnode => exact replace_ends hK h target newnode hn

/-- **Operations one after the other.** -/
theorem runOps_ends (hK : K.Documented IsRb) {ops : List (Op α)} (h : Refines IsRb m holder)
    (hfresh : Fresh holder ops) :
    ∃ m', Ends (fun fuel => runOps K fuel ops m) m' ∧ Refines IsRb m' (ops.foldl Op.apply holder) := by
  induction ops generalizing m holder with
  | nil => exact ⟨m, Ends.pure m, h⟩
  | cons op ops ih =>
    obtain ⟨m₁, hends₁, h₁⟩ := exec_ends hK h op hfresh.1
    obtain ⟨m', hends, h'⟩ := ih h₁ hfresh.2
    exact ⟨m', (Ends.bind_iff hends₁).2 hends, h'⟩

omit [DecidableEq α] in
theorem apply_ne_none (holder : ℤ → Option α) (op : Op α) (v : ℤ) :
    Op.apply holder op v ≠ none ↔ holder v ≠ none ∨ ∃ n, op = .insert n v := by
  cases op with
  | insert n w =>
    rw [Op.apply]
    by_cases hw : holder w = none
    · rw [if_pos hw]
      by_cases hv : v = w
      · subst hv
        simp
      · simp [Function.update_of_ne hv, Ne.symm hv]
    · rw [if_neg hw]
      refine (or_iff_left_of_imp ?_).symm
      rintro ⟨_, ⟨⟩⟩
      exact hw
  | replace target newnode =>
    have hnot : ¬ ∃ n, Op.replace target newnode = .insert n v := by rintro ⟨_, ⟨⟩⟩
    rw [or_iff_left hnot]
    cases newnode with
    | none => exact Iff.rfl
    | some n =>
      rw [Op.apply]
      by_cases ht : holder target = none
      · rw [if_pos ht]
      · rw [if_neg ht]
        by_cases hv : v = target
        · subst hv
          simp [ht]
        · rw [Function.update_of_ne hv]

omit [DecidableEq α] in
/-- The map holds the values that were inserted. -/
theorem holders_ne_none (ops : List (Op α)) (v : ℤ) : holders ops v ≠ none ↔ Inserted ops v := by
  have hfold : ∀ (ops : List (Op α)) (holder : ℤ → Option α),
      ops.foldl Op.apply holder v ≠ none ↔ holder v ≠ none ∨ Inserted ops v := by
    intro ops
    induction ops with
    | nil =>
      intro holder
      refine (or_iff_left ?_).symm
      rintro ⟨_, hn⟩
      exact List.not_mem_nil hn
    | cons op ops ih =>
      intro holder
      rw [List.foldl_cons, ih, apply_ne_none, or_assoc]
      refine or_congr_right ?_
      simp only [Inserted, List.mem_cons, exists_or]
      exact or_congr_left ⟨fun ⟨n, h⟩ => ⟨n, h.symm⟩, fun ⟨n, h⟩ => ⟨n, h.symm⟩⟩
  rw [holders, hfold, or_iff_right]
  exact fun h => h rfl

variable (K) in
/-- The tree in memory is `t`, and the finite map of the operations. -/
structure IsMap (m : Mem α C) (t : BinaryTree α) (ops : List (Op α)) : Prop where
  tree : m.rb.links.Holds m.rb.links.root t
  sorted : ((inorder t).map m.value).Pairwise (· < ·)
  values : ∀ v, v ∈ (inorder t).map m.value ↔ Inserted ops v
  holder : ∀ v a, holders ops v = some a ↔ a ∈ inorder t ∧ m.value a = v
  /-- a search ends with the node that holds the value, or with none if it was never inserted -/
  search : ∀ v, Ends (fun fuel => myRbSearch fuel m v) (holders ops v)
  search_none : ∀ v, holders ops v = none ↔ ¬ Inserted ops v
  /-- one more insertion ends, with 1 and the same tree if and only if the value is present -/
  insert : ∀ n v, (∀ w, holders ops w ≠ some n) → ∃ ret m', Ends (fun fuel =>
    myRbInsert K fuel (m.alloc n v) n) (ret, m') ∧ (ret = 1 ∧ m'.rb = m.rb ↔ Inserted ops v) ∧
      (ret = 0 ↔ ¬ Inserted ops v)
  /-- `deleteTree` visits every node once and leaves no tree -/
  delete : ∃ rb', Ends (fun fuel => deleteTree K fuel m.rb) (rb', inorder t) ∧ rb'.links.root = none
  nodup : (inorder t).Nodup

theorem initTree_refines (hK : K.Documented IsRb) (m : Mem α C) :
    Refines IsRb (initTree m) fun _ => none := by
  refine ⟨.nil, hK.rbRoot m.rb.links m.rb.parentColor, List.Pairwise.nil, fun v a => ?_⟩
  refine iff_of_false (by rintro ⟨⟩) ?_
  rintro ⟨ha, -⟩
  exact List.not_mem_nil ha

/-- **The tree is a finite map**, after any operations. -/
theorem runOps_isMap {K : Kernel α C} {IsRb : Rb α C → BinaryTree α → Prop} (hK : K.Documented IsRb)
    (m₀ : Mem α C) {ops : List (Op α)} (hfresh : Fresh (fun _ => none) ops) :
    ∃ m t, Ends (fun fuel => runOps K fuel ops (initTree m₀)) m ∧ IsMap K m t ops := by
  obtain ⟨m, hends, hrefines⟩ := runOps_ends hK (initTree_refines hK m₀) hfresh
  obtain ⟨t, hrb, hordered, hholder⟩ := id hrefines
  have hnone : ∀ v, holders ops v = none ↔ ¬ Inserted ops v := fun v => by
    rw [← holders_ne_none, not_not]
  refine ⟨m, t, hends, (hK.tree hrb).1, List.pairwise_map.2 hordered, fun v => ?_, hholder,
    search_ends hK hrefines, hnone, fun n v hn => ?_, delete_ends hK hrb, (hK.tree hrb).2⟩
  · rw [← holders_ne_none, Option.ne_none_iff_exists', List.mem_map]
    exact exists_congr fun a => (hholder v a).symm
  · have halloc := alloc_refines hrefines hn v
    have hvalue : (m.alloc n v).value n = v := Function.update_self _ _ _
    by_cases hv : holders ops v = none
    · have hnot := (hnone v).1 hv
      obtain ⟨m', hends', -⟩ := insert_absent hK halloc hn (by rw [hvalue]; exact hv)
      refine ⟨0, m', hends', iff_of_false ?_ hnot, iff_of_true rfl hnot⟩
      rintro ⟨⟨⟩, -⟩
    · have hin := (holders_ne_none ops v).1 hv
      have hends' := insert_present hK halloc (n := n) (by rw [hvalue]; exact hv)
      refine ⟨1, _, hends', iff_of_true ⟨rfl, rfl⟩ hin, iff_of_false ?_ (not_not.2 hin)⟩
      rintro ⟨⟩

end

/-- An empty memory, and two insertions and a replacement. -/
def emptyMem : Mem ℕ ℕ := ⟨⟨⟨none, fun _ => none, fun _ => none⟩, 0⟩, fun _ => 0⟩

def someOps : List (Op ℕ) := [.insert 1 5, .insert 2 7, .replace 5 (some 3)]

theorem someOps_fresh : Fresh (fun _ => none) someOps := by
  have hfirst : ∀ v, Op.apply (fun _ => none) (.insert 1 5) v = if v = 5 then some 1 else none :=
    fun v => by simp [Op.apply, Function.update_apply]
  have hsecond : ∀ v, Op.apply (Op.apply (fun _ => none) (.insert 1 5)) (.insert 2 7) v =
      if v = 7 then some 2 else if v = 5 then some 1 else none :=
    fun v => by simp [Op.apply, Function.update_apply]
  refine ⟨?_, ?_, ?_, trivial⟩
  · rintro n - v ⟨⟩
  · rintro n ⟨⟩ v
    rw [hfirst]
    split_ifs <;> decide
  · rintro n ⟨⟩ v
    rw [hsecond]
    split_ifs <;> decide

theorem someOps_isMap : unbalanced.Documented IsTree ∧ Fresh (fun _ => none) someOps ∧
    ∃ m t, Ends (fun fuel => runOps unbalanced fuel someOps (initTree emptyMem)) m ∧
      IsMap unbalanced m t someOps :=
  ⟨unbalanced_documented, someOps_fresh, runOps_isMap unbalanced_documented emptyMem someOps_fresh⟩

end Rbtree
