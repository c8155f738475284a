/-
  Red-black trees of the kernel, as the module of `data_struct/kernel_rbtree` uses them.

  The functions of the kernel are a parameter, `Kernel`, and `Kernel.Documented` is what is documented
  of them: a node that was linked at an empty link is balanced, another is erased or replaced, and the
  nodes keep their order; `rb_first` and `rb_next` follow this order.

  `unbalanced` has all of it and never balances (`unbalanced_documented`).
-/
import KernelLinux.Lib.SearchTree

namespace Rbtree
open SearchTree

/-- What the functions of the kernel work on: the links, and what it keeps in `rb_parent_color`. -/
structure Rb (α C : Type*) where
  links : TreeLinks α
  parentColor : C

/-- The functions of the kernel. -/
structure Kernel (α C : Type*) where
  rbLinkNode : Rb α C → α → Option α → TreeSlot α → Rb α C
  rbInsertColor : Rb α C → α → Rb α C
  rbErase : Rb α C → α → Rb α C
  rbReplaceNode : Rb α C → α → α → Rb α C
  rbFirst : Rb α C → Option α
  rbNext : Rb α C → α → Option α

section
variable {α C : Type*} [DecidableEq α] (K : Kernel α C)

/-- An empty link of the tree, and the node that it belongs to. -/
def EmptyLink (l : TreeLinks α) (t : BinaryTree α) (parent : Option α) (link : TreeSlot α) : Prop :=
  l.get link = none ∧ (t = .nil ∧ (link, parent) = (.root, none) ∨
    ∃ a ∈ inorder t, (link, parent) = (.left a, some a) ∨ (link, parent) = (.right a, some a))

/-- The functions on red-black trees; `IsRb rb t` says that `rb` is one, with the nodes of `t`. -/
structure Kernel.Documented (IsRb : Rb α C → BinaryTree α → Prop) : Prop where
  tree {rb t} : IsRb rb t → rb.links.Holds rb.links.root t ∧ (inorder t).Nodup
  rbRoot (l : TreeLinks α) (c : C) : IsRb ⟨{ l with root := none }, c⟩ .nil
  rbLinkNode (rb : Rb α C) (n : α) (parent : Option α) (link : TreeSlot α) :
    (K.rbLinkNode rb n parent link).links = rb.links.link n link
  /-- a new leaf is balanced, and the nodes keep their order -/
  rbInsertColor {rb t t₁ n parent link} : IsRb rb t → n ∉ inorder t →
    EmptyLink rb.links t parent link →
    (K.rbLinkNode rb n parent link).links.Holds (K.rbLinkNode rb n parent link).links.root t₁ →
    (inorder t₁).Perm (n :: inorder t) →
    ∃ t', IsRb (K.rbInsertColor (K.rbLinkNode rb n parent link) n) t' ∧ inorder t' = inorder t₁
  /-- the remaining nodes keep their order -/
  rbErase {rb t a} : IsRb rb t → a ∈ inorder t →
    ∃ t', IsRb (K.rbErase rb a) t' ∧ inorder t' = (inorder t).erase a
  rbReplaceNode {rb t a n} : IsRb rb t → a ∈ inorder t → n ∉ inorder t →
    ∃ t', IsRb (K.rbReplaceNode rb a n) t' ∧
      inorder t' = (inorder t).map fun b => if b = a then n else b
  rbFirst {rb t} : IsRb rb t → K.rbFirst rb = (inorder t).head?
  rbNext {rb t as a bs} : IsRb rb t → inorder t = as ++ a :: bs → K.rbNext rb a = bs.head?

end

/-! ## A kernel that does not balance -/

/-- The nodes below a pointer from left to right, down to `n` levels. -/
def nodesBelow (l : TreeLinks ℕ) : ℕ → Option ℕ → List ℕ
  | 0, _ => []
  | _ + 1, none => []
  | n + 1, some a => nodesBelow l n (l.left a) ++ a :: nodesBelow l n (l.right a)

/-- The nodes of a tree that has no more than `parentColor`. -/
def nodes (rb : Rb ℕ ℕ) : List ℕ := nodesBelow rb.links rb.parentColor rb.links.root

/-- What comes after `a`. -/
def after (xs : List ℕ) (a : ℕ) : Option ℕ := (xs.dropWhile (· ≠ a)).tail.head?

/-- A tree without left children. -/
def spine (xs : List ℕ) : TreeLinks ℕ := ⟨xs.head?, fun _ => none, after xs⟩

/-- The links with `n` in the place of `a`. -/
def rename (l : TreeLinks ℕ) (a n : ℕ) : TreeLinks ℕ :=
  ⟨l.root.map fun b => if b = a then n else b,
    fun c => (l.left (if c = n then a else c)).map fun b => if b = a then n else b,
    fun c => (l.right (if c = n then a else c)).map fun b => if b = a then n else b⟩

/-- Trees that are never balanced, with a bound of the number of their nodes. -/
def unbalanced : Kernel ℕ ℕ where
  rbLinkNode rb n _ link := ⟨rb.links.link n link, rb.parentColor + 1⟩
  rbInsertColor rb _ := rb
  rbErase rb a := ⟨spine ((nodes rb).erase a), rb.parentColor⟩
  rbReplaceNode rb a n := ⟨rename rb.links a n, rb.parentColor⟩
  rbFirst rb := (nodes rb).head?
  rbNext rb a := after (nodes rb) a

structure IsTree (rb : Rb ℕ ℕ) (t : BinaryTree ℕ) : Prop where
  holds : rb.links.Holds rb.links.root t
  nodup : (inorder t).Nodup
  bound : (inorder t).length ≤ rb.parentColor

theorem nodesBelow_eq {l : TreeLinks ℕ} {n : ℕ} {p : Option ℕ} {t : BinaryTree ℕ} (h : l.Holds p t)
    (hn : (inorder t).length ≤ n) : nodesBelow l n p = inorder t := by
  induction t generalizing n p with
  | nil =>
    cases h
    cases n <;> rfl
  | node a tl tr ihl ihr =>
    obtain ⟨rfl, hl, hr⟩ := h
    rw [inorder, List.length_append, List.length_cons] at hn
    cases n with
    | zero => omega
    | succ n => rw [nodesBelow, inorder, ihl hl (by omega), ihr hr (by omega)]

theorem IsTree.nodes_eq {rb : Rb ℕ ℕ} {t : BinaryTree ℕ} (h : IsTree rb t) : nodes rb = inorder t :=
  nodesBelow_eq h.holds h.bound

theorem after_eq {as bs : List ℕ} {a : ℕ} (h : (as ++ a :: bs).Nodup) :
    after (as ++ a :: bs) a = bs.head? := by
  have has : ∀ b ∈ as, decide (b ≠ a) = true := fun b hb =>
    decide_eq_true ((List.nodup_append.1 h).2.2 b hb a List.mem_cons_self)
  rw [after, List.dropWhile_append_of_pos has, List.dropWhile_cons_of_neg (by simp), List.tail_cons]

/-- The tree of a spine. -/
def spineTree : List ℕ → BinaryTree ℕ
  | [] => .nil
  | x :: xs => .node x .nil (spineTree xs)

theorem inorder_spineTree (xs : List ℕ) : inorder (spineTree xs) = xs := by
  induction xs with
  | nil => rfl
  | cons x xs ih => rw [spineTree, inorder, ih]; rfl

theorem spine_holds {xs : List ℕ} (h : xs.Nodup) : (spine xs).Holds (spine xs).root (spineTree xs) := by
  have hpart : ∀ as bs, xs = as ++ bs → (spine xs).Holds bs.head? (spineTree bs) := by
    intro as bs
    induction bs generalizing as with
    | nil => exact fun _ => rfl
    | cons b bs ih =>
      intro hxs
      refine ⟨rfl, rfl, ?_⟩
      have hafter : (spine xs).right b = bs.head? := by
        subst hxs
        exact after_eq h
      rw [hafter]
      exact ih (as ++ [b]) (by rw [hxs, List.append_assoc]; rfl)
  exact hpart [] xs rfl

theorem inorder_map {α β : Type*} (f : α → β) (t : BinaryTree α) :
    inorder (t.map f) = (inorder t).map f := by
  induction t with
  | nil => rfl
  | node a l r ihl ihr => rw [BinaryTree.map, inorder, inorder, ihl, ihr, List.map_append, List.map_cons]

theorem rename_holds {l : TreeLinks ℕ} {p : Option ℕ} {t : BinaryTree ℕ} {a n : ℕ} (h : l.Holds p t)
    (hn : n ∉ inorder t) : (rename l a n).Holds (p.map fun b => if b = a then n else b)
      (t.map fun b => if b = a then n else b) := by
  induction t generalizing p with
  | nil =>
    cases h
    rfl
  | node c tl tr ihl ihr =>
    obtain ⟨rfl, hl, hr⟩ := h
    rw [inorder, List.mem_append, List.mem_cons, not_or, not_or] at hn
    have hback : (if (if c = a then n else c) = n then a else if c = a then n else c) = c := by
      by_cases hca : c = a
      · rw [if_pos hca, if_pos rfl, hca]
      · rw [if_neg hca, if_neg (Ne.symm hn.2.1)]
    refine ⟨rfl, ?_, ?_⟩
    · simp only [rename, hback]
      exact ihl hl hn.1
    · simp only [rename, hback]
      exact ihr hr hn.2.2

theorem unbalanced_documented : unbalanced.Documented IsTree where
  tree h := ⟨h.holds, h.nodup⟩
  rbRoot _ _ := ⟨rfl, List.nodup_nil, Nat.zero_le _⟩
  rbLinkNode _ _ _ _ := rfl
  rbInsertColor {_ _ t₁ _ _ _} h hn _ hholds hperm := by
    refine ⟨t₁, ⟨hholds, ?_, ?_⟩, rfl⟩
    · exact hperm.nodup_iff.2 (List.nodup_cons.2 ⟨hn, h.nodup⟩)
    · rw [hperm.length_eq, List.length_cons]
      exact Nat.succ_le_succ h.bound
  rbErase {rb t a} h ha := by
    have hnodes := h.nodes_eq
    refine ⟨spineTree ((inorder t).erase a), ⟨?_, ?_, ?_⟩, inorder_spineTree _⟩
    · simp only [unbalanced, hnodes]
      exact spine_holds (h.nodup.erase a)
    · rw [inorder_spineTree]
      exact h.nodup.erase a
    · rw [inorder_spineTree]
      exact (List.length_erase_le).trans h.bound
  rbReplaceNode {rb t a n} h ha hn := by
    refine ⟨t.map fun b => if b = a then n else b, ⟨rename_holds h.holds hn, ?_, ?_⟩, inorder_map _ t⟩
    · rw [inorder_map]
      refine h.nodup.map_on fun b hb c hc hbc => ?_
      split_ifs at hbc with hba hca hca
      · rw [hba, hca]
      · exact absurd (hbc ▸ hc) hn
      · exact absurd (hbc ▸ hb) hn
      · exact hbc
    · rw [inorder_map, List.length_map]
      exact h.bound
  rbFirst h := congrArg List.head? h.nodes_eq
  rbNext {rb t as a bs} h hsplit := by
    have hnodup := h.nodup
    rw [hsplit] at hnodup
    show after (nodes rb) a = _
    rw [h.nodes_eq, hsplit, after_eq hnodup]

end Rbtree
