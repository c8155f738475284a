/-
  Binary search trees in memory, with nodes and keys of any type.

  A tree is a root pointer and the child links of its nodes.  A pointer to a link is a `TreeSlot`.

  * `Holds l p t`: the links from the pointer `p` on are those of the tree `t`;
  * `inorder`, `Ordered key t`: the nodes from left to right, their keys strictly increasing;
  * `find`, `find_ends`: what a search finds;
  * `bottom`, `descend_ends`: where a pointer to a link gets that goes down to the place of a key;
  * `holds_link`: a node that is linked there is a new leaf, and the tree stays ordered
    (`ordered_addLeaf`).
-/
import KernelLinux.Lib.Loop
import Mathlib.Data.List.Nodup
import Mathlib.Data.Tree.Basic
import Mathlib.Logic.Function.Basic
import Mathlib.Order.Lattice

/-- Where a link of a tree is stored. -/
inductive TreeSlot (α : Type*) where
  | root
  | left (a : α)
  | right (a : α)

/-- The links of a tree. -/
structure TreeLinks (α : Type*) where
  root : Option α
  left : α → Option α
  right : α → Option α

namespace SearchTree
variable {α κ : Type*}

/-- The nodes from left to right. -/
def inorder : BinaryTree α → List α
  | .nil => []
  | .node a l r => inorder l ++ a :: inorder r

theorem inorder_eq_nil {t : BinaryTree α} (h : inorder t = []) : t = .nil := by
  cases t with
  | nil => rfl
  | node a l r => simp [inorder] at h

section
variable [LinearOrder κ] (key : α → κ)

/-- The keys increase from left to right. -/
def Ordered (t : BinaryTree α) : Prop := (inorder t).Pairwise fun a b => key a < key b

/-- The node with the key `v`. -/
def find (v : κ) : BinaryTree α → Option α
  | .nil => none
  | .node a l r => if v < key a then find v l else if key a < v then find v r else some a

/-- The tree with the new leaf `n`. -/
def addLeaf (n : α) : BinaryTree α → BinaryTree α
  | .nil => .node n .nil .nil
  | .node a l r => if key n < key a then .node a (addLeaf n l) r else .node a l (addLeaf n r)

/-- The empty link at the place of the key `v`, and the node that it belongs to. -/
def bottom (v : κ) : TreeSlot α × Option α → BinaryTree α → TreeSlot α × Option α
  | link, .nil => link
  | _, .node a l r => if v < key a then bottom v (.left a, some a) l else bottom v (.right a, some a) r

variable {key} {t l r : BinaryTree α} {a n : α} {v : κ}

theorem ordered_node : Ordered key (.node a l r) ↔ Ordered key l ∧ Ordered key r ∧
    (∀ b ∈ inorder l, key b < key a) ∧ ∀ b ∈ inorder r, key a < key b := by
  simp only [Ordered, inorder, List.pairwise_append, List.pairwise_cons, List.forall_mem_cons]
  constructor
  · rintro ⟨hl, ⟨har, hr⟩, hlr⟩
    exact ⟨hl, hr, fun b hb => (hlr b hb).1, har⟩
  · rintro ⟨hl, hr, hla, har⟩
    exact ⟨hl, ⟨har, hr⟩, fun b hb => ⟨hla b hb, fun c hc => (hla b hb).trans (har c hc)⟩⟩

theorem find_mem (h : find key v t = some a) : a ∈ inorder t ∧ key a = v := by
  induction t with
  | nil => cases h
  | node b l r ihl ihr =>
    simp only [find, inorder, List.mem_append, List.mem_cons] at h ⊢
    split_ifs at h with hlt hgt
    · exact ⟨Or.inl (ihl h).1, (ihl h).2⟩
    · exact ⟨Or.inr (Or.inr (ihr h).1), (ihr h).2⟩
    · cases h
      exact ⟨Or.inr (Or.inl rfl), le_antisymm (not_lt.1 hlt) (not_lt.1 hgt)⟩

/-- **A search finds the node with the key.** -/
theorem find_iff (h : Ordered key t) : find key v t = some a ↔ a ∈ inorder t ∧ key a = v := by
  refine ⟨find_mem, ?_⟩
  rintro ⟨ha, rfl⟩
  induction t with
  | nil => cases ha
  | node b l r ihl ihr =>
    obtain ⟨hl, hr, hlb, hbr⟩ := ordered_node.1 h
    rw [find]
    rcases List.mem_append.1 ha with ha | ha
    · rw [if_pos (hlb a ha), ihl hl ha]
    rcases List.mem_cons.1 ha with rfl | ha
    · rw [if_neg (lt_irrefl _), if_neg (lt_irrefl _)]
    · rw [if_neg (hbr a ha).asymm, if_pos (hbr a ha), ihr hr ha]

theorem perm_addLeaf (t : BinaryTree α) : (inorder (addLeaf key n t)).Perm (n :: inorder t) := by
  induction t with
  | nil => exact List.Perm.refl _
  | node a l r ihl ihr =>
    rw [addLeaf]
    split_ifs
    · exact ihl.append_right _
    · refine (List.Perm.append_left _ (ihr.cons a)).trans ?_
      exact (List.Perm.append_left _ (List.Perm.swap n a _)).trans List.perm_middle

/-- A new leaf keeps the order of the keys. -/
theorem ordered_addLeaf (h : Ordered key t) (hn : ∀ a ∈ inorder t, key a ≠ key n) :
    Ordered key (addLeaf key n t) := by
  induction t with
  | nil => exact List.pairwise_singleton _ n
  | node a l r ihl ihr =>
    obtain ⟨hl, hr, hla, har⟩ := ordered_node.1 h
    have hleft : ∀ b ∈ inorder l, key b ≠ key n := fun b hb => hn b (List.mem_append_left _ hb)
    have hright : ∀ b ∈ inorder r, key b ≠ key n := fun b hb =>
      hn b (List.mem_append_right _ (List.mem_cons_of_mem a hb))
    rw [addLeaf]
    split_ifs with hlt
    · refine ordered_node.2 ⟨ihl hl hleft, hr, fun b hb => ?_, har⟩
      rcases List.mem_cons.1 ((perm_addLeaf l).mem_iff.1 hb) with rfl | hb
      · exact hlt
      · exact hla b hb
    · refine ordered_node.2 ⟨hl, ihr hr hright, hla, fun b hb => ?_⟩
      rcases List.mem_cons.1 ((perm_addLeaf r).mem_iff.1 hb) with rfl | hb
      · exact (not_lt.1 hlt).lt_of_ne (hn a (List.mem_append_right _ List.mem_cons_self))
      · exact har b hb

/-- The empty link is the one that was given, or belongs to a node of the tree. -/
theorem bottom_cases (key : α → κ) (v : κ) (link : TreeSlot α × Option α) (t : BinaryTree α) :
    t = .nil ∧ bottom key v link t = link ∨ ∃ a ∈ inorder t,
      bottom key v link t = (.left a, some a) ∨ bottom key v link t = (.right a, some a) := by
  induction t generalizing link with
  | nil => exact Or.inl ⟨rfl, rfl⟩
  | node a l r ihl ihr =>
    refine Or.inr ?_
    rw [bottom, inorder]
    split_ifs
    · rcases ihl (.left a, some a) with ⟨-, h⟩ | ⟨b, hb, h⟩
      · exact ⟨a, List.mem_append_right _ List.mem_cons_self, Or.inl h⟩
      · exact ⟨b, List.mem_append_left _ hb, h⟩
    · rcases ihr (.right a, some a) with ⟨-, h⟩ | ⟨b, hb, h⟩
      · exact ⟨a, List.mem_append_right _ List.mem_cons_self, Or.inr h⟩
      · exact ⟨b, List.mem_append_right _ (List.mem_cons_of_mem a hb), h⟩

end

end SearchTree

namespace TreeLinks
open SearchTree
variable {α κ : Type*} (m : TreeLinks α)

/-- `*slot` -/
def get : TreeSlot α → Option α
  | .root => m.root
  | .left a => m.left a
  | .right a => m.right a

/-- `*slot = p` -/
def set [DecidableEq α] : TreeSlot α → Option α → TreeLinks α
  | .root, p => { m with root := p }
  | .left a, p => { m with left := Function.update m.left a p }
  | .right a, p => { m with right := Function.update m.right a p }

/-- The links from `p` on are those of the tree. -/
def Holds : Option α → BinaryTree α → Prop
  | p, .nil => p = none
  | p, .node a l r => p = some a ∧ Holds (m.left a) l ∧ Holds (m.right a) r

section
variable [LinearOrder κ] (key : α → κ) (v : κ)

/-- The body of a loop that moves a pointer down to the node with the key `v`. -/
def findStep : Option α → Option α ⊕ Option α
  | none => .inr none
  | some a =>
    if key a > v then .inl (m.left a) else if key a < v then .inl (m.right a) else .inr (some a)

/-- The body of a loop that moves a pointer to a link, and the node it belongs to, down to the place of
    the key `v`; it is left without them if a node has the key. -/
def descendStep : TreeSlot α × Option α → (TreeSlot α × Option α) ⊕ Option (TreeSlot α × Option α)
  | (link, parent) =>
    match m.get link with
    | none => .inr (some (link, parent))
    | some a =>
      if key a > v then .inl (.left a, some a)
      else if key a < v then .inl (.right a, some a)
      else .inr none

variable {m key v} {t : BinaryTree α} {p : Option α} {s : TreeSlot α}

theorem find_ends (h : m.Holds p t) : Ends (fun n => Loop.run (m.findStep key v) n p) (find key v t) := by
  induction t generalizing p with
  | nil =>
    cases h
    exact Loop.ends_leave rfl
  | node a l r ihl ihr =>
    obtain ⟨rfl, hl, hr⟩ := h
    rw [find]
    split_ifs with hlt hgt
    · have hstep : m.findStep key v (some a) = .inl (m.left a) := by rw [findStep, if_pos hlt]
      exact (Loop.ends_continue hstep).2 (ihl hl)
    · have hstep : m.findStep key v (some a) = .inl (m.right a) := by
        rw [findStep, if_neg hlt, if_pos hgt]
      exact (Loop.ends_continue hstep).2 (ihr hr)
    · refine Loop.ends_leave ?_
      rw [findStep, if_neg hlt, if_neg hgt]

/-- **Where the descent ends**: at the place of the key, unless it meets the key. -/
theorem descend_ends (h : m.Holds (m.get s) t) (key : α → κ) (v : κ) (p : Option α) :
    Ends (fun n => Loop.run (m.descendStep key v) n (s, p))
      (if (find key v t).isSome then none else some (bottom key v (s, p) t)) := by
  induction t generalizing s p with
  | nil =>
    refine Loop.ends_leave ?_
    simp only [descendStep, show m.get s = none from h]
    rfl
  | node a l r ihl ihr =>
    obtain ⟨hs, hl, hr⟩ := h
    rcases lt_trichotomy v (key a) with hlt | heq | hgt
    · have hstep : m.descendStep key v (s, p) = .inl (.left a, some a) := by
        simp only [descendStep, hs, gt_iff_lt, hlt, if_true]
      rw [find, bottom, if_pos hlt, if_pos hlt]
      exact (Loop.ends_continue hstep).2 (ihl (s := .left a) hl _)
    · have hstep : m.descendStep key v (s, p) = .inr none := by
        simp only [descendStep, hs, gt_iff_lt, heq, lt_irrefl, if_false]
      rw [find, if_neg heq.not_lt, if_neg heq.not_gt]
      exact Loop.ends_leave hstep
    · have hstep : m.descendStep key v (s, p) = .inl (.right a, some a) := by
        simp only [descendStep, hs, gt_iff_lt, hgt, hgt.asymm, if_true, if_false]
      rw [find, bottom, if_neg hgt.asymm, if_pos hgt, if_neg hgt.asymm]
      exact (Loop.ends_continue hstep).2 (ihr (s := .right a) hr _)

theorem bottom_get (h : m.Holds (m.get s) t) (key : α → κ) (v : κ) (p : Option α) :
    m.get (bottom key v (s, p) t).1 = none := by
  induction t generalizing s p with
  | nil => exact h
  | node a l r ihl ihr =>
    rw [bottom]
    split_ifs
    · exact ihl (s := .left a) h.2.1 _
    · exact ihr (s := .right a) h.2.2 _

end

/-! ## Linking a leaf -/

section
variable {m} [DecidableEq α] {p : Option α} {s u : TreeSlot α}

theorem get_set_self : (m.set s p).get s = p := by
  cases s with
  | root => rfl
  | left a => exact Function.update_self a p m.left
  | right a => exact Function.update_self a p m.right

theorem get_set_of_ne (h : u ≠ s) : (m.set s p).get u = m.get u := by
  cases s with
  | root =>
    cases u with
    | root => exact absurd rfl h
    | left b => rfl
    | right b => rfl
  | left a =>
    cases u with
    | root => rfl
    | left b => exact Function.update_of_ne (fun hba => h (congrArg TreeSlot.left hba)) p m.left
    | right b => rfl
  | right a =>
    cases u with
    | root => rfl
    | left b => rfl
    | right b => exact Function.update_of_ne (fun hba => h (congrArg TreeSlot.right hba)) p m.right

end

/-- Links that agree on the nodes of a tree hold it alike. -/
theorem Holds.congr {m m' : TreeLinks α} {p : Option α} {t : BinaryTree α} (h : m.Holds p t)
    (hm : ∀ a ∈ inorder t, m'.left a = m.left a ∧ m'.right a = m.right a) : m'.Holds p t := by
  induction t generalizing p with
  | nil => exact h
  | node a l r ihl ihr =>
    obtain ⟨hp, hl, hr⟩ := h
    obtain ⟨hla, hra⟩ := hm a (List.mem_append_right _ List.mem_cons_self)
    refine ⟨hp, ?_, ?_⟩
    · rw [hla]
      exact ihl hl fun b hb => hm b (List.mem_append_left _ hb)
    · rw [hra]
      exact ihr hr fun b hb => hm b (List.mem_append_right _ (List.mem_cons_of_mem a hb))

section
variable [DecidableEq α]

/-- What is stored to link the node `n` at an empty link: its own links are emptied first. -/
def link (n : α) (s : TreeSlot α) : TreeLinks α :=
  ((m.set (.left n) none).set (.right n) none).set s (some n)

variable {m} {n : α} {s u : TreeSlot α}

theorem link_get_self : (m.link n s).get s = some n := get_set_self

theorem link_get_of_ne (hs : u ≠ s) (hl : u ≠ .left n) (hr : u ≠ .right n) :
    (m.link n s).get u = m.get u :=
  (get_set_of_ne hs).trans ((get_set_of_ne hr).trans (get_set_of_ne hl))

theorem link_left (h : s ≠ .left n) : (m.link n s).left n = none :=
  (get_set_of_ne (u := .left n) h.symm).trans
    ((get_set_of_ne (u := .left n) (by rintro ⟨⟩)).trans (get_set_self (s := .left n)))

theorem link_right (h : s ≠ .right n) : (m.link n s).right n = none :=
  (get_set_of_ne (u := .right n) h.symm).trans (get_set_self (s := .right n))

/-- The link `s` belongs to none of the nodes. -/
def Apart (s : TreeSlot α) (xs : List α) : Prop := ∀ a ∈ xs, s ≠ .left a ∧ s ≠ .right a

omit [DecidableEq α] in
theorem apart_left {a : α} {xs : List α} (h : a ∉ xs) : Apart (.left a) xs := fun b hb =>
  ⟨by rintro ⟨⟩; exact h hb, by rintro ⟨⟩⟩

omit [DecidableEq α] in
theorem apart_right {a : α} {xs : List α} (h : a ∉ xs) : Apart (.right a) xs := fun b hb =>
  ⟨by rintro ⟨⟩, by rintro ⟨⟩; exact h hb⟩

variable [LinearOrder κ] {key : α → κ} {v : κ} {t : BinaryTree α} {p : Option α}

omit [DecidableEq α] in
theorem bottom_ne (hs : u ≠ s) (h : Apart u (inorder t)) : u ≠ (bottom key v (s, p) t).1 := by
  rcases bottom_cases key v (s, p) t with ⟨-, hb⟩ | ⟨a, ha, hb | hb⟩
  · rw [hb]
    exact hs
  · rw [hb]
    exact (h a ha).1
  · rw [hb]
    exact (h a ha).2

/-- Linking a node below the link `s` changes no tree elsewhere. -/
theorem holds_elsewhere {q : Option α} {r : BinaryTree α} (h : m.Holds q r) (hn : n ∉ inorder r)
    (hs : Apart s (inorder r)) (ht : ∀ a ∈ inorder r, a ∉ inorder t) :
    (m.link n (bottom key v (s, p) t).1).Holds q r := by
  refine h.congr fun a ha => ?_
  have han : a ∉ [n] := fun h => hn (List.mem_singleton.1 h ▸ ha)
  constructor
  · obtain ⟨hl, hr⟩ := apart_left han n (List.mem_singleton_self n)
    exact link_get_of_ne (u := .left a) (bottom_ne (hs a ha).1.symm (apart_left (ht a ha))) hl hr
  · obtain ⟨hl, hr⟩ := apart_right han n (List.mem_singleton_self n)
    exact link_get_of_ne (u := .right a) (bottom_ne (hs a ha).2.symm (apart_right (ht a ha))) hl hr

/-- **A node that is linked at the place of its key** is a new leaf of the tree. -/
theorem holds_link (h : m.Holds (m.get s) t) (hs : Apart s (n :: inorder t))
    (hnodup : (n :: inorder t).Nodup) (key : α → κ) (p : Option α) :
    (m.link n (bottom key (key n) (s, p) t).1).Holds
      ((m.link n (bottom key (key n) (s, p) t).1).get s) (addLeaf key n t) := by
  induction t generalizing s p with
  | nil =>
    obtain ⟨hl, hr⟩ := hs n List.mem_cons_self
    exact ⟨link_get_self, link_left hl, link_right hr⟩
  | node a l r ihl ihr =>
    obtain ⟨hget, hl, hr⟩ := h
    simp only [inorder, List.nodup_cons, List.nodup_append, List.mem_append, List.mem_cons, not_or]
      at hnodup
    obtain ⟨⟨hnl, hna, hnr⟩, hlnodup, ⟨har, hrnodup⟩, hlr⟩ := hnodup
    have hal : a ∉ inorder l := fun ha => hlr a ha a (Or.inl rfl) rfl
    obtain ⟨hsl, hsr⟩ := hs n List.mem_cons_self
    obtain ⟨hsla, hsra⟩ := hs a (List.mem_cons_of_mem n (List.mem_append_right _ List.mem_cons_self))
    have hapl : Apart s (inorder l) := fun b hb => hs b (by simp [inorder, hb])
    have hapr : Apart s (inorder r) := fun b hb => hs b (by simp [inorder, hb])
    rw [bottom, addLeaf]
    split_ifs with hlt
    · have hnal : a ∉ n :: inorder l := by simp [hal, Ne.symm hna]
      have hlink : (m.link n (bottom key (key n) (.left a, some a) l).1).right a = m.right a := by
        obtain ⟨hne, hne'⟩ := apart_right hnal n List.mem_cons_self
        exact link_get_of_ne (u := .right a) (bottom_ne (by rintro ⟨⟩) (apart_right hal)) hne hne'
      refine ⟨?_, ?_, ?_⟩
      · exact (link_get_of_ne (bottom_ne hsla hapl) hsl hsr).trans hget
      · exact ihl (s := .left a) hl (apart_left hnal) (List.nodup_cons.2 ⟨hnl, hlnodup⟩) _
      · rw [hlink]
        exact holds_elsewhere hr hnr (apart_left har) fun b hb hbl => hlr b hbl b (Or.inr hb) rfl
    · have hnar : a ∉ n :: inorder r := by simp [har, Ne.symm hna]
      have hlink : (m.link n (bottom key (key n) (.right a, some a) r).1).left a = m.left a := by
        obtain ⟨hne, hne'⟩ := apart_left hnar n List.mem_cons_self
        exact link_get_of_ne (u := .left a) (bottom_ne (by rintro ⟨⟩) (apart_left har)) hne hne'
      refine ⟨?_, ?_, ?_⟩
      · exact (link_get_of_ne (bottom_ne hsra hapr) hsl hsr).trans hget
      · rw [hlink]
        exact holds_elsewhere hl hnl (apart_right hal) fun b hb hbr => hlr b hb b (Or.inr hbr) rfl
      · exact ihr (s := .right a) hr (apart_right hnar) (List.nodup_cons.2 ⟨hnr, hrnodup⟩) _

end

end TreeLinks
