/-
  Singly linked lists in memory, with cells of any type.

  A list is a head pointer and the `next` links of its cells.  A pointer to a link (`**`) is a `Slot`,
  so that the head and the links are followed and changed alike.

  * `Path l s xs`: the links from the slot `s` on lead through the cells `xs`;
  * `Chain l s xs`: they do, and end there.  A chain is acyclic (`Chain.nodup`);
  * `walk_ends`, `find_ends`: the loops that move a pointer to a link, or a pointer;
  * `chain_insert`: what is stored to put a cell into a chain;
  * `Circular l xs`: no link ends, and a loop that finds nothing runs forever (`walk_never`,
    `find_never`).
-/
import KernelLinux.Lib.Loop
import Mathlib.Logic.Function.Basic
import Mathlib.Data.List.Basic

/-- Where a link is stored. -/
inductive Slot (α : Type*) where
  | head
  | next (a : α)

theorem Slot.head_ne_next {α : Type*} (a : α) : Slot.head ≠ .next a := by rintro ⟨⟩

/-- The links of a list. -/
structure Links (α : Type*) where
  head : Option α
  next : α → Option α

namespace Links
variable {α : Type*} (l : Links α)

/-- `*slot` -/
def get : Slot α → Option α
  | .head => l.head
  | .next a => l.next a

/-- `*slot = p` -/
def set [DecidableEq α] : Slot α → Option α → Links α
  | .head, p => { l with head := p }
  | .next a, p => { l with next := Function.update l.next a p }

/-- The body of `while (*slot) { if (stop) break; slot = &(*slot)->next; }`. -/
def walkStep (stop : α → Bool) (slot : Slot α) : Slot α ⊕ Slot α :=
  match l.get slot with
  | none => .inr slot
  | some a => if stop a then .inr slot else .inl (.next a)

/-- The body of `for (; p; p = p->next) if (stop) break;`. -/
def findStep (stop : α → Bool) : Option α → Option α ⊕ Option α
  | none => .inr none
  | some a => if stop a then .inr (some a) else .inl (l.next a)

/-- The links from `s` on lead through `xs`. -/
def Path : Slot α → List α → Prop
  | _, [] => True
  | s, x :: xs => l.get s = some x ∧ Path (.next x) xs

/-- The slot behind the cells `xs`. -/
def behind : Slot α → List α → Slot α
  | s, [] => s
  | _, x :: xs => behind (.next x) xs

/-- The links from `s` on lead through `xs` and end. -/
def Chain (s : Slot α) (xs : List α) : Prop := l.Path s xs ∧ l.get (behind s xs) = none

/-- No link of the cells `xs` or of the head ends, or leads elsewhere. -/
def Circular (xs : List α) : Prop :=
  (∃ x ∈ xs, l.head = some x) ∧ ∀ a ∈ xs, ∃ x ∈ xs, l.next a = some x

variable {l} {s : Slot α} {x : α} {xs ys : List α}

/-! ## Paths -/

theorem behind_append (s : Slot α) (xs ys : List α) : behind s (xs ++ ys) = behind (behind s xs) ys := by
  induction xs generalizing s with
  | nil => rfl
  | cons x xs ih => exact ih (.next x)

theorem behind_concat (s : Slot α) (xs : List α) (x : α) : behind s (xs ++ [x]) = .next x :=
  behind_append s xs [x]

theorem path_append : l.Path s (xs ++ ys) ↔ l.Path s xs ∧ l.Path (behind s xs) ys := by
  induction xs generalizing s with
  | nil => exact ⟨fun h => ⟨trivial, h⟩, And.right⟩
  | cons x xs ih =>
    show _ ∧ l.Path (.next x) (xs ++ ys) ↔ (_ ∧ l.Path (.next x) xs) ∧ _
    rw [ih, and_assoc]
    rfl

theorem chain_nil : l.Chain s [] ↔ l.get s = none := ⟨And.right, fun h => ⟨trivial, h⟩⟩

theorem chain_cons : l.Chain s (x :: xs) ↔ l.get s = some x ∧ l.Chain (.next x) xs := and_assoc

theorem chain_append : l.Chain s (xs ++ ys) ↔ l.Path s xs ∧ l.Chain (behind s xs) ys := by
  rw [Chain, path_append, behind_append, and_assoc]
  rfl

theorem Chain.unique (h : l.Chain s xs) (h' : l.Chain s ys) : xs = ys := by
  induction xs generalizing s ys with
  | nil =>
    cases ys with
    | nil => rfl
    | cons y ys => cases (chain_nil.1 h).symm.trans (chain_cons.1 h').1
  | cons x xs ih =>
    cases ys with
    | nil => cases (chain_nil.1 h').symm.trans (chain_cons.1 h).1
    | cons y ys =>
      obtain ⟨hx, hxs⟩ := chain_cons.1 h
      obtain ⟨hy, hys⟩ := chain_cons.1 h'
      obtain rfl : x = y := Option.some.inj (hx.symm.trans hy)
      rw [ih hxs hys]

/-- A chain meets no cell twice. -/
theorem Chain.nodup (h : l.Chain s xs) : xs.Nodup := by
  induction xs generalizing s with
  | nil => exact List.nodup_nil
  | cons x xs ih =>
    obtain ⟨-, hxs⟩ := chain_cons.1 h
    refine List.nodup_cons.2 ⟨fun hmem => ?_, ih hxs⟩
    -- the cells behind the second `x` would be those behind the first one
    obtain ⟨as, bs, rfl⟩ := List.append_of_mem hmem
    rw [List.append_cons] at hxs
    have hbs := (chain_append.1 hxs).2
    rw [behind_concat] at hbs
    have heq := congrArg List.length (hbs.unique hxs)
    simp only [List.length_append, List.length_singleton] at heq
    omega

/-- Links that agree have the same paths. -/
theorem Path.congr {l' : Links α} {s' : Slot α} (h : l.Path s xs) (hs : l'.get s' = l.get s)
    (hxs : ∀ a ∈ xs, l'.next a = l.next a) : l'.Path s' xs := by
  induction xs generalizing s s' with
  | nil => trivial
  | cons x xs ih =>
    refine ⟨hs.trans h.1, ih h.2 ?_ fun a ha => hxs a (List.mem_cons_of_mem x ha)⟩
    exact hxs x List.mem_cons_self

theorem Chain.congr {l' : Links α} {s' : Slot α} (h : l.Chain s xs) (hs : l'.get s' = l.get s)
    (hxs : ∀ a ∈ xs, l'.next a = l.next a) : l'.Chain s' xs := by
  induction xs generalizing s s' with
  | nil => exact chain_nil.2 (hs.trans (chain_nil.1 h))
  | cons x xs ih =>
    obtain ⟨hx, hxs'⟩ := chain_cons.1 h
    refine chain_cons.2 ⟨hs.trans hx, ih hxs' ?_ fun a ha => hxs a (List.mem_cons_of_mem x ha)⟩
    exact hxs x List.mem_cons_self

/-! ## Stores -/

theorem behind_ne {t : Slot α} (hs : s ≠ t) (hxs : ∀ a ∈ xs, .next a ≠ t) : behind s xs ≠ t := by
  induction xs generalizing s with
  | nil => exact hs
  | cons x xs ih =>
    exact ih (hxs x List.mem_cons_self) fun a ha => hxs a (List.mem_cons_of_mem x ha)

section
variable [DecidableEq α] {p : Option α}

@[simp] theorem get_set_self : (l.set s p).get s = p := by
  cases s with
  | head => rfl
  | next a => exact Function.update_self a p l.next

theorem get_set_of_ne {t : Slot α} (h : t ≠ s) : (l.set s p).get t = l.get t := by
  cases s with
  | head =>
    cases t with
    | head => exact absurd rfl h
    | next b => rfl
  | next a =>
    cases t with
    | head => rfl
    | next b => exact Function.update_of_ne (fun hba => h (congrArg Slot.next hba)) p l.next

/-- A store of what is there already. -/
theorem set_get (h : l.get s = p) : l.set s p = l := by
  subst h
  cases s with
  | head => rfl
  | next a => exact congrArg (Links.mk l.head) (Function.update_eq_self a l.next)

/-- A store behind a path does not change it. -/
theorem Path.set_behind (h : l.Path s xs) (hs : ∀ a ∈ xs, .next a ≠ s) (hnodup : xs.Nodup) :
    (l.set (behind s xs) p).Path s xs := by
  induction xs generalizing s with
  | nil => trivial
  | cons x xs ih =>
    obtain ⟨hx, hxs⟩ := List.nodup_cons.1 hnodup
    have hne : behind s (x :: xs) ≠ s :=
      behind_ne (s := .next x) (hs x List.mem_cons_self) fun a ha => hs a (List.mem_cons_of_mem x ha)
    refine ⟨(get_set_of_ne hne.symm).trans h.1, ih h.2 ?_ hxs⟩
    rintro a ha ⟨⟩
    exact hx ha

/-- **What puts the cell `n` into a chain**: its link is set first, then the link behind the cells that
    stay before it. -/
theorem chain_insert {n : α} (h : l.Chain .head (xs ++ ys)) (hn : n ∉ xs ++ ys) :
    ((l.set (.next n) (l.get (behind .head xs))).set (behind .head xs) (some n)).Chain .head
      (xs ++ n :: ys) := by
  obtain ⟨hpath, hrest⟩ := chain_append.1 h
  obtain ⟨hxs, -, hdisj⟩ := List.nodup_append.1 h.nodup
  have hnext : ∀ a : α, a ≠ n → (Slot.next a : Slot α) ≠ .next n := by
    rintro a ha ⟨⟩
    exact ha rfl
  rw [List.mem_append, not_or] at hn
  refine chain_append.2 ⟨?_, chain_cons.2 ⟨get_set_self, ?_⟩⟩
  · refine (hpath.congr ?_ fun a ha => ?_).set_behind (fun a _ => (Slot.head_ne_next a).symm) hxs
    · exact get_set_of_ne (Slot.head_ne_next n)
    · exact get_set_of_ne (hnext a fun han => hn.1 (han ▸ ha))
  · refine hrest.congr ?_ fun a ha => ?_
    · rw [get_set_of_ne, get_set_self]
      exact (behind_ne (Slot.head_ne_next n) fun a ha => hnext a fun han => hn.1 (han ▸ ha)).symm
    · have han : a ≠ n := fun han => hn.2 (han ▸ ha)
      have hbehind : behind .head xs ≠ Slot.next a := by
        refine behind_ne (Slot.head_ne_next a) ?_
        rintro b hb ⟨⟩
        exact hdisj a hb a ha rfl
      exact (get_set_of_ne hbehind.symm).trans (get_set_of_ne (hnext a han))

end

/-! ## Loops -/

section
variable {stop : α → Bool}

/-- **Where a pointer to a link is left**: behind the cells in front of the first one that stops it. -/
theorem walk_ends (h : l.Chain s xs) (stop : α → Bool) : Ends (fun n => Loop.run (l.walkStep stop) n s)
    (behind s (xs.takeWhile fun a => !stop a)) := by
  induction xs generalizing s with
  | nil =>
    refine Loop.ends_leave ?_
    rw [walkStep, chain_nil.1 h]
    rfl
  | cons x xs ih =>
    obtain ⟨hx, hxs⟩ := chain_cons.1 h
    cases hstop : stop x with
    | true =>
      rw [List.takeWhile_cons_of_neg (by simp [hstop])]
      refine Loop.ends_leave ?_
      simp only [walkStep, hx, hstop, if_true, behind]
    | false =>
      rw [List.takeWhile_cons_of_pos (by simp [hstop])]
      have hstep : l.walkStep stop s = .inl (.next x) := by
        simp only [walkStep, hx, hstop, Bool.false_eq_true, if_false]
      exact (Loop.ends_continue hstep).2 (ih hxs)

/-- **What a pointer finds**: the first cell that stops it. -/
theorem find_ends {a : α} (h : l.Path s xs) (ha : xs.find? stop = some a) :
    Ends (fun n => Loop.run (l.findStep stop) n (l.get s)) (some a) := by
  induction xs generalizing s with
  | nil => cases ha
  | cons x xs ih =>
    rw [h.1]
    cases hstop : stop x with
    | true =>
      rw [List.find?_cons_of_pos hstop] at ha
      refine Loop.ends_leave ?_
      rw [findStep, hstop, if_pos rfl, ha]
    | false =>
      rw [List.find?_cons_of_neg (by simp [hstop])] at ha
      have hstep : l.findStep stop (some x) = .inl (l.next x) := by
        rw [findStep, hstop, if_neg Bool.false_ne_true]
      exact (Loop.ends_continue hstep).2 (ih h.2 ha)

/-- **A pointer that finds nothing** runs to the end of a chain. -/
theorem find_ends_none (h : l.Chain s xs) (hxs : xs.find? stop = none) :
    Ends (fun n => Loop.run (l.findStep stop) n (l.get s)) none := by
  induction xs generalizing s with
  | nil =>
    rw [chain_nil.1 h]
    exact Loop.ends_leave rfl
  | cons x xs ih =>
    obtain ⟨hx, hrest⟩ := chain_cons.1 h
    rw [List.find?_eq_none, List.forall_mem_cons] at hxs
    rw [hx]
    have hstep : l.findStep stop (some x) = .inl (l.next x) := by rw [findStep, if_neg hxs.1]
    exact (Loop.ends_continue hstep).2 (ih hrest (List.find?_eq_none.2 hxs.2))

/-- A path whose last link leads back into it closes a circle. -/
theorem Path.circular {e : α} (h : l.Path .head xs) (he : e ∈ xs)
    (hend : l.get (behind .head xs) = some e) : l.Circular xs := by
  have hlinks : ∀ (s : Slot α) (ys : List α), l.Path s ys → l.get (behind s ys) = some e →
      (∃ x, (x ∈ ys ∨ x = e) ∧ l.get s = some x) ∧
        ∀ a ∈ ys, ∃ x, (x ∈ ys ∨ x = e) ∧ l.next a = some x := by
    intro s ys
    induction ys generalizing s with
    | nil => exact fun _ hend => ⟨⟨e, Or.inr rfl, hend⟩, fun a ha => absurd ha List.not_mem_nil⟩
    | cons y ys ih =>
      intro hpath hend
      obtain ⟨⟨z, hz, hnext⟩, hrest⟩ := ih (.next y) hpath.2 hend
      refine ⟨⟨y, Or.inl List.mem_cons_self, hpath.1⟩, List.forall_mem_cons.2 ⟨?_, fun a ha => ?_⟩⟩
      · exact ⟨z, hz.imp_left (List.mem_cons_of_mem y), hnext⟩
      · obtain ⟨x, hx, ha⟩ := hrest a ha
        exact ⟨x, hx.imp_left (List.mem_cons_of_mem y), ha⟩
  have hback : ∀ x, x ∈ xs ∨ x = e → x ∈ xs := by
    rintro x (hx | rfl)
    · exact hx
    · exact he
  obtain ⟨⟨x, hx, hhead⟩, hrest⟩ := hlinks .head xs h hend
  refine ⟨⟨x, hback x hx, hhead⟩, fun a ha => ?_⟩
  obtain ⟨y, hy, hnext⟩ := hrest a ha
  exact ⟨y, hback y hy, hnext⟩

theorem walk_never (h : l.Circular xs) (hstop : ∀ a ∈ xs, stop a = false) :
    Never fun n => Loop.run (l.walkStep stop) n .head := by
  refine Loop.never_of_inv (I := fun s => ∃ a ∈ xs, l.get s = some a) ?_ h.1
  rintro s ⟨a, ha, hget⟩
  refine ⟨.next a, ?_, h.2 a ha⟩
  simp only [walkStep, hget, hstop a ha, Bool.false_eq_true, if_false]

theorem find_never (h : l.Circular xs) (hstop : ∀ a ∈ xs, stop a = false) :
    Never fun n => Loop.run (l.findStep stop) n l.head := by
  refine Loop.never_of_inv (I := fun p => ∃ a ∈ xs, p = some a) ?_ h.1
  rintro _ ⟨a, ha, rfl⟩
  refine ⟨l.next a, ?_, h.2 a ha⟩
  rw [findStep, hstop a ha, if_neg Bool.false_ne_true]

end

end Links
