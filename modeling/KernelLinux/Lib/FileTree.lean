/-
  File trees, over arbitrary names and file contents.

  A tree maps finitely many paths to a directory or a file; the root is a
  directory and what a path names lies in a directory.  So each directory is a
  finite map from names to its children, and `add`, `remove` and `set` are the
  updates of that map at one name.
-/
import Mathlib.Data.Set.Finite.Basic

/-- What a path names: a directory, or a file with its content. -/
inductive FileNode (B : Type*) where
  | dir
  | file (c : B)

def FileNode.isDir {B : Type*} : FileNode B → Bool
  | dir => true
  | file _ => false

structure FileTree (N B : Type*) where
  node : List N → Option (FileNode B)
  root : node [] = some .dir
  parent : ∀ p x n, node (p ++ [x]) = some n → node p = some .dir
  finite : {p | node p ≠ none}.Finite

namespace FileTree

variable {N B : Type*}

theorem append_ne {p : List N} {x : N} : p ++ [x] ≠ [] := by simp

variable [DecidableEq N]

/-- The tree with an empty root. -/
def empty : FileTree N B where
  node p := if p = [] then some .dir else none
  root := rfl
  parent p x n h := by
    rw [if_neg append_ne] at h
    simp at h
  finite := (Set.finite_singleton []).subset fun p hp => by
    by_contra h
    exact hp (if_neg h)

/-- A new node `n` named `x` in the directory `p`. -/
def add (t : FileTree N B) (p : List N) (x : N) (n : FileNode B) (hp : t.node p = some .dir)
    (hx : t.node (p ++ [x]) = none) : FileTree N B where
  node q := if q = p ++ [x] then some n else t.node q
  root := by rw [if_neg append_ne.symm, t.root]
  parent q y m h := by
    have hq : t.node q = some .dir := by
      split_ifs at h with hqy
      · rw [(List.append_inj' hqy rfl).1, hp]
      · exact t.parent q y m h
    rw [if_neg, hq]
    rintro rfl
    rw [hx] at hq
    simp at hq
  finite := (t.finite.union (Set.finite_singleton (p ++ [x]))).subset fun q hq => by
    by_cases h : q = p ++ [x]
    · exact Or.inr h
    · rw [Set.mem_ofPred_eq, if_neg h] at hq
      exact Or.inl hq

/-- The file named `x` in `p` is removed. -/
def remove (t : FileTree N B) (p : List N) (x : N) (c : B)
    (hx : t.node (p ++ [x]) = some (.file c)) : FileTree N B where
  node q := if q = p ++ [x] then none else t.node q
  root := by rw [if_neg append_ne.symm, t.root]
  parent q y m h := by
    split_ifs at h with hqy
    have hq := t.parent q y m h
    rw [if_neg, hq]
    rintro rfl
    rw [hx] at hq
    simp at hq
  finite := t.finite.subset fun q hq => by
    by_contra h
    exact hq (by rw [Set.mem_ofPred_eq, not_not] at h; simp [h])

/-- The file at `p` gets the content `c`. -/
def set (t : FileTree N B) (p : List N) (c₀ c : B) (hp : t.node p = some (.file c₀)) :
    FileTree N B where
  node q := if q = p then some (.file c) else t.node q
  root := by
    rw [if_neg, t.root]
    rintro rfl
    rw [t.root] at hp
    simp at hp
  parent q y m h := by
    have hq : t.node q = some .dir := by
      split_ifs at h with hqy
      · exact t.parent q y _ (hqy ▸ hp)
      · exact t.parent q y m h
    rw [if_neg, hq]
    rintro rfl
    rw [hp] at hq
    simp at hq
  finite := (t.finite.union (Set.finite_singleton p)).subset fun q hq => by
    by_cases h : q = p
    · exact Or.inr h
    · rw [Set.mem_ofPred_eq, if_neg h] at hq
      exact Or.inl hq

end FileTree
