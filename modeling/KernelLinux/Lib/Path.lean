/-
  Paths, and where a symbolic link leads.

  A path is a list of components between slashes.  `resolve` follows the text of a
  link from the directory that the link is in; directories are not links
  themselves here.  `resolve_up` is the rule for a relative text: as many ".." as
  lead to a common directory, and the rest of the target.  `dirs` are the
  directories on the way to a path.
-/
import Mathlib.Data.List.Basic
import Mathlib.Data.List.Induction
import Mathlib.Tactic.SplitIfs

namespace Path

/-- '/' -/
def sep : UInt8 := 0x2f

/-- ".." -/
def up : List UInt8 := [0x2e, 0x2e]

/-- What stands before, between and after the slashes. -/
def components : List UInt8 → List (List UInt8)
  | [] => [[]]
  | c :: s =>
    if c = sep then [] :: components s
    else match components s with
      | [] => [[c]]
      | w :: ws => (c :: w) :: ws

/-- From a directory, the innermost component first, to a name in it. -/
def enter (dir : List (List UInt8)) (c : List UInt8) : List (List UInt8) :=
  if c = [] ∨ c = [0x2e] then dir else if c = up then dir.tail else c :: dir

def walk (dir cs : List (List UInt8)) : List (List UInt8) := cs.foldl enter dir

/-- The path of a place. -/
def render (dir : List (List UInt8)) : List UInt8 := dir.reverse.flatMap (sep :: ·)

/-- The place that a link at the path `link` with the given text leads to. -/
def resolve (link text : List UInt8) : List UInt8 :=
  render (if text.head? = some sep then walk [] (components text)
    else walk (walk [] (components link).dropLast) (components text))

/-- A component that is the name of something. -/
def Proper (c : List UInt8) : Prop := c ≠ [] ∧ c ≠ [0x2e] ∧ c ≠ up

instance (c : List UInt8) : Decidable (Proper c) := inferInstanceAs (Decidable (_ ∧ _))

/-- An absolute path whose components are names. -/
def Clean (p : List UInt8) : Prop := p.head? = some sep ∧ ∀ c ∈ components p.tail, Proper c

instance (p : List UInt8) : Decidable (Clean p) := inferInstanceAs (Decidable (_ ∧ _))

/-- What stands before a slash, the shortest first. -/
def cuts : List UInt8 → List (List UInt8)
  | [] => []
  | c :: s => (if c = sep then [[]] else []) ++ (cuts s).map (c :: ·)

/-- The directories on the way from the root to a path, the innermost first. -/
def dirs (p : List UInt8) : List (List UInt8) := ((cuts p).filter (· ≠ [])).reverse

/-- The directory that a path lies in, if that is not the root. -/
def parent (p : List UInt8) : Option (List UInt8) := (dirs p).head?

variable {s a b : List UInt8}

theorem components_ne_nil (s : List UInt8) : components s ≠ [] := by
  cases s with
  | nil => exact List.cons_ne_nil _ _
  | cons c s =>
    rw [components]
    split_ifs
    · exact List.cons_ne_nil _ _
    · split <;> exact List.cons_ne_nil _ _

theorem components_sep (s : List UInt8) : components (sep :: s) = [] :: components s := by
  rw [components, if_pos rfl]

theorem components_cons {c : UInt8} (hc : c ≠ sep) {w : List UInt8} {ws : List (List UInt8)}
    (h : components s = w :: ws) : components (c :: s) = (c :: w) :: ws := by
  rw [components, if_neg hc, h]

theorem components_append (a b : List UInt8) :
    components (a ++ sep :: b) = components a ++ components b := by
  induction a with
  | nil => exact components_sep b
  | cons c a ih =>
    by_cases hc : c = sep
    · rw [hc, List.cons_append, components_sep, components_sep, ih]
      rfl
    · obtain ⟨w, ws, h⟩ := List.exists_cons_of_ne_nil (components_ne_nil a)
      rw [List.cons_append, components_cons hc (by rw [ih, h]; rfl), components_cons hc h]
      rfl

/-- What stands after a slash has its components among those of the path. -/
theorem mem_components_append {p x c : List UInt8} (hp : p = [] ∨ ∃ p', p = p' ++ [sep])
    (hc : c ∈ components x) : c ∈ components (p ++ x) := by
  rcases hp with rfl | ⟨p', rfl⟩
  · exact hc
  · rw [List.append_assoc, List.singleton_append, components_append]
    exact List.mem_append_right _ hc

theorem components_of_notMem (h : sep ∉ s) : components s = [s] := by
  induction s with
  | nil => rfl
  | cons c s ih =>
    rw [List.mem_cons, not_or] at h
    rw [components_cons (Ne.symm h.1) (ih h.2)]

theorem length_components (s : List UInt8) : (components s).length = s.count sep + 1 := by
  induction s with
  | nil => rfl
  | cons c s ih =>
    by_cases hc : c = sep
    · rw [hc, components_sep, List.length_cons, ih, List.count_cons_self]
    · obtain ⟨w, ws, h⟩ := List.exists_cons_of_ne_nil (components_ne_nil s)
      rw [components_cons hc h, List.count_cons_of_ne (by exact hc), ← ih, h]
      rfl

theorem flatMap_components (s : List UInt8) : (components s).flatMap (sep :: ·) = sep :: s := by
  induction s with
  | nil => rfl
  | cons c s ih =>
    by_cases hc : c = sep
    · rw [hc, components_sep, List.flatMap_cons, ih]
      rfl
    · obtain ⟨w, ws, h⟩ := List.exists_cons_of_ne_nil (components_ne_nil s)
      rw [h, List.flatMap_cons, List.cons_append, List.cons.injEq] at ih
      rw [components_cons hc h, List.flatMap_cons, List.cons_append, List.cons_append, ih.2]

theorem walk_append (dir cs cs' : List (List UInt8)) : walk dir (cs ++ cs') = walk (walk dir cs) cs' :=
  List.foldl_append

theorem walk_proper {cs : List (List UInt8)} (h : ∀ c ∈ cs, Proper c) (dir : List (List UInt8)) :
    walk dir cs = cs.reverse ++ dir := by
  induction cs generalizing dir with
  | nil => rfl
  | cons c cs ih =>
    obtain ⟨h1, h2, h3⟩ := h c List.mem_cons_self
    have hc : enter dir c = c :: dir := by rw [enter, if_neg (by simp [h1, h2]), if_neg h3]
    rw [walk, List.foldl_cons, hc]
    exact (ih (fun c hc => h c (List.mem_cons_of_mem _ hc)) _).trans (by simp)

theorem walk_up (dir : List (List UInt8)) (k : ℕ) : walk dir (List.replicate k up) = dir.drop k := by
  induction k generalizing dir with
  | zero => rfl
  | succ k ih =>
    have hup : enter dir up = dir.tail := by rw [enter, if_neg (by decide), if_pos rfl]
    rw [List.replicate_succ, walk, List.foldl_cons, hup]
    exact (ih _).trans (List.drop_tail ..)

theorem Clean.exists_cons {p : List UInt8} (h : Clean p) :
    ∃ q, p = sep :: q ∧ ∀ c ∈ components q, Proper c := by
  obtain ⟨h1, h2⟩ := h
  cases p with
  | nil => exact absurd h1 (by simp)
  | cons c q => exact ⟨q, by rw [Option.some.inj h1], h2⟩

/-- A clean path names its own place. -/
theorem render_walk_clean {p : List UInt8} (h : Clean p) : render (walk [] (components p)) = p := by
  obtain ⟨q, rfl, hq⟩ := h.exists_cons
  have hroot : walk [] (components (sep :: q)) = walk [] (components q) := by
    rw [components_sep]
    rfl
  rw [hroot, walk_proper hq, List.append_nil, render, List.reverse_reverse, flatMap_components]

theorem components_ups (k : ℕ) (s : List UInt8) :
    components ((List.replicate k (up ++ [sep])).flatten ++ s) = List.replicate k up ++ components s := by
  induction k with
  | zero => rfl
  | succ k ih =>
    have hone : components up = [up] := by decide
    rw [List.replicate_succ, List.flatten_cons, List.append_assoc, List.append_assoc,
      List.singleton_append, components_append, hone, ih]
    rfl

/-- **Relative links.**  The link and its target have the directory `dir` in common; below it the link
    is as many directories deep as the text goes up. -/
theorem resolve_up {dir x y : List UInt8} {k : ℕ} (hk : k = x.count sep)
    (hx : ∀ c ∈ (components x).dropLast, Proper c) (hy : y.head? ≠ some sep) :
    resolve (dir ++ sep :: x) ((List.replicate k (up ++ [sep])).flatten ++ y) =
      render (walk [] (components (dir ++ sep :: y))) := by
  have hhead : ((List.replicate k (up ++ [sep])).flatten ++ y).head? ≠ some sep := by
    cases k with
    | zero => exact hy
    | succ k => exact (by decide : some (0x2e : UInt8) ≠ some sep)
  have hlen : (components x).dropLast.reverse.length = k := by
    rw [List.length_reverse, List.length_dropLast, length_components, hk]
    rfl
  rw [resolve, if_neg hhead, components_append, components_append, components_ups,
    List.dropLast_append_of_ne_nil (components_ne_nil x), walk_append, walk_append, walk_append,
    walk_proper hx, walk_up, ← hlen, List.drop_left]

/-! ## Directories -/

theorem cuts_concat (p : List UInt8) (c : UInt8) :
    cuts (p ++ [c]) = cuts p ++ if c = sep then [p] else [] := by
  induction p with
  | nil => simp [cuts]
  | cons d p ih =>
    rw [List.cons_append, cuts, ih, cuts, List.map_append, List.append_assoc]
    split_ifs <;> rfl

theorem dirs_concat (p : List UInt8) (c : UInt8) :
    dirs (p ++ [c]) = if c = sep ∧ p ≠ [] then p :: dirs p else dirs p := by
  rw [dirs, cuts_concat, List.filter_append, List.reverse_append]
  by_cases hc : c = sep
  · by_cases hp : p = []
    · simp [hc, hp, dirs]
    · simp [hc, hp, dirs]
  · simp [hc, dirs]

theorem mem_dirs {p q : List UInt8} : q ∈ dirs p ↔ q ≠ [] ∧ q ++ [sep] <+: p := by
  induction p using List.reverseRecOn with
  | nil => simp [dirs, cuts]
  | append_singleton p c ih =>
    have hprefix : q ++ [sep] <+: p ++ [c] ↔ q ++ [sep] <+: p ∨ (q = p ∧ c = sep) := by
      have hlast : q ++ [sep] = p ++ [c] ↔ q = p ∧ c = sep :=
        ⟨fun h => by obtain ⟨h1, h2⟩ := List.append_inj' h rfl; exact ⟨h1, (List.cons.inj h2).1.symm⟩,
          fun h => by rw [h.1, h.2]⟩
      rw [List.prefix_concat_iff, hlast, or_comm]
    rw [dirs_concat, hprefix]
    split_ifs with h
    · rw [List.mem_cons, ih]
      constructor
      · rintro (rfl | ⟨h1, h2⟩)
        · exact ⟨h.2, Or.inr ⟨rfl, h.1⟩⟩
        · exact ⟨h1, Or.inl h2⟩
      · rintro ⟨h1, h2 | h2⟩
        · exact Or.inr ⟨h1, h2⟩
        · exact Or.inl h2.1
    · rw [ih]
      refine and_congr_right fun hq => (or_iff_left ?_).symm
      rintro ⟨rfl, hc⟩
      exact h ⟨hc, hq⟩

theorem mem_dirs_of_parent {p q : List UInt8} (h : q ∈ parent p) : q ∈ dirs p := List.mem_of_mem_head? h

theorem dirs_cons {p q : List UInt8} {qs : List (List UInt8)} (h : dirs p = q :: qs) : dirs q = qs := by
  induction p using List.reverseRecOn with
  | nil => simp [dirs, cuts] at h
  | append_singleton p c ih =>
    rw [dirs_concat] at h
    split_ifs at h
    · obtain ⟨rfl, rfl⟩ := List.cons.inj h
      rfl
    · exact ih h

/-- A longer name lies in the same directories. -/
theorem dirs_append {x : List UInt8} (hx : sep ∉ x) (p : List UInt8) : dirs (p ++ x) = dirs p := by
  induction x using List.reverseRecOn with
  | nil => rw [List.append_nil]
  | append_singleton x c ih =>
    rw [List.mem_append, not_or, List.mem_singleton] at hx
    rw [← List.append_assoc, dirs_concat, if_neg fun h => hx.2 h.1.symm, ih hx.1]

theorem notMem_dirs_self (p : List UInt8) : p ∉ dirs p := fun h => by
  have := (mem_dirs.1 h).2.length_le
  rw [List.length_append, List.length_singleton] at this
  omega

/-- The components of a path are no longer than those of a path with a longer name. -/
theorem short_of_append {p x : List UInt8} (hx : sep ∉ x) {n : ℕ}
    (h : ∀ c ∈ components (p ++ x), c.length ≤ n) : ∀ c ∈ components p, c.length ≤ n := by
  by_cases hp : sep ∈ p
  · obtain ⟨y, q, hrev, hy⟩ := List.eq_append_cons_of_mem (List.mem_reverse.2 hp)
    obtain rfl : p = q.reverse ++ sep :: y.reverse := by
      rw [← List.reverse_reverse p, hrev]
      simp
    rw [← List.mem_reverse] at hy
    have hlast : sep ∉ y.reverse ++ x := fun hmem => (List.mem_append.1 hmem).elim hy hx
    rw [List.append_assoc, List.cons_append, components_append, components_of_notMem hlast] at h
    rw [components_append, components_of_notMem hy]
    intro c hc
    rcases List.mem_append.1 hc with hc | hc
    · exact h c (List.mem_append_left _ hc)
    · rw [List.mem_singleton] at hc
      have := h _ (List.mem_append_right _ List.mem_cons_self)
      rw [List.length_append] at this
      exact hc ▸ Nat.le_of_add_right_le this
  · have hlast : sep ∉ p ++ x := fun hmem => (List.mem_append.1 hmem).elim hp hx
    rw [components_of_notMem hlast] at h
    intro c hc
    rw [components_of_notMem hp, List.mem_singleton] at hc
    have := h _ List.mem_cons_self
    rw [List.length_append] at this
    exact hc ▸ Nat.le_of_add_right_le this

theorem mem_components_of_dirs {p q c : List UInt8} (hq : q ∈ dirs p) (hc : c ∈ components q) :
    c ∈ components p := by
  obtain ⟨x, rfl⟩ := (mem_dirs.1 hq).2
  rw [List.append_assoc, List.singleton_append, components_append]
  exact List.mem_append_left _ hc

end Path
