/-
  Calls that run at the same time.

  A call is a program (`Lib/Prog`); several calls share a state, and each of them
  that does not wait for a mutex may take the next step.

  `Protocol` collects what a proof needs that the calls are serializable: each call
  takes effect in one of its steps, on a second state in which the calls are run
  one at a time.  What a call relies on and what it guarantees are relations
  between pairs of the two states.  `Protocol.Lin` is the proof obligation for one
  call, by recursion on its program, and `Protocol.serializable` the conclusion for
  any number of calls in any order of steps.
-/
import KernelLinux.Lib.Prog
import KernelLinux.Lib.Run
import Mathlib.Data.List.Perm.Basic
import Mathlib.Data.Set.Lattice
import Mathlib.Logic.Relation
import Mathlib.Order.CompletePartialOrder

variable {σ C L B α ι : Type}

/-! ## Runs of several calls -/

/-- The program has returned. -/
def Prog.done : Prog σ C L B α → Bool
  | ret _ => true
  | _ => false

theorem Prog.done_iff {p : Prog σ C L B α} : p.done = true ↔ ∃ a, p = ret a := by
  cases p <;> simp [Prog.done]

/-- A call, what is left of its program, and the mutexes it holds. -/
structure Caller (σ C L B α ι : Type) where
  call : ι
  rest : Prog σ C L B α
  holds : Set L

namespace Caller

/-- The call and what it returned. -/
def result (t : Caller σ C L B α ι) : Option (ι × α) :=
  match t.rest with
  | .ret a => some (t.call, a)
  | _ => none

/-- The calls that have not returned. -/
def active (ts : List (Caller σ C L B α ι)) : Set ι := {c | ∃ t ∈ ts, t.rest.done = false ∧ t.call = c}

/-- The mutexes that are held. -/
def held (ts : List (Caller σ C L B α ι)) : Set L := {l | ∃ t ∈ ts, l ∈ t.holds}

theorem mem_active {ts : List (Caller σ C L B α ι)} {c : ι} :
    c ∈ active ts ↔ ∃ t ∈ ts, t.rest.done = false ∧ t.call = c := Iff.rfl

theorem mem_held {ts : List (Caller σ C L B α ι)} {l : L} :
    l ∈ held ts ↔ ∃ t ∈ ts, l ∈ t.holds := Iff.rfl

theorem active_cons (t : Caller σ C L B α ι) (ts : List (Caller σ C L B α ι)) :
    active (t :: ts) = if t.rest.done then active ts else insert t.call (active ts) := by
  ext c
  cases h : t.rest.done
  · simp [mem_active, h, eq_comm (a := c)]
  · simp [mem_active, h]

/-- One step of a call, while others hold the mutexes in `busy`; no lock attempt is
    interrupted. -/
inductive Step (mx : C → L) (busy : Set L) :
    Caller σ C L B α ι × σ → Caller σ C L B α ι × σ → Prop
  | step {c f k h s} : Step mx busy (⟨c, .step f k, h⟩, s) (⟨c, k s, h⟩, f s)
  | mark {c b k h s} : Step mx busy (⟨c, .mark b k, h⟩, s) (⟨c, k, h⟩, s)
  | sync {c b k h s} : Step mx busy (⟨c, .sync b k, h⟩, s) (⟨c, k, h⟩, s)
  | lock {c l k h s} : mx l ∉ busy → mx l ∉ h →
      Step mx busy (⟨c, .lock l k, h⟩, s) (⟨c, k false, insert (mx l) h⟩, s)
  | unlock {c l k h s} : Step mx busy (⟨c, .unlock l k, h⟩, s) (⟨c, k, h \ {l}⟩, s)

end Caller

/-- A step of the calls that run at the same time: `starts c s W` says whether the call `c` may
    begin in the state `s` while the calls `W` are running. -/
inductive Interleave (mx : C → L) (prog : ι → Prog σ C L B α) (starts : ι → σ → Set ι → Prop) :
    σ × List (Caller σ C L B α ι) → σ × List (Caller σ C L B α ι) → Prop
  | begin {c s ts} : starts c s (Caller.active ts) →
      Interleave mx prog starts (s, ts) (s, ⟨c, prog c, ∅⟩ :: ts)
  | run {s s' as t t' bs} : Caller.Step mx (Caller.held (as ++ bs)) (t, s) (t', s') →
      Interleave mx prog starts (s, as ++ t :: bs) (s', as ++ t' :: bs)

/-- A call that runs while the others stand still and hold no mutex, no lock attempt being
    interrupted. -/
theorem Interleave.alone [DecidableEq L] {mx : C → L} {prog : ι → Prog σ C L B α}
    {starts : ι → σ → Set ι → Prop} {as bs : List (Caller σ C L B α ι)} (hheld : Caller.held (as ++ bs) = ∅)
    (c : ι) {p : Prog σ C L B α} {s : σ} {h : L → Bool} {r : α × σ × (L → Bool)}
    (hr : p.run mx (fun _ => false) s h = some r) :
    Relation.ReflTransGen (Interleave mx prog starts) (s, as ++ ⟨c, p, {l | h l = true}⟩ :: bs)
      (r.2.1, as ++ ⟨c, .ret r.1, {l | r.2.2 l = true}⟩ :: bs) := by
  have hrun : ∀ {t t' : Caller σ C L B α ι} {s s' : σ}, Caller.Step mx ∅ (t, s) (t', s') →
      Interleave mx prog starts (s, as ++ t :: bs) (s', as ++ t' :: bs) := fun h => .run (by rwa [hheld])
  induction p generalizing s h with
  | ret a =>
    cases hr
    exact .refl
  | step f k ih => exact .head (hrun .step) (ih s hr)
  | mark b k ih => exact .head (hrun .mark) (ih hr)
  | sync b k ih => exact .head (hrun .sync) (ih hr)
  | lock l k ih =>
    simp only [Prog.run, Bool.false_eq_true, if_false] at hr
    split_ifs at hr with hl
    have := ih false hr
    rw [show {m | Function.update h (mx l) true m = true} = insert (mx l) {m | h m = true} by
      ext m
      by_cases hm : m = mx l <;> simp [hm]] at this
    exact .head (hrun (.lock (Set.notMem_empty _) (by simpa using hl))) this
  | unlock l k ih =>
    have := ih hr
    rw [show {m | Function.update h l false m = true} = {m | h m = true} \ {l} by
      ext m
      by_cases hm : m = l <;> simp [hm]] at this
    exact .head (hrun .unlock) this

/-! ## Protocols -/

/-- How the calls share the state.  A pair `x` is the state `x.1` and the one, `x.2`, in which the
    calls that have taken effect were run one at a time. -/
structure Protocol (σ L α ι : Type) where
  /-- a call run alone -/
  serial : σ → ι × α → σ → Prop
  /-- what the others may do while the call holds the mutexes -/
  rely : ι → Set L → σ × σ → σ × σ → Prop
  /-- what a step of the call does while it holds the mutexes -/
  guar : ι → Set L → σ × σ → σ × σ → Prop
  /-- the calls may run at the same time -/
  compat : ι → ι → Prop
  /-- what is true while the call runs -/
  busy : ι → σ → Prop
  /-- what is true while nobody holds the mutex -/
  free : L → σ × σ → Prop
  /-- the two states differ only where the calls have work left -/
  inv : Set ι → σ × σ → Prop
  /-- the call has no work left -/
  fin : ι → σ × σ → Prop
  inv_begin {W c x} : inv W x → inv (insert c W) x
  rely_refl {W c h x} : inv W x → rely c h x x
  rely_trans {c h x y z} : rely c h x y → rely c h y z → rely c h x z
  guar_refl {c h x y} : rely c h x y → guar c h y y
  compat_symm {c d} : compat c d → compat d c
  guar_rely {W c d h h' x y} : inv W x → compat c d → Disjoint h h' → guar c h x y → rely d h' x y
  guar_busy {c d h x y} : compat c d → guar c h x y → busy d x.1 → busy d y.1
  guar_free {c h l x y} : l ∉ h → guar c h x y → free l x → free l y
  guar_inv {W c h x y} : (∀ d ∈ W, compat c d) → guar c h x y → inv (insert c W) x → inv (insert c W) y
  inv_fin {W c x} : fin c x → inv (insert c W) x → inv W x

namespace Protocol
variable (P : Protocol σ L α ι) (mx : C → L)

/-- The rest of a call's program, which is reached with the mutexes `h` held and the pair `x`,
    and `o` if the call has taken effect: it returns what it returned there, and leaves no work. -/
def Lin (c : ι) : Prog σ C L B α → Set L → Option α → σ × σ → Prop
  | .ret a, h, o, x => o = some a ∧ h = ∅ ∧ ∀ y, P.rely c h x y → P.fin c y
  | .step f k, h, o, x => ∀ y, P.rely c h x y → P.busy c y.1 → ∃ o' v',
      (o' = o ∧ v' = y.2 ∨ o = none ∧ ∃ a, o' = some a ∧ P.serial y.2 (c, a) v') ∧
      P.guar c h y (f y.1, v') ∧ ((k y.1).done = false → P.busy c (f y.1)) ∧
      Lin c (k y.1) h o' (f y.1, v')
  | .mark _ k, h, o, x => Lin c k h o x
  | .sync _ k, h, o, x => Lin c k h o x
  | .lock l k, h, o, x => ∀ y, P.rely c h x y → P.free (mx l) y → Lin c (k false) (insert (mx l) h) o y
  | .unlock l k, h, o, x => ∀ y, P.rely c h x y → P.free l y ∧ Lin c k (h \ {l}) o y

variable {P mx}

/-- The steps of the others do no harm. -/
theorem Lin.stable {c : ι} {p : Prog σ C L B α} {h : Set L} {o : Option α} {x y : σ × σ}
    (hp : P.Lin mx c p h o x) (hxy : P.rely c h x y) : P.Lin mx c p h o y := by
  induction p with
  | ret a => exact ⟨hp.1, hp.2.1, fun z hz => hp.2.2 z (P.rely_trans hxy hz)⟩
  | step f k ih => exact fun z hz => hp z (P.rely_trans hxy hz)
  | mark b k ih => exact ih hp
  | sync b k ih => exact ih hp
  | lock l k ih => exact fun z hz => hp z (P.rely_trans hxy hz)
  | unlock l k ih => exact fun z hz => hp z (P.rely_trans hxy hz)

/-! ## Rules -/

/-- A mutex that was taken is released. -/
theorem release {l : L} {h : Set L} (hl : l ∉ h) : insert l h \ {l} = h := by
  ext m
  simp only [Set.mem_sdiff, Set.mem_insert_iff, Set.mem_singleton_iff]
  constructor
  · rintro ⟨rfl | hm, hne⟩
    · exact absurd rfl hne
    · exact hm
  · intro hm
    exact ⟨Or.inr hm, fun he => hl (he ▸ hm)⟩

section
variable {c : ι} {h : Set L} {o : Option α} {x : σ × σ} {β : Type}

theorem lin_reads {f : σ → β} {g : β → Prog σ C L B α}
    (hy : ∀ y, P.rely c h x y → P.busy c y.1 → P.Lin mx c (g (f y.1)) h o y) :
    P.Lin mx c (Prog.reads f >>= g) h o x := fun y hxy hb =>
  ⟨o, y.2, Or.inl ⟨rfl, rfl⟩, P.guar_refl hxy, fun _ => hb, hy y hxy hb⟩

/-- A call may take effect when it reads the state. -/
theorem lin_reads_effect {f : σ → β} {g : β → Prog σ C L B α}
    (hy : ∀ y, P.rely c h x y → P.busy c y.1 → P.Lin mx c (g (f y.1)) h none y ∨
      ∃ a v, P.serial y.2 (c, a) v ∧ P.guar c h y (y.1, v) ∧
        P.Lin mx c (g (f y.1)) h (some a) (y.1, v)) :
    P.Lin mx c (Prog.reads f >>= g) h none x := fun y hxy hb => by
  rcases hy y hxy hb with hl | ⟨a, v, hs, hg, hl⟩
  · exact ⟨none, y.2, Or.inl ⟨rfl, rfl⟩, P.guar_refl hxy, fun _ => hb, hl⟩
  · exact ⟨some a, v, Or.inr ⟨rfl, a, rfl, hs⟩, hg, fun _ => hb, hl⟩

/-- The step in which the call takes effect. -/
theorem lin_effect {f : σ → σ} {k : σ → Prog σ C L B α}
    (hy : ∀ y, P.rely c h x y → P.busy c y.1 → ∃ a v, P.serial y.2 (c, a) v ∧
      P.guar c h y (f y.1, v) ∧ ((k y.1).done = false → P.busy c (f y.1)) ∧
      P.Lin mx c (k y.1) h (some a) (f y.1, v)) :
    P.Lin mx c (.step f k) h none x := fun y hxy hb => by
  obtain ⟨a, v, hs, hg, hl⟩ := hy y hxy hb
  exact ⟨some a, v, Or.inr ⟨rfl, a, rfl, hs⟩, hg, hl⟩

theorem lin_modify {f : σ → σ} {g : Unit → Prog σ C L B α}
    (hy : ∀ y, P.rely c h x y → P.busy c y.1 → P.guar c h y (f y.1, y.2) ∧
      ((g ()).done = false → P.busy c (f y.1)) ∧ P.Lin mx c (g ()) h o (f y.1, y.2)) :
    P.Lin mx c (Prog.modify f >>= g) h o x := fun y hxy hb =>
  ⟨o, y.2, Or.inl ⟨rfl, rfl⟩, hy y hxy hb⟩

theorem lin_lock {l : C} {g : Bool → Prog σ C L B α}
    (hy : ∀ y, P.rely c h x y → P.free (mx l) y → P.Lin mx c (g false) (insert (mx l) h) o y) :
    P.Lin mx c (Prog.mutexLockInterruptible l >>= g) h o x := hy

/-- The mutex that was taken last is released. -/
theorem lin_unlock {l : L} {g : Unit → Prog σ C L B α} (hl : l ∉ h)
    (hy : ∀ y, P.rely c (insert l h) x y → P.free l y ∧ P.Lin mx c (g ()) h o y) :
    P.Lin mx c (Prog.mutexUnlock l >>= g) (insert l h) o x := fun y hxy => by
  rw [release hl]
  exact hy y hxy

@[simp] theorem lin_mark {b : B} {g : Unit → Prog σ C L B α} :
    P.Lin mx c (Prog.markBufferDirty b >>= g) h o x ↔ P.Lin mx c (g ()) h o x := Iff.rfl

@[simp] theorem lin_sync {b : B} {g : Unit → Prog σ C L B α} :
    P.Lin mx c (Prog.syncDirtyBuffer b >>= g) h o x ↔ P.Lin mx c (g ()) h o x := Iff.rfl

end

/-! ## Soundness -/

/-- A call and what it returned when it took effect. -/
abbrev Ghost (σ C L B α ι : Type) := Caller σ C L B α ι × Option α

/-- The call has returned, or what is left of it is linear. -/
def Ok (P : Protocol σ L α ι) (mx : C → L) (g : Ghost σ C L B α ι) (x : σ × σ) : Prop :=
  (∃ a, g.1.rest = .ret a ∧ g.2 = some a ∧ g.1.holds = ∅) ∨
    g.1.rest.done = false ∧ P.busy g.1.call x.1 ∧ P.Lin mx g.1.call g.1.rest g.1.holds g.2 x

/-- Two running calls are compatible and hold no mutex both. -/
def Apart (P : Protocol σ L α ι) (g g' : Ghost σ C L B α ι) : Prop :=
  g.1.rest.done = false → g'.1.rest.done = false →
    P.compat g.1.call g'.1.call ∧ Disjoint g.1.holds g'.1.holds

/-- The calls that took effect, run one at a time. -/
structure Good (P : Protocol σ L α ι) (mx : C → L) (s₀ : σ) (x : σ × σ) (ls : List (ι × α))
    (gs : List (Ghost σ C L B α ι)) : Prop where
  run : Run P.serial s₀ ls x.2
  perm : ls.Perm (gs.filterMap fun g => g.2.map fun a => (g.1.call, a))
  inv : P.inv (Caller.active (gs.map Prod.fst)) x
  free : ∀ l, l ∉ Caller.held (gs.map Prod.fst) → P.free l x
  ok : ∀ g ∈ gs, P.Ok mx g x
  apart : gs.Pairwise P.Apart

section
variable {s₀ : σ} {x : σ × σ} {ls : List (ι × α)} {g : Ghost σ C L B α ι}
  {gs gs' : List (Ghost σ C L B α ι)}

theorem Ok.lin (h : P.Ok mx g x) (hg : g.1.rest.done = false) :
    P.busy g.1.call x.1 ∧ P.Lin mx g.1.call g.1.rest g.1.holds g.2 x := by
  rcases h with ⟨a, ha, -⟩ | h
  · rw [ha] at hg
    exact absurd hg (by simp [Prog.done])
  · exact h.2

theorem Apart.symm {g g' : Ghost σ C L B α ι} (h : P.Apart g g') : P.Apart g' g := fun h' hg =>
  ⟨P.compat_symm (h hg h').1, (h hg h').2.symm⟩

/-- The order of the calls in the list does not matter. -/
theorem Good.reorder (hp : gs.Perm gs') (G : P.Good mx s₀ x ls gs) : P.Good mx s₀ x ls gs' where
  run := G.run
  perm := G.perm.trans (hp.filterMap _)
  inv := by
    have h : Caller.active (gs'.map Prod.fst) = Caller.active (gs.map Prod.fst) := by
      ext c
      simp only [Caller.mem_active, (hp.map _).mem_iff]
    rw [h]
    exact G.inv
  free l hl := by
    refine G.free l fun h => hl ?_
    simpa only [Caller.mem_held, (hp.map _).mem_iff] using h
  ok g hg := G.ok g (hp.mem_iff.2 hg)
  apart := (hp.pairwise_iff fun h => h.symm).1 G.apart

/-- A call that is running makes a step that its program allows. -/
theorem Good.advance (G : P.Good mx s₀ x ls (g :: gs)) (hg : g.1.rest.done = false)
    {p : Prog σ C L B α} {h : Set L} {o : Option α} {x' : σ × σ}
    (hserial : o = g.2 ∧ x'.2 = x.2 ∨ g.2 = none ∧ ∃ a, o = some a ∧ P.serial x.2 (g.1.call, a) x'.2)
    (hguar : P.guar g.1.call g.1.holds x x') (hbusy : p.done = false → P.busy g.1.call x'.1)
    (hlin : P.Lin mx g.1.call p h o x')
    (hdisj : ∀ g' ∈ gs, g'.1.rest.done = false → Disjoint h g'.1.holds)
    (hfree : ∀ l, l ∉ h → l ∉ Caller.held (gs.map Prod.fst) → P.free l x') :
    ∃ ls', P.Good mx s₀ x' ls' ((⟨g.1.call, p, h⟩, o) :: gs) := by
  have hapart := List.pairwise_cons.1 G.apart
  have hinv := G.inv
  rw [List.map_cons, Caller.active_cons, hg] at hinv
  have hinv' := P.guar_inv (fun d hd => by
    obtain ⟨t, ht, hact, rfl⟩ := hd
    obtain ⟨g', hg', rfl⟩ := List.mem_map.1 ht
    exact (hapart.1 g' hg' hg hact).1) hguar hinv
  obtain ⟨ls', hrun, hperm⟩ : ∃ ls', Run P.serial s₀ ls' x'.2 ∧ ls'.Perm
      (((⟨g.1.call, p, h⟩, o) :: gs : List (Ghost σ C L B α ι)).filterMap fun g =>
        g.2.map fun a => (g.1.call, a)) := by
    have hold := G.perm
    rcases hserial with ⟨rfl, hv⟩ | ⟨hnone, a, rfl, hv⟩
    · exact ⟨ls, hv ▸ G.run, hold⟩
    · rw [List.filterMap_cons_none (by rw [hnone]; rfl)] at hold
      exact ⟨_, G.run.snoc hv, (List.perm_append_singleton _ _).trans (hold.cons _)⟩
  refine ⟨ls', hrun, hperm, ?_, fun l hl => ?_, fun g' hg' => ?_, List.pairwise_cons.2 ⟨?_, hapart.2⟩⟩
  · rw [List.map_cons, Caller.active_cons]
    cases hp : p.done with
    | false => simpa [hp] using hinv'
    | true =>
      obtain ⟨a, rfl⟩ := Prog.done_iff.1 hp
      simpa [hp] using P.inv_fin (hlin.2.2 x' (P.rely_refl hinv')) hinv'
  · have hl' : l ∉ h ∧ l ∉ Caller.held (gs.map Prod.fst) := by
      constructor
      · exact fun hh => hl ⟨_, List.mem_cons_self, hh⟩
      · rintro ⟨t, ht, hh⟩
        exact hl ⟨t, List.mem_cons_of_mem _ ht, hh⟩
    exact hfree l hl'.1 hl'.2
  · rcases List.mem_cons.1 hg' with rfl | hg'
    · cases hp : p.done with
      | false => exact Or.inr ⟨hp, hbusy hp, hlin⟩
      | true =>
        obtain ⟨a, rfl⟩ := Prog.done_iff.1 hp
        exact Or.inl ⟨a, rfl, hlin.1, hlin.2.1⟩
    · refine (G.ok g' (List.mem_cons_of_mem _ hg')).imp_right fun ⟨hact, hb, hl⟩ => ?_
      obtain ⟨hcompat, hd⟩ := hapart.1 g' hg' hg hact
      exact ⟨hact, P.guar_busy hcompat hguar hb, hl.stable (P.guar_rely hinv hcompat hd hguar)⟩
  · exact fun g' hg' _ hact => ⟨(hapart.1 g' hg' hg hact).1, hdisj g' hg' hact⟩

/-- A step of a call. -/
theorem Good.step {t' : Caller σ C L B α ι} {s' : σ} (G : P.Good mx s₀ x ls (g :: gs))
    (hstep : Caller.Step mx (Caller.held (gs.map Prod.fst)) (g.1, x.1) (t', s')) :
    ∃ o v' ls', P.Good mx s₀ (s', v') ls' ((t', o) :: gs) := by
  obtain ⟨⟨c, p, h⟩, o⟩ := g
  have hfree := G.free
  have hdisj : p.done = false → ∀ g' ∈ gs, g'.1.rest.done = false → Disjoint h g'.1.holds :=
    fun hp g' hg' hact => ((List.pairwise_cons.1 G.apart).1 g' hg' hp hact).2
  have hlin := (G.ok _ List.mem_cons_self).lin
  have hheld : ∀ l, l ∉ h → l ∉ Caller.held (gs.map Prod.fst) → P.free l x := by
    refine fun l hl hls => hfree l ?_
    rintro ⟨t, ht, hh⟩
    rcases List.mem_cons.1 ht with rfl | ht
    · exact hl hh
    · exact hls ⟨t, ht, hh⟩
  have hrefl := P.rely_refl (c := c) (h := h) G.inv
  have hguar := P.guar_refl hrefl
  cases hstep with
  | @step _ f k =>
    obtain ⟨hbusy, hl⟩ := hlin rfl
    obtain ⟨o', v', hserial, hg, hb, hk⟩ := hl x hrefl hbusy
    exact ⟨o', v', G.advance rfl hserial hg hb hk (hdisj rfl) fun l hl hls =>
      P.guar_free hl hg (hheld l hl hls)⟩
  | mark | sync =>
    obtain ⟨hbusy, hl⟩ := hlin rfl
    exact ⟨o, x.2, G.advance rfl (Or.inl ⟨rfl, rfl⟩) hguar (fun _ => hbusy) hl (hdisj rfl) hheld⟩
  | @lock _ l k _ _ hls hlh =>
    obtain ⟨hbusy, hl⟩ := hlin rfl
    refine ⟨o, x.2, G.advance rfl (Or.inl ⟨rfl, rfl⟩) hguar (fun _ => hbusy)
      (hl x hrefl (hheld _ hlh hls)) (fun g' hg' hact => ?_) fun l' hl' hls' => ?_⟩
    · rw [Set.disjoint_insert_left]
      exact ⟨fun hh => hls ⟨_, List.mem_map_of_mem hg', hh⟩, hdisj rfl g' hg' hact⟩
    · exact hheld l' (fun hh => hl' (Set.mem_insert_of_mem _ hh)) hls'
  | @unlock _ l k =>
    obtain ⟨hbusy, hl⟩ := hlin rfl
    obtain ⟨hlfree, hk⟩ := hl x hrefl
    refine ⟨o, x.2, G.advance rfl (Or.inl ⟨rfl, rfl⟩) hguar (fun _ => hbusy) hk
      (fun g' hg' hact => (hdisj rfl g' hg' hact).mono_left fun _ hh => hh.1) fun l' hl' hls' => ?_⟩
    by_cases hll : l' = l
    · exact hll ▸ hlfree
    · exact hheld l' (fun hh => hl' ⟨hh, hll⟩) hls'

end

variable {prog : ι → Prog σ C L B α} {starts : ι → σ → Set ι → Prop}

/-- **Serializability.**  When all calls have returned, they have returned, and left the state as
    if they had been run one at a time in some order. -/
theorem serializable {s₀ s : σ} {ts : List (Caller σ C L B α ι)}
    (hbegin : ∀ c s v W, P.inv W (s, v) → (∀ d ∈ W, P.busy d s) → starts c s W →
      P.busy c s ∧ (∀ d ∈ W, P.compat c d) ∧ P.Lin mx c (prog c) ∅ none (s, v))
    (hinv : P.inv ∅ (s₀, s₀)) (hfree : ∀ l, P.free l (s₀, s₀))
    (h : Relation.ReflTransGen (Interleave mx prog starts) (s₀, []) (s, ts))
    (hdone : ∀ t ∈ ts, t.rest.done = true) :
    ∃ ls v, ls.Perm (ts.filterMap Caller.result) ∧ Run P.serial s₀ ls v ∧ P.inv ∅ (s, v) ∧
      ∀ l, P.free l (s, v) := by
  have hgood : ∀ y : σ × List (Caller σ C L B α ι),
      Relation.ReflTransGen (Interleave mx prog starts) (s₀, []) y →
      ∃ v ls gs, y.2 = gs.map Prod.fst ∧ P.Good mx s₀ (y.1, v) ls gs := by
    intro y hy
    induction hy with
    | refl =>
      refine ⟨s₀, [], [], rfl, .nil s₀, .nil, ?_, fun l _ => hfree l, fun g hg => ?_, .nil⟩
      · have : Caller.active ([] : List (Caller σ C L B α ι)) = ∅ := by ext; simp [Caller.active]
        rwa [List.map_nil, this]
      · simp at hg
    | tail _ hstep ih =>
      obtain ⟨v, ls, gs, hts, G⟩ := ih
      cases hstep with
      | @begin c s ts hstart =>
        obtain rfl : ts = gs.map Prod.fst := hts
        have hbusy : ∀ d ∈ Caller.active (gs.map Prod.fst), P.busy d s := by
          rintro d ⟨t, ht, hact, rfl⟩
          obtain ⟨g, hg, rfl⟩ := List.mem_map.1 ht
          exact ((G.ok g hg).lin hact).1
        obtain ⟨hb, hcompat, hlin⟩ := hbegin c s v _ G.inv hbusy hstart
        have hdone : (prog c).done = false := by
          cases hp : prog c with
          | ret a =>
            rw [hp] at hlin
            exact absurd hlin.1 (by simp)
          | _ => rfl
        refine ⟨v, ls, (⟨c, prog c, ∅⟩, none) :: gs, rfl, G.run, G.perm, ?_, fun l hl => ?_,
          fun g hg => ?_, List.pairwise_cons.2 ⟨fun g hg _ hact => ⟨?_, ?_⟩, G.apart⟩⟩
        · rw [List.map_cons, Caller.active_cons, hdone]
          simpa using P.inv_begin G.inv
        · exact G.free l fun ⟨t, ht, hh⟩ => hl ⟨t, List.mem_cons_of_mem _ ht, hh⟩
        · rcases List.mem_cons.1 hg with rfl | hg
          · exact Or.inr ⟨hdone, hb, hlin⟩
          · exact G.ok g hg
        · exact hcompat _ ⟨g.1, List.mem_map_of_mem hg, hact, rfl⟩
        · exact Set.empty_disjoint _
      | @run s s' as t t' bs hstep =>
        obtain ⟨gas, gbs', rfl, rfl, hgs⟩ := List.map_eq_append_iff.1 hts.symm
        obtain ⟨g, gbs, rfl, rfl, rfl⟩ := List.map_eq_cons_iff.1 hgs
        rw [← List.map_append] at hstep
        obtain ⟨o, v', ls', G'⟩ := (G.reorder List.perm_middle).step hstep
        exact ⟨v', ls', _, by simp, G'.reorder List.perm_middle.symm⟩
  obtain ⟨v, ls, gs, hts, G⟩ := hgood _ h
  obtain rfl : ts = gs.map Prod.fst := hts
  have hret : ∀ g ∈ gs, ∃ a, g.1.rest = .ret a ∧ g.2 = some a ∧ g.1.holds = ∅ := by
    intro g hg
    refine (G.ok g hg).resolve_right fun h => ?_
    rw [hdone g.1 (List.mem_map_of_mem hg)] at h
    exact absurd h.1 (by simp)
  refine ⟨ls, v, G.perm.trans (.of_eq ?_), G.run, ?_, fun l => G.free l ?_⟩
  · rw [List.filterMap_map]
    refine List.filterMap_congr fun g hg => ?_
    obtain ⟨a, ha, ho, -⟩ := hret g hg
    simp [Caller.result, ha, ho]
  · have : Caller.active (gs.map Prod.fst) = ∅ := by
      ext c
      refine iff_of_false ?_ (Set.notMem_empty c)
      rintro ⟨t, ht, hact, -⟩
      rw [hdone t ht] at hact
      exact absurd hact (by simp)
    exact this ▸ G.inv
  · rintro ⟨t, ht, hh⟩
    obtain ⟨g, hg, rfl⟩ := List.mem_map.1 ht
    obtain ⟨-, -, -, hempty⟩ := hret g hg
    rw [hempty] at hh
    exact hh

end Protocol
