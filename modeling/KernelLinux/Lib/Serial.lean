/-
  Events that arrive one after the other and are handled concurrently.

  An event may start as soon as no earlier event that conflicts with it is
  unfinished.  Then every interleaving of the actions of the handlers leaves the
  world as if the events had been handled one by one in the order of their
  arrival (`sequential`), provided that handlers of events without a conflict
  commute.  Nothing is assumed of what a handler does: it may stop half way, and
  events may be dropped before they start.
-/
import Mathlib.Logic.Relation
import Mathlib.Data.List.Basic

namespace Serial

variable {ε α σ : Type*}

inductive Phase where
  | queued
  | running
  | over
deriving DecidableEq

/-- An event that has arrived, with the actions that its handler has done. -/
structure Entry (ε α : Type*) where
  event : ε
  phase : Phase
  did : List α

/-- The handler of the event has started. -/
def Entry.Begun (e : Entry ε α) : Prop := e.phase = .running ∨ e.did ≠ []

/-- The events that have arrived, the earliest first, and the world that their handlers share. -/
structure State (ε α σ : Type*) where
  entries : List (Entry ε α)
  world : σ

section

variable (conflict : ε → ε → Prop) (act : ε → α → σ → σ)

inductive Step : State ε α σ → State ε α σ → Prop
  | arrive (es : List (Entry ε α)) (w : σ) (e : ε) : Step ⟨es, w⟩ ⟨es ++ [⟨e, .queued, []⟩], w⟩
  | start (es fs : List (Entry ε α)) (w : σ) (e : ε) :
      (∀ d ∈ es, d.phase ≠ .over → ¬ conflict d.event e) →
      Step ⟨es ++ ⟨e, .queued, []⟩ :: fs, w⟩ ⟨es ++ ⟨e, .running, []⟩ :: fs, w⟩
  | act (es fs : List (Entry ε α)) (w : σ) (e : ε) (l : List α) (a : α) :
      Step ⟨es ++ ⟨e, .running, l⟩ :: fs, w⟩ ⟨es ++ ⟨e, .running, l ++ [a]⟩ :: fs, act e a w⟩
  | finish (es fs : List (Entry ε α)) (w : σ) (e : ε) (l : List α) :
      Step ⟨es ++ ⟨e, .running, l⟩ :: fs, w⟩ ⟨es ++ ⟨e, .over, l⟩ :: fs, w⟩
  | drop (es fs : List (Entry ε α)) (w : σ) (e : ε) :
      Step ⟨es ++ ⟨e, .queued, []⟩ :: fs, w⟩ ⟨es ++ ⟨e, .over, []⟩ :: fs, w⟩

/-- What an entry has done, done at once. -/
def Entry.replay (e : Entry ε α) (w : σ) : σ := e.did.foldl (fun w a => act e.event a w) w

/-- The entries one after the other. -/
def replay (es : List (Entry ε α)) (w : σ) : σ := es.foldl (fun w e => e.replay act w) w

/-- No event has begun while an earlier one that conflicts with it is unfinished. -/
def Apart (d e : Entry ε α) : Prop :=
  d.phase ≠ .over → e.Begun → ¬ conflict d.event e.event

structure Inv (w₀ : σ) (s : State ε α σ) : Prop where
  apart : s.entries.Pairwise (Apart conflict)
  world : s.world = replay act s.entries w₀

end

variable {conflict : ε → ε → Prop} {act : ε → α → σ → σ} {w₀ : σ}

@[simp] theorem replay_nil (w : σ) : replay act [] w = w := rfl

@[simp] theorem replay_cons (e : Entry ε α) (es : List (Entry ε α)) (w : σ) :
    replay act (e :: es) w = replay act es (e.replay act w) := rfl

@[simp] theorem replay_append (es fs : List (Entry ε α)) (w : σ) :
    replay act (es ++ fs) w = replay act fs (replay act es w) := List.foldl_append

theorem Entry.replay_snoc (e : ε) (p q : Phase) (l : List α) (a : α) (w : σ) :
    (⟨e, p, l ++ [a]⟩ : Entry ε α).replay act w = act e a ((⟨e, q, l⟩ : Entry ε α).replay act w) := by
  simp only [Entry.replay, List.foldl_append, List.foldl_cons, List.foldl_nil]

theorem replay_phase (es fs : List (Entry ε α)) (e : ε) (p q : Phase) (l : List α) (w : σ) :
    replay act (es ++ ⟨e, p, l⟩ :: fs) w = replay act (es ++ ⟨e, q, l⟩ :: fs) w := by
  simp only [replay_append, replay_cons, Entry.replay]

/-- Entries keep apart from `e'` where they keep apart from `e`. -/
theorem apart_replace {es fs : List (Entry ε α)} {e e' : Entry ε α}
    (h : (es ++ e :: fs).Pairwise (Apart conflict))
    (hbefore : ∀ d ∈ es, Apart conflict d e → Apart conflict d e')
    (hafter : ∀ f ∈ fs, Apart conflict e f → Apart conflict e' f) :
    (es ++ e' :: fs).Pairwise (Apart conflict) := by
  obtain ⟨hes, hfs, hcross⟩ := List.pairwise_append.1 h
  obtain ⟨he, hfs⟩ := List.pairwise_cons.1 hfs
  refine List.pairwise_append.2 ⟨hes, List.pairwise_cons.2 ⟨fun f hf => hafter f hf (he f hf), hfs⟩, ?_⟩
  rintro d hd f (_ | ⟨_, hf⟩)
  · exact hbefore d hd (hcross d hd e List.mem_cons_self)
  · exact hcross d hd f (List.mem_cons_of_mem _ hf)

section

variable (hcomm : ∀ d e, ¬ conflict d e → ∀ a b w, act e b (act d a w) = act d a (act e b w))
include hcomm

/-- An action of `d` may as well be done before all that an entry without a conflict has done. -/
theorem Entry.replay_comm {d e : ε} (h : ¬ conflict d e) (p : Phase) (l : List α) (a : α) (w : σ) :
    (⟨e, p, l⟩ : Entry ε α).replay act (act d a w) = act d a ((⟨e, p, l⟩ : Entry ε α).replay act w) := by
  induction l generalizing w with
  | nil => rfl
  | cons b l ih =>
    simp only [Entry.replay, List.foldl_cons] at ih ⊢
    rw [hcomm d e h, ih]

theorem replay_comm {d : ε} {es : List (Entry ε α)}
    (h : ∀ e ∈ es, e.did ≠ [] → ¬ conflict d e.event) (a : α) (w : σ) :
    replay act es (act d a w) = act d a (replay act es w) := by
  induction es generalizing w with
  | nil => rfl
  | cons e es ih =>
    have ih := fun w => ih (fun f hf => h f (List.mem_cons_of_mem _ hf)) w
    rw [replay_cons, replay_cons, ← ih]
    by_cases he : e.did = []
    · simp only [Entry.replay, he, List.foldl_nil]
    · rw [Entry.replay_comm hcomm (h e List.mem_cons_self he)]

theorem Inv.step {s t : State ε α σ} (h : Inv conflict act w₀ s) (hst : Step conflict act s t) :
    Inv conflict act w₀ t := by
  obtain ⟨hapart, hworld⟩ := h
  cases hst with
  | arrive es w e =>
    refine ⟨List.pairwise_append.2 ⟨hapart, List.pairwise_singleton _ _, ?_⟩, ?_⟩
    · rintro d - f hf - hbegun
      rw [List.mem_singleton.1 hf] at hbegun
      rcases hbegun with hbegun | hbegun
      · cases hbegun
      · exact absurd rfl hbegun
    · simpa [Entry.replay] using hworld
  | start es fs w e hfree =>
    exact ⟨apart_replace hapart (fun d hd _ hover _ => hfree d hd hover)
      (fun _ _ h _ => h (by rintro ⟨⟩)), hworld.trans (replay_phase es fs e _ _ [] w₀)⟩
  | act es fs w e l a =>
    refine ⟨apart_replace hapart (fun d _ h hover _ => h hover (Or.inl rfl)) fun f _ h => h, ?_⟩
    -- the action moves to the front of what later events have done
    have hlater : ∀ f ∈ fs, f.did ≠ [] → ¬ conflict e f.event := fun f hf hdid =>
      (List.pairwise_cons.1 (List.pairwise_append.1 hapart).2.1).1 f hf (by rintro ⟨⟩) (Or.inr hdid)
    simp only [replay_append, replay_cons] at hworld ⊢
    rw [hworld, Entry.replay_snoc e .running .running, replay_comm hcomm hlater]
  | finish es fs w e l =>
    exact ⟨apart_replace hapart (fun d _ h hover _ => h hover (Or.inl rfl))
      (fun _ _ _ hover => absurd rfl hover), hworld.trans (replay_phase es fs e _ _ l w₀)⟩
  | drop es fs w e =>
    refine ⟨apart_replace hapart (fun d _ h hover hbegun => ?_) (fun _ _ _ hover => absurd rfl hover),
      hworld.trans (replay_phase es fs e _ _ [] w₀)⟩
    rcases hbegun with hbegun | hbegun
    · cases hbegun
    · exact absurd rfl hbegun

/-- The world is at every time what the events' actions make of it when the events are handled one
    by one, in the order of their arrival. -/
theorem sequential {s : State ε α σ}
    (h : Relation.ReflTransGen (Step conflict act) ⟨[], w₀⟩ s) : Inv conflict act w₀ s := by
  induction h with
  | refl => exact ⟨List.Pairwise.nil, rfl⟩
  | tail _ hst ih => exact ih.step hcomm hst

end

end Serial
