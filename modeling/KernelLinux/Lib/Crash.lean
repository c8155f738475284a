/-
  Crashes of programs that write to a disk.

  A disk keeps, for each block, the state in which the block was last written to
  it; what the cache holds is part of the current state.  `sync_dirty_buffer`
  writes a block, and a block that was marked dirty may be written at any moment
  before that (`CrashStep.flush`).  A crash leaves the disk as it is then.

  `Safe` is a Hoare logic for what a crash leaves: between two synchronous writes
  each block has a set of states it may have been written in, and the property of
  the disk is checked once for every such set.  `Safe.crash` is its soundness.
-/
import KernelLinux.Lib.Prog
import Mathlib.Logic.Relation

namespace Prog

variable {σ C L B α β : Type}

/-! ## Disks -/

/-- For each block, the state it was last written in; and the blocks that are dirty. -/
structure Disk (σ B : Type) where
  saved : B → σ
  dirty : B → Prop

/-- A block is written. -/
def Disk.write [DecidableEq B] (D : Disk σ B) (b : B) (s : σ) : Disk σ B :=
  ⟨Function.update D.saved b s, fun c => c ≠ b ∧ D.dirty c⟩

/-- A block is marked dirty. -/
def Disk.mark (D : Disk σ B) (b : B) : Disk σ B := ⟨D.saved, fun c => c = b ∨ D.dirty c⟩

section
variable [DecidableEq B]

/-- A step of a program, no lock attempt being interrupted, or of the write-back of a dirty
    block. -/
inductive CrashStep : Prog σ C L B α × σ × Disk σ B → Prog σ C L B α × σ × Disk σ B → Prop
  | step {f k s D} : CrashStep (.step f k, s, D) (k s, f s, D)
  | mark {b k s D} : CrashStep (.mark b k, s, D) (k, s, D.mark b)
  | sync {b k s D} : CrashStep (.sync b k, s, D) (k, s, D.write b s)
  | lock {c k s D} : CrashStep (.lock c k, s, D) (k false, s, D)
  | unlock {l k s D} : CrashStep (.unlock l k, s, D) (k, s, D)
  | flush {p s D b} : D.dirty b → CrashStep (p, s, D) (p, s, D.write b s)

/-- A crash of `p`, started in state `s` with disk `D`, may leave the blocks as in `v`. -/
def Crashes (p : Prog σ C L B α) (s : σ) (D : Disk σ B) (v : B → σ) : Prop :=
  ∃ p' s' D', Relation.ReflTransGen CrashStep (p, s, D) (p', s', D') ∧ D'.saved = v

/-- The first `n` steps of a program, no block being written back. -/
def after : ℕ → Prog σ C L B α → σ → Disk σ B → Prog σ C L B α × σ × Disk σ B
  | 0, p, s, D => (p, s, D)
  | _ + 1, ret a, s, D => (ret a, s, D)
  | n + 1, step f k, s, D => after n (k s) (f s) D
  | n + 1, mark b k, s, D => after n k s (D.mark b)
  | n + 1, sync b k, s, D => after n k s (D.write b s)
  | n + 1, lock _ k, s, D => after n (k false) s D
  | n + 1, unlock _ k, s, D => after n k s D

theorem crashes_after (n : ℕ) (p : Prog σ C L B α) (s : σ) (D : Disk σ B) :
    Crashes p s D (after n p s D).2.2.saved := by
  have hsteps : Relation.ReflTransGen CrashStep (p, s, D) (after n p s D) := by
    induction n generalizing p s D with
    | zero => exact .refl
    | succ n ih =>
      cases p with
      | ret a => exact .refl
      | step f k => exact .head .step (ih (k s) (f s) D)
      | mark b k => exact .head .mark (ih k s (D.mark b))
      | sync b k => exact .head .sync (ih k s (D.write b s))
      | lock c k => exact .head .lock (ih (k false) s D)
      | unlock l k => exact .head .unlock (ih k s D)
  exact ⟨_, _, _, hsteps, rfl⟩

end

/-! ## The logic -/

/-- `p`, started in `s` with each block `b` last written in a state of `K b`, leaves disks in `P`
    only wherever it crashes, and disks and results in `Q` when it returns. -/
def Safe (P : (B → σ) → Prop) (Q : α → σ → (B → σ → Prop) → Prop) :
    Prog σ C L B α → σ → (B → σ → Prop) → Prop
  | ret a, s, K => (∀ v, (∀ b, K b (v b)) → P v) ∧ Q a s K
  | step f k, s, K => ∃ K', (∀ b u, K b u → K' b u) ∧ (∀ b, K' b (f s)) ∧ (k s).Safe P Q (f s) K'
  | mark _ k, s, K => k.Safe P Q s K
  | sync b k, s, K => (∀ v, (∀ c, K c (v c)) → P v) ∧
      ∃ K', K' b s ∧ (∀ c, c ≠ b → ∀ u, K c u → K' c u) ∧ k.Safe P Q s K'
  | lock _ k, s, K => (k false).Safe P Q s K
  | unlock _ k, s, K => k.Safe P Q s K

variable {P : (B → σ) → Prop} {Q : α → σ → (B → σ → Prop) → Prop}

/-- The disk's property holds at the point a program has reached. -/
theorem Safe.now {p : Prog σ C L B α} {s : σ} {K : B → σ → Prop} (h : p.Safe P Q s K) :
    ∀ v, (∀ b, K b (v b)) → P v := by
  induction p generalizing s K with
  | ret a => exact h.1
  | step f k ih =>
    obtain ⟨K', hK, -, h⟩ := h
    exact fun v hv => ih s h v fun b => hK b _ (hv b)
  | mark b k ih => exact ih h
  | sync b k ih => exact h.1
  | lock c k ih => exact ih false h
  | unlock l k ih => exact ih h

/-- A step leads to a program that is safe with what the blocks may have been written in then. -/
theorem Safe.next [DecidableEq B] {p p' : Prog σ C L B α} {s s' : σ} {D D' : Disk σ B}
    {K : B → σ → Prop} (h : p.Safe P Q s K) (hs : ∀ b, K b s) (hD : ∀ b, K b (D.saved b))
    (hstep : CrashStep (p, s, D) (p', s', D')) :
    ∃ K', p'.Safe P Q s' K' ∧ (∀ b, K' b s') ∧ ∀ b, K' b (D'.saved b) := by
  have hwrite : ∀ (K' : B → σ → Prop) b, K' b s → (∀ c, c ≠ b → K' c (D.saved c)) →
      ∀ c, K' c ((D.write b s).saved c) := by
    intro K' b hb hc c
    show K' c (Function.update D.saved b s c)
    by_cases hcb : c = b
    · subst hcb
      rwa [Function.update_self]
    · rw [Function.update_of_ne hcb]
      exact hc c hcb
  cases hstep with
  | step =>
    obtain ⟨K', hK, hf, h⟩ := h
    exact ⟨K', h, hf, fun b => hK b _ (hD b)⟩
  | mark => exact ⟨K, h, hs, hD⟩
  | @sync b =>
    obtain ⟨-, K', hb, hc, hk⟩ := h
    refine ⟨K', hk, fun c => ?_, hwrite K' b hb fun c hcb => hc c hcb _ (hD c)⟩
    by_cases hcb : c = b
    · exact hcb ▸ hb
    · exact hc c hcb s (hs c)
  | lock => exact ⟨K, h, hs, hD⟩
  | unlock => exact ⟨K, h, hs, hD⟩
  | @flush _ _ _ b _ => exact ⟨K, h, hs, hwrite K b (hs b) fun c _ => hD c⟩

/-- **A safe program leaves good disks.** -/
theorem Safe.crash [DecidableEq B] {p : Prog σ C L B α} {s : σ} {D : Disk σ B} {K : B → σ → Prop}
    (h : p.Safe P Q s K) (hs : ∀ b, K b s) (hD : ∀ b, K b (D.saved b)) {v : B → σ}
    (hv : Crashes p s D v) : P v := by
  obtain ⟨p', s', D', hsteps, rfl⟩ := hv
  have hinv : ∀ c : Prog σ C L B α × σ × Disk σ B, Relation.ReflTransGen CrashStep (p, s, D) c →
      ∃ K', c.1.Safe P Q c.2.1 K' ∧ (∀ b, K' b c.2.1) ∧ ∀ b, K' b (c.2.2.saved b) := by
    intro c hc
    induction hc with
    | refl => exact ⟨K, h, hs, hD⟩
    | tail _ hstep ih =>
      obtain ⟨K', h', hs', hD'⟩ := ih
      exact h'.next hs' hD' hstep
  obtain ⟨K', h', -, hD'⟩ := hinv _ hsteps
  exact h'.now _ hD'

/-! ## Rules -/

theorem safe_bind {Q : β → σ → (B → σ → Prop) → Prop} {p : Prog σ C L B α}
    {g : α → Prog σ C L B β} {s : σ} {K : B → σ → Prop}
    (h : p.Safe P (fun a s' K' => (g a).Safe P Q s' K') s K) : (p >>= g).Safe P Q s K := by
  induction p generalizing s K with
  | ret a => exact h.2
  | step f k ih =>
    obtain ⟨K', hK, hf, h⟩ := h
    exact ⟨K', hK, hf, ih s h⟩
  | mark b k ih => exact ih h
  | sync b k ih =>
    obtain ⟨hP, K', hb, hc, hk⟩ := h
    exact ⟨hP, K', hb, hc, ih hk⟩
  | lock c k ih => exact ih false h
  | unlock l k ih => exact ih h

/-- What a safe program returns and leaves is what `exec` says. -/
theorem Safe.exec {p : Prog σ C L B α} {s : σ} {K : B → σ → Prop} (h : p.Safe P Q s K) :
    p.Safe P (fun a s' K' => Q a s' K' ∧ p.exec s = (a, s')) s K := by
  induction p generalizing s K with
  | ret a => exact ⟨h.1, h.2, rfl⟩
  | step f k ih =>
    obtain ⟨K', hK, hf, h⟩ := h
    exact ⟨K', hK, hf, ih s h⟩
  | mark b k ih => exact ih h
  | sync b k ih =>
    obtain ⟨hP, K', hb, hc, hk⟩ := h
    exact ⟨hP, K', hb, hc, ih hk⟩
  | lock c k ih => exact ih false h
  | unlock l k ih => exact ih h

/-- Consequence. -/
theorem Safe.mono {Q' : α → σ → (B → σ → Prop) → Prop} {p : Prog σ C L B α} {s : σ}
    {K K' : B → σ → Prop} (hK : ∀ b u, K b u → K' b u)
    (hQ : ∀ a t J J', (∀ b u, J b u → J' b u) → Q a t J' → Q' a t J)
    (h : p.Safe P Q s K') : p.Safe P Q' s K := by
  induction p generalizing s K K' with
  | ret a => exact ⟨fun v hv => h.1 v fun b => hK b _ (hv b), hQ a s K K' hK h.2⟩
  | step f k ih =>
    obtain ⟨J, hJ, hf, h⟩ := h
    exact ⟨J, fun b u hu => hJ b u (hK b u hu), hf, ih s (fun _ _ hu => hu) h⟩
  | mark b k ih => exact ih hK h
  | sync b k ih =>
    obtain ⟨hP, J, hb, hc, hk⟩ := h
    exact ⟨fun v hv => hP v fun c => hK c _ (hv c), J, hb, fun c hcb u hu => hc c hcb u (hK c u hu),
      ih (fun _ _ hu => hu) hk⟩
  | lock c k ih => exact ih false hK h
  | unlock l k ih => exact ih hK h

section
variable {K : B → σ → Prop} {s : σ} {g : Unit → Prog σ C L B α}

theorem safe_modify {f : σ → σ} (K' : B → σ → Prop) (hK : ∀ b u, K b u → K' b u) (hf : ∀ b, K' b (f s))
    (h : (g ()).Safe P Q (f s) K') : (modify f >>= g).Safe P Q s K := ⟨K', hK, hf, h⟩

theorem safe_reads {f : σ → β} {g : β → Prog σ C L B α} (hs : ∀ b, K b s)
    (h : (g (f s)).Safe P Q s K) : (reads f >>= g).Safe P Q s K := ⟨K, fun _ _ hu => hu, hs, h⟩

theorem safe_sync {b : B} (K' : B → σ → Prop) (hP : ∀ v, (∀ c, K c (v c)) → P v) (hb : K' b s)
    (hK : ∀ c, c ≠ b → ∀ u, K c u → K' c u) (h : (g ()).Safe P Q s K') :
    (syncDirtyBuffer b >>= g).Safe P Q s K := ⟨hP, K', hb, hK, h⟩

@[simp] theorem safe_mark {b : B} :
    (markBufferDirty b >>= g).Safe P Q s K ↔ (g ()).Safe P Q s K := Iff.rfl

@[simp] theorem safe_lock {c : C} {g : Bool → Prog σ C L B α} :
    (mutexLockInterruptible c >>= g).Safe P Q s K ↔ (g false).Safe P Q s K := Iff.rfl

@[simp] theorem safe_unlock {l : L} :
    (mutexUnlock l >>= g).Safe P Q s K ↔ (g ()).Safe P Q s K := Iff.rfl

end

end Prog
