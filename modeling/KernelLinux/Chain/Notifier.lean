/-
  Notifier chains — `edu/list/chain.c`.

  `notifier_chain_register` moves a pointer to a link behind the blocks of the same or a higher
  priority and puts the new block there; `entry_notifier_chain` goes through a chain.

  * `notifierChainRegister`, `entryNotifierChain`: the two functions, with the number of rounds that
    their loops may make;
  * `register_ends`: a registration ends, with the block inserted behind its equals;
  * `registerAll_sorted`: the chain after any registrations is their stable sort.
-/
import KernelLinux.Lib.Links
import KernelLinux.Lib.StableSort
import Mathlib.Order.OrderDual

namespace NotifierChain

/-- The fields of a `struct notifier_block` that its functions read, `next` apart. -/
structure Block where
  priority : ℤ
  count : ℤ

section
variable {α : Type*} [DecidableEq α] (blk : α → Block)

/-- `notifier_chain_register` -/
def notifierChainRegister (fuel : ℕ) (l : Links α) (n : α) : Option (Links α) :=
  (Loop.run (l.walkStep fun a => (blk n).priority > (blk a).priority) fuel .head).map fun list =>
    (l.set (.next n) (l.get list)).set list (some n)

/-- One round of `entry_notifier_chain`, with what was printed so far. -/
def entryStep (l : Links α) : Option α × List ℤ → (Option α × List ℤ) ⊕ List ℤ
  | (none, printed) => .inr printed
  | (some head, printed) => .inl (l.next head, printed ++ [(blk head).count])

/-- `entry_notifier_chain`: the counts that it prints, and its result. -/
def entryNotifierChain (fuel : ℕ) (l : Links α) (head : Option α) : Option (List ℤ × ℤ) :=
  (Loop.run (entryStep blk l) fuel (head, [])).map fun printed => (printed, 0)

/-- Registrations one after the other. -/
def registerAll (fuel : ℕ) (l : Links α) : List α → Option (Links α)
  | [] => some l
  | n :: ns => (notifierChainRegister blk fuel l n).bind fun l => registerAll fuel l ns

/-- What a chain is sorted by: the higher priority first. -/
def key (a : α) : ℤᵒᵈ := OrderDual.toDual (blk a).priority

variable {l : Links α} {xs ns : List α}

/-- **A registration** ends, with the new block behind those of the same or a higher priority. -/
theorem register_ends (h : l.Chain .head xs) {n : α} (hn : n ∉ xs) : ∃ l' : Links α,
    Ends (fun fuel => notifierChainRegister blk fuel l n) l' ∧
      l'.Chain .head (StableSort.insert (key blk) xs n) := by
  have hwalk := Links.walk_ends h (fun a => (blk n).priority > (blk a).priority)
  refine ⟨_, hwalk.map fun list => (l.set (.next n) (l.get list)).set list (some n), ?_⟩
  have hsplit := List.takeWhile_append_dropWhile
    (p := fun a => !decide ((blk n).priority > (blk a).priority)) (l := xs)
  rw [StableSort.insert_eq]
  exact Links.chain_insert (hsplit.symm ▸ h) (hsplit.symm ▸ hn)

omit [DecidableEq α] in
/-- **Every block of a chain is met.** -/
theorem entry_ends {s : Slot α} (h : l.Chain s xs) (printed : List ℤ) :
    Ends (fun fuel => Loop.run (entryStep blk l) fuel (l.get s, printed))
      (printed ++ xs.map fun a => (blk a).count) := by
  induction xs generalizing s printed with
  | nil =>
    rw [Links.chain_nil.1 h, List.map_nil, List.append_nil]
    exact Loop.ends_leave rfl
  | cons x xs ih =>
    obtain ⟨hx, hxs⟩ := Links.chain_cons.1 h
    rw [hx, List.map_cons, List.append_cons]
    have hstep : entryStep blk l (some x, printed) = .inl (l.next x, printed ++ [(blk x).count]) := rfl
    exact (Loop.ends_continue hstep).2 (ih hxs _)

theorem registerAll_ends (h : l.Chain .head xs) (hns : ns.Nodup) (hnew : ∀ n ∈ ns, n ∉ xs) :
    ∃ l' : Links α, Ends (fun fuel => registerAll blk fuel l ns) l' ∧
      l'.Chain .head (ns.foldl (StableSort.insert (key blk)) xs) := by
  induction ns generalizing l xs with
  | nil => exact ⟨l, Ends.pure l, h⟩
  | cons n ns ih =>
    obtain ⟨hn, hns⟩ := List.nodup_cons.1 hns
    obtain ⟨l₁, hends, hchain⟩ := register_ends blk h (hnew n List.mem_cons_self)
    have hnew₁ : ∀ m ∈ ns, m ∉ StableSort.insert (key blk) xs n := by
      intro m hm hmem
      rcases List.mem_cons.1 ((StableSort.perm_insert xs n).mem_iff.1 hmem) with rfl | hmem
      · exact hn hm
      · exact hnew m (List.mem_cons_of_mem n hm) hmem
    obtain ⟨l', hends', hchain'⟩ := ih hchain hns hnew₁
    exact ⟨l', (Ends.bind_iff hends).2 hends', hchain'⟩

/-- **The chain is the stable sort** of the blocks that were there and those that were registered, by
    descending priority, and all of it is traversed. -/
theorem registerAll_sorted (hchain : l.Chain .head xs)
    (hsorted : xs.Pairwise fun a b => (blk a).priority ≥ (blk b).priority) (hns : ns.Nodup)
    (hnew : ∀ n ∈ ns, n ∉ xs) : ∃ (l' : Links α) (ys : List α),
    Ends (fun fuel => registerAll blk fuel l ns) l' ∧ l'.Chain .head ys ∧
      ys.Nodup ∧ ys.Perm (xs ++ ns) ∧
      (ys.Pairwise fun a b => (blk a).priority ≥ (blk b).priority) ∧
      (∀ p, ys.filter (fun a => (blk a).priority = p) = (xs ++ ns).filter fun a => (blk a).priority = p) ∧
      Ends (fun fuel => entryNotifierChain blk fuel l' l'.head) (ys.map fun a => (blk a).count, 0) ∧
      ys = (xs ++ ns).mergeSort fun a b => (blk a).priority ≥ (blk b).priority := by
  obtain ⟨l', hends, hchain'⟩ := registerAll_ends blk hchain hns hnew
  have hsort : ns.foldl (StableSort.insert (key blk)) xs =
      (xs ++ ns).mergeSort fun a b => (blk a).priority ≥ (blk b).priority :=
    StableSort.foldl_insert hsorted
  rw [hsort] at hchain'
  refine ⟨l', _, hends, hchain', hchain'.nodup, List.mergeSort_perm _ _, ?_, fun p => ?_, ?_, rfl⟩
  · exact StableSort.sorted_mergeSort (key blk) (xs ++ ns)
  · exact StableSort.filter_mergeSort (key blk) (xs ++ ns) (OrderDual.toDual p)
  · exact (entry_ends blk (s := .head) hchain' []).map fun printed => (printed, 0)

end

/-- The blocks of `main`, with `first` the block 0. -/
def mainBlocks (a : ℕ) : Block := ⟨if a = 0 then 10 else if a = 2 then 4 else 2, a⟩

/-- What `main` prints. -/
example : ((registerAll mainBlocks 7 ⟨some 0, fun _ => none⟩ [1, 2, 3, 4, 5]).bind fun l =>
    entryNotifierChain mainBlocks 7 l l.head) = some ([0, 2, 1, 3, 4, 5], 0) := rfl

theorem main_sorted : ∃ (l' : Links ℕ) (ys : List ℕ),
    Ends (fun fuel => registerAll mainBlocks fuel ⟨some 0, fun _ => none⟩ [1, 2, 3, 4, 5]) l' ∧
      l'.Chain .head ys ∧ ys.Nodup ∧ ys.Perm [0, 1, 2, 3, 4, 5] ∧
      (ys.Pairwise fun a b => (mainBlocks a).priority ≥ (mainBlocks b).priority) ∧
      (∀ p, ys.filter (fun a => (mainBlocks a).priority = p) =
        [0, 1, 2, 3, 4, 5].filter fun a => (mainBlocks a).priority = p) ∧
      Ends (fun fuel => entryNotifierChain mainBlocks fuel l' l'.head)
        (ys.map fun a => (mainBlocks a).count, 0) ∧
      ys = [0, 1, 2, 3, 4, 5].mergeSort fun a b => (mainBlocks a).priority ≥ (mainBlocks b).priority :=
  @registerAll_sorted ℕ _ mainBlocks _ [0] _ ⟨⟨rfl, trivial⟩, rfl⟩ (List.pairwise_singleton _ _)
    (by decide) (by decide)

end NotifierChain
