/-
  simplefs — the invariant of the superblock, the inode store and the directories.

  * `Entry g d r k`: record `r` of directory `d` is counted and names slot `k`
    (directories and files are identified with their inode-store slots);
  * `Walk g p k`: the path `p` leads from the root directory to slot `k`;
  * `StoreInv g`: the numbers and blocks of the counted slots are distinct, the
    records and the live slots match one to one, and the directories form a tree.

  From the invariant: a path leads to one slot and a slot has one path
  (`walk_fun`, `walk_inj`), and a directory without tombstone has room for one
  more record whenever some slot is dead (`children_tight`).
-/
import KernelLinux.Simplefs.Code
import Mathlib.Data.Finset.Card
import Mathlib.Tactic.Choose

namespace Simplefs

open Bytes

/-! ## Slots, records and paths -/

namespace Image
variable (g : Image)

/-- A counted slot that is not unlinked. -/
def Live (k : ℕ) : Prop := k < g.sb.inodesCount ∧ (g.store k).inodeNo ≠ 0

/-- A live slot of a directory. -/
def LiveDir (d : ℕ) : Prop := g.Live d ∧ S_ISDIR (g.store d).mode = true

/-- The data block of a slot. -/
def block (k : ℕ) : Block := g.data (g.store k).dataBlockNumber

/-- Record `r` of the directory `d` is counted and names the live slot `k`. -/
structure Entry (d r k : ℕ) : Prop where
  dir : g.LiveDir d
  counted : r < (g.store d).dirChildrenCount
  live : g.Live k
  ino : recIno (g.block d) r = (g.store k).inodeNo

/-- The path `p` leads from the root to slot `k`. -/
inductive Walk : List Name → ℕ → Prop
  | root : Walk [] 0
  | step {p : List Name} {d r k : ℕ} {x : Name} : Walk p d → g.Entry d r k →
      recIs (g.block d) r x = true → Walk (p ++ [x]) k

end Image

/-- The store invariant. -/
structure StoreInv [Target] (g : Image) : Prop where
  magic : g.sb.magic = SIMPLEFS_MAGIC
  blockSize : g.sb.blockSize = SIMPLEFS_DEFAULT_BLOCK_SIZE
  count_pos : 0 < g.sb.inodesCount
  count_le : g.sb.inodesCount ≤ SIMPLEFS_MAX_FILESYSTEM_OBJECTS_SUPPORTED
  root_no : (g.store 0).inodeNo = SIMPLEFS_ROOTDIR_INODE_NUMBER
  root_dir : S_ISDIR (g.store 0).mode = true
  number_ne : ∀ i < g.sb.inodesCount, (g.store i).number ≠ 0
  number_inj : ∀ i < g.sb.inodesCount, ∀ j < g.sb.inodesCount,
    (g.store i).number = (g.store j).number → i = j
  /-- a number is at most what the fresh path of create gave out so far -/
  number_lt : ∀ i < g.sb.inodesCount, (g.store i).number < g.sb.inodesCount + 8
  block_ge : ∀ i < g.sb.inodesCount, 2 ≤ (g.store i).dataBlockNumber
  block_inj : ∀ i < g.sb.inodesCount, ∀ j < g.sb.inodesCount,
    (g.store i).dataBlockNumber = (g.store j).dataBlockNumber → i = j
  /-- the allocator does not return a block that has an owner -/
  block_free : ∀ i < g.sb.inodesCount, 3 ≤ (g.store i).dataBlockNumber →
    g.sb.freeBlocks &&& oneShl (g.store i).dataBlockNumber = 0
  kind : ∀ k, g.Live k → S_ISDIR (g.store k).mode = true ∨ S_ISREG (g.store k).mode = true
  children_lt : ∀ d, g.LiveDir d → (g.store d).dirChildrenCount < g.sb.inodesCount
  names_live : ∀ d r, g.LiveDir d → r < (g.store d).dirChildrenCount →
    recIno (g.block d) r ≠ 0 → ∃ k, g.Entry d r k
  entry_inj : ∀ d r d' r' k, g.Entry d r k → g.Entry d' r' k → d = d' ∧ r = r'
  root_unnamed : ∀ d r, ¬ g.Entry d r 0
  walk : ∀ k, g.Live k → ∃ p, g.Walk p k
  name : ∀ d r k, g.Entry d r k → ∃ x : Name, x.Short ∧ recIs (g.block d) r x = true
  name_inj : ∀ d r r' k k' x, g.Entry d r k → g.Entry d r' k' → recIs (g.block d) r x = true →
    recIs (g.block d) r' x = true → r = r'

namespace Image
variable {g : Image}

theorem Live.number {k : ℕ} (h : g.Live k) : (g.store k).number = (g.store k).inodeNo :=
  SimplefsInode.number_live h.2

theorem Entry.ino_ne {d r k : ℕ} (h : g.Entry d r k) : recIno (g.block d) r ≠ 0 := by
  rw [h.ino]; exact h.live.2

end Image

namespace StoreInv
variable [Target] {g : Image} (H : StoreInv g)
include H

theorem live_root : g.Live 0 := ⟨H.count_pos, by rw [H.root_no]; decide⟩

/-- A number fits `inode_no`. -/
theorem number_lt_word {k : ℕ} (hk : k < g.sb.inodesCount) : (g.store k).number < 2 ^ 64 := by
  have h1 := H.number_lt k hk
  have h2 := H.count_le
  simp only [SIMPLEFS_MAX_FILESYSTEM_OBJECTS_SUPPORTED] at h2
  omega

/-- Live slots have distinct numbers. -/
theorem live_inj {i j : ℕ} (hi : g.Live i) (hj : g.Live j)
    (h : (g.store i).inodeNo = (g.store j).inodeNo) : i = j :=
  H.number_inj i hi.1 j hj.1 (by rw [hi.number, hj.number, h])

/-- A record names one slot at most. -/
theorem entry_fun {d r k k' : ℕ} (h : g.Entry d r k) (h' : g.Entry d r k') : k = k' :=
  H.live_inj h.live h'.live (h.ino.symm.trans h'.ino)

/-- The name of a record is short, and the only one it compares equal to. -/
theorem short {d r k : ℕ} {x : Name} (h : g.Entry d r k) (hx : recIs (g.block d) r x = true) :
    x.Short := by
  obtain ⟨y, hy, hr⟩ := H.name d r k h
  rwa [recIs_unique hx hr]

/-- A path leads to one slot at most. -/
theorem walk_fun {p : List Name} {k k' : ℕ} (h : g.Walk p k) (h' : g.Walk p k') : k = k' := by
  induction h generalizing k' with
  | root =>
    generalize hp : ([] : List Name) = p at h'
    cases h' with
    | root => rfl
    | step _ _ _ => exact absurd hp (by simp)
  | @step p d r k x _ he hx ih =>
    generalize hp : p ++ [x] = q at h'
    cases h' with
    | root => exact absurd hp (by simp)
    | @step p' d' r' _ x' hw' he' hx' =>
      obtain ⟨rfl, hxx⟩ := List.append_inj' hp rfl
      obtain rfl := List.cons.inj hxx |>.1
      obtain rfl := ih hw'
      obtain rfl := H.name_inj d r r' k k' x he he' hx hx'
      exact H.entry_fun he he'

/-- A slot has one path at most. -/
theorem walk_inj {p q : List Name} {k : ℕ} (h : g.Walk p k) (h' : g.Walk q k) : p = q := by
  induction h generalizing q with
  | root =>
    generalize hk : 0 = k at h'
    cases h' with
    | root => rfl
    | step _ he _ => subst hk; exact absurd he (H.root_unnamed _ _)
  | @step p d r k x _ he hx ih =>
    cases h' with
    | root => exact absurd he (H.root_unnamed _ _)
    | step hw' he' hx' =>
      obtain ⟨rfl, rfl⟩ := H.entry_inj _ _ _ _ _ he he'
      rw [ih hw', recIs_unique hx hx']

theorem walk_live {p : List Name} {k : ℕ} (h : g.Walk p k) : g.Live k := by
  cases h with
  | root => exact H.live_root
  | step _ he _ => exact he.live

/-- In a directory without tombstone, the records name distinct slots other than the root and
    any dead slot, so there is room for one more. -/
theorem children_tight {d k : ℕ} (hd : g.LiveDir d) (hk : k < g.sb.inodesCount) (hdead : ¬ g.Live k)
    (hfull : ∀ r < (g.store d).dirChildrenCount, recIno (g.block d) r ≠ 0) :
    (g.store d).dirChildrenCount + 1 < g.sb.inodesCount := by
  set n := (g.store d).dirChildrenCount with hn
  have hex : ∀ r, ∃ j, r < n → g.Entry d r j := fun r => by
    by_cases hr : r < n
    · obtain ⟨j, hj⟩ := H.names_live d r hd hr (hfull r hr); exact ⟨j, fun _ => hj⟩
    · exact ⟨0, fun h => absurd h hr⟩
  choose f hf using hex
  have hk0 : k ≠ 0 := fun h => hdead (h ▸ H.live_root)
  have hmaps : Set.MapsTo f (Finset.range n) (((Finset.range g.sb.inodesCount).erase 0).erase k) := by
    intro r hr
    have he := hf r (Finset.mem_range.1 hr)
    simp only [Finset.coe_erase, Finset.coe_range, Set.mem_sdiff, Set.mem_Iio, Set.mem_singleton_iff]
    exact ⟨⟨he.live.1, fun h => H.root_unnamed d r (h ▸ he)⟩, fun h => hdead (h ▸ he.live)⟩
  have hinj : Set.InjOn f (Finset.range n) := by
    intro r hr r' hr' h
    have he := hf r (Finset.mem_range.1 hr)
    have he' := hf r' (Finset.mem_range.1 hr')
    exact (H.entry_inj d r d r' (f r) he (h ▸ he')).2
  have := Finset.card_le_card_of_injOn f hmaps hinj
  rw [Finset.card_range, Finset.card_erase_of_mem, Finset.card_erase_of_mem, Finset.card_range] at this
  · have h0 := H.count_pos; omega
  · exact Finset.mem_range.2 H.count_pos
  · exact Finset.mem_erase.2 ⟨hk0, Finset.mem_range.2 hk⟩

end StoreInv

end Simplefs
