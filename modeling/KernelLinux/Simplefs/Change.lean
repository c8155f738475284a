/-
  simplefs — what an operation does to the image, and that the store invariant
  survives it.

  The operations change an image in three ways: `Added` (create and mkdir),
  `Removed` (unlink) and `Saved` (write).  Each transition lists the facts later
  proofs need and none of the code's control flow.  For each, the records and
  paths of the new image are computed from those of the old one
  (`Added.entry_iff`, `Added.walk_iff`, ...), and `StoreInv` follows.
-/
import KernelLinux.Simplefs.Store

namespace Simplefs

open Bytes

/-! ## create and mkdir -/

/-- Slot `k`, which was dead or just beyond the counted ones, becomes the live slot `z`, named
    `x` by record `r` of directory `d`; the record was a tombstone or the first uncounted one. -/
structure Added [Target] (g g' : Image) (d k r : ℕ) (x : Name) (z : SimplefsInode) : Prop where
  dir : g.LiveDir d
  k_le : k ≤ g.sb.inodesCount
  k_lt : k < SIMPLEFS_MAX_FILESYSTEM_OBJECTS_SUPPORTED
  k_dead : ¬ g.Live k
  count : g'.sb.inodesCount = max g.sb.inodesCount (k + 1)
  magic : g'.sb.magic = g.sb.magic
  blockSize : g'.sb.blockSize = g.sb.blockSize
  free : ∀ m, g.sb.freeBlocks &&& m = 0 → g'.sb.freeBlocks &&& m = 0
  free_z : g'.sb.freeBlocks &&& oneShl z.dataBlockNumber = 0 ∨ z.dataBlockNumber < 3
  z_ne : z.inodeNo ≠ 0
  z_lt : z.inodeNo < g'.sb.inodesCount + 8
  z_fresh : ∀ j < g.sb.inodesCount, j ≠ k → (g.store j).number ≠ z.inodeNo
  z_block : 2 ≤ z.dataBlockNumber
  z_block_fresh : ∀ j < g.sb.inodesCount, j ≠ k → (g.store j).dataBlockNumber ≠ z.dataBlockNumber
  z_kind : S_ISDIR z.mode = true ∨ S_ISREG z.mode = true
  z_size : z.size = 0
  r_le : r ≤ (g.store d).size
  r_free : r < (g.store d).size → recIno (g.block d) r = 0
  children_lt : max (g.store d).size (r + 1) < g'.sb.inodesCount
  short : x.Short
  new : ∀ r' j, g.Entry d r' j → recIs (g.block d) r' x = false
  store : g'.store = Function.update (Function.update g.store k z) d
    { g.store d with size := max (g.store d).size (r + 1) }
  record : RecordSet (g.block d) (g'.data (g.store d).dataBlockNumber) r x z.inodeNo
  data : ∀ b, b ≠ (g.store d).dataBlockNumber → g'.data b = g.data b

namespace Added
variable [Target] {g g' : Image} {d k r : ℕ} {x : Name} {z : SimplefsInode}
  (A : Added g g' d k r x z)
include A

theorem ne : d ≠ k := fun h => A.k_dead (h ▸ A.dir.1)

theorem store_k : g'.store k = z := by
  rw [A.store, Function.update_of_ne (Ne.symm A.ne), Function.update_self]

theorem store_d : g'.store d = { g.store d with size := max (g.store d).size (r + 1) } := by
  rw [A.store, Function.update_self]

theorem store_ne {j : ℕ} (hd : j ≠ d) (hk : j ≠ k) : g'.store j = g.store j := by
  rw [A.store, Function.update_of_ne hd, Function.update_of_ne hk]

/-- The other slots keep everything but the directory's count. -/
theorem store_other {j : ℕ} (hk : j ≠ k) :
    (g'.store j).inodeNo = (g.store j).inodeNo ∧ (g'.store j).number = (g.store j).number ∧
      (g'.store j).dataBlockNumber = (g.store j).dataBlockNumber ∧
      (g'.store j).mode = (g.store j).mode := by
  by_cases hd : j = d
  · subst hd; rw [A.store_d]; exact ⟨rfl, rfl, rfl, rfl⟩
  · rw [A.store_ne hd hk]; exact ⟨rfl, rfl, rfl, rfl⟩

theorem lt_count_iff {j : ℕ} (hk : j ≠ k) : j < g'.sb.inodesCount ↔ j < g.sb.inodesCount := by
  have := A.k_le
  rw [A.count]; omega

theorem number_k : (g'.store k).number = z.inodeNo := by
  rw [A.store_k, SimplefsInode.number_live A.z_ne]

theorem live_iff {j : ℕ} : g'.Live j ↔ g.Live j ∨ j = k := by
  by_cases hk : j = k
  · subst hk
    refine iff_of_true ⟨?_, by rw [A.store_k]; exact A.z_ne⟩ (Or.inr rfl)
    rw [A.count]; omega
  · simp only [Image.Live, A.lt_count_iff hk, (A.store_other hk).1, hk, or_false]

theorem live_ne {j : ℕ} (h : g.Live j) : j ≠ k := fun hk => A.k_dead (hk ▸ h)

theorem liveDir_ne {e : ℕ} (hk : e ≠ k) : g'.LiveDir e ↔ g.LiveDir e := by
  rw [Image.LiveDir, Image.LiveDir, A.live_iff, (A.store_other hk).2.2.2]
  simp [hk]

/-- The other directories keep their block. -/
theorem block_ne (H : StoreInv g) {e : ℕ} (he : g.Live e) (hd : e ≠ d) : g'.block e = g.block e := by
  rw [Image.block, (A.store_other (A.live_ne he)).2.2.1]
  exact A.data _ fun h => hd (H.block_inj e he.1 d A.dir.1.1 h)

theorem block_d : g'.block d = g'.data (g.store d).dataBlockNumber := by
  rw [Image.block, A.store_d]

/-- No live slot has the new number. -/
theorem ino_ne {j : ℕ} (h : g.Live j) : (g.store j).inodeNo ≠ z.inodeNo := by
  rw [← h.number]; exact A.z_fresh j h.1 (A.live_ne h)

/-- A record of the old image is still there. -/
theorem entry_mono (H : StoreInv g) {e r' j : ℕ} (h : g.Entry e r' j) : g'.Entry e r' j := by
  have hj := A.live_ne h.live
  have hdir := (A.liveDir_ne (A.live_ne h.dir.1)).2 h.dir
  by_cases he : e = d
  · subst he
    have hr : r' ≠ r := fun hr => h.ino_ne (by rw [hr]; exact A.r_free (hr ▸ h.counted))
    refine ⟨hdir, ?_, A.live_iff.2 (Or.inl h.live), ?_⟩
    · rw [A.store_d]; exact lt_of_lt_of_le h.counted (le_max_left _ _)
    · rw [A.block_d, A.record.ino_ne r' hr, (A.store_other hj).1]; exact h.ino
  · refine ⟨hdir, ?_, A.live_iff.2 (Or.inl h.live), ?_⟩
    · rw [A.store_ne he (A.live_ne h.dir.1)]; exact h.counted
    · rw [A.block_ne H h.dir.1 he, (A.store_other hj).1]; exact h.ino

theorem entry_new : g'.Entry d r k := by
  refine ⟨(A.liveDir_ne A.ne).2 A.dir, ?_, A.live_iff.2 (Or.inr rfl), ?_⟩
  · rw [A.store_d]; exact lt_of_lt_of_le (Nat.lt_succ_self r) (le_max_right _ _)
  · rw [A.block_d, A.record.ino, A.store_k]

/-- A counted record of the new image that holds a number is an old one or the new one. -/
theorem record_cases (H : StoreInv g) {e r' : ℕ} (hdir : g'.LiveDir e)
    (hr : r' < (g'.store e).dirChildrenCount) (hne : recIno (g'.block e) r' ≠ 0) :
    (∃ j, g.Entry e r' j) ∨ (e = d ∧ r' = r) := by
  have hek : e ≠ k := by
    rintro rfl
    have : (g'.store e).dirChildrenCount = 0 := by rw [A.store_k]; exact A.z_size
    omega
  have hed := (A.liveDir_ne hek).1 hdir
  by_cases he : e = d
  · subst he
    by_cases hrr : r' = r
    · exact Or.inr ⟨rfl, hrr⟩
    · rw [A.block_d, A.record.ino_ne r' hrr] at hne
      refine Or.inl (H.names_live e r' hed ?_ hne)
      rw [A.store_d] at hr
      have := A.r_le
      simp only [SimplefsInode.dirChildrenCount] at hr ⊢
      omega
  · rw [A.block_ne H hed.1 he] at hne
    rw [A.store_ne he hek] at hr
    exact Or.inl (H.names_live e r' hed hr hne)

/-- **The records of the new image.** -/
theorem entry_iff (H : StoreInv g) {e r' j : ℕ} :
    g'.Entry e r' j ↔ g.Entry e r' j ∨ (e = d ∧ r' = r ∧ j = k) := by
  constructor
  · intro h
    have inj : ∀ i, g'.Live i → (g'.store i).inodeNo = (g'.store j).inodeNo → i = j := by
      intro i hi hij
      rcases A.live_iff.1 hi with hi | rfl
      · rcases A.live_iff.1 h.live with hj | rfl
        · rw [(A.store_other (A.live_ne hi)).1, (A.store_other (A.live_ne hj)).1] at hij
          exact H.live_inj hi hj hij
        · rw [A.store_k, (A.store_other (A.live_ne hi)).1] at hij
          exact absurd hij (A.ino_ne hi)
      · rcases A.live_iff.1 h.live with hj | rfl
        · rw [A.store_k, (A.store_other (A.live_ne hj)).1] at hij
          exact absurd hij.symm (A.ino_ne hj)
        · rfl
    rcases A.record_cases H h.dir h.counted h.ino_ne with ⟨i, hi⟩ | ⟨rfl, rfl⟩
    · have hi' := A.entry_mono H hi
      rw [← inj i hi'.live (hi'.ino.symm.trans h.ino)]
      exact Or.inl hi
    · exact Or.inr ⟨rfl, rfl, (inj k A.entry_new.live (A.entry_new.ino.symm.trans h.ino)).symm⟩
  · rintro (h | ⟨rfl, rfl, rfl⟩)
    · exact A.entry_mono H h
    · exact A.entry_new

/-- An old record keeps its name. -/
theorem recIs_old (H : StoreInv g) {e r' j : ℕ} (h : g.Entry e r' j) {y : Name} (hy : y.Short) :
    recIs (g'.block e) r' y = recIs (g.block e) r' y := by
  by_cases he : e = d
  · subst he
    have hr : r' ≠ r := fun hr => h.ino_ne (by rw [hr]; exact A.r_free (hr ▸ h.counted))
    rw [A.block_d, A.record.name_ne r' y hr hy]
  · rw [A.block_ne H h.dir.1 he]

/-- An old record compares equal to the same names. -/
theorem recIs_old_iff (H : StoreInv g) {e r' j : ℕ} (h : g.Entry e r' j) {y : Name} :
    recIs (g'.block e) r' y = true ↔ recIs (g.block e) r' y = true := by
  obtain ⟨w, hw, hr⟩ := H.name e r' j h
  have hr' := (A.recIs_old H h hw).trans hr
  constructor
  · intro hy; rwa [recIs_unique hy hr']
  · intro hy; rwa [recIs_unique hy hr]

theorem recIs_new {y : Name} : recIs (g'.block d) r y = true ↔ y = x := by
  rw [A.block_d]
  exact ⟨fun h => recIs_unique h A.record.name, fun h => h ▸ A.record.name⟩

theorem walk_mono (H : StoreInv g) {p : List Name} {j : ℕ} (h : g.Walk p j) : g'.Walk p j := by
  induction h with
  | root => exact .root
  | step _ he hx ih => exact .step ih (A.entry_mono H he) ((A.recIs_old_iff H he).2 hx)

/-- **The paths of the new image.** -/
theorem walk_iff (H : StoreInv g) {q : List Name} {j : ℕ} :
    g'.Walk q j ↔ g.Walk q j ∨ (j = k ∧ ∃ p, g.Walk p d ∧ q = p ++ [x]) := by
  constructor
  · intro h
    induction h with
    | root => exact Or.inl .root
    | @step q e r' j y _ he hy ih =>
      rcases (A.entry_iff H).1 he with he' | ⟨rfl, rfl, rfl⟩
      · rcases ih with ih | ⟨rfl, -⟩
        · exact Or.inl (.step ih he' ((A.recIs_old_iff H he').1 hy))
        · exact absurd he'.dir.1 A.k_dead
      · rcases ih with ih | ⟨rfl, -⟩
        · exact Or.inr ⟨rfl, q, ih, by rw [A.recIs_new.1 hy]⟩
        · exact absurd rfl A.ne
  · rintro (h | ⟨rfl, p, hp, rfl⟩)
    · exact A.walk_mono H h
    · exact .step (A.walk_mono H hp) A.entry_new (A.recIs_new.2 rfl)

/-- **create and mkdir keep the store invariant.** -/
theorem inv (H : StoreInv g) : StoreInv g' where
  magic := A.magic.trans H.magic
  blockSize := A.blockSize.trans H.blockSize
  count_pos := by rw [A.count]; omega
  count_le := by have h1 := A.k_lt; have h2 := H.count_le; rw [A.count]; omega
  root_no := by
    rw [(A.store_other (A.live_ne H.live_root)).1]; exact H.root_no
  root_dir := by
    rw [(A.store_other (A.live_ne H.live_root)).2.2.2]; exact H.root_dir
  number_ne i hi := by
    by_cases hk : i = k
    · rw [hk, A.number_k]; exact A.z_ne
    · rw [(A.store_other hk).2.1]; exact H.number_ne i ((A.lt_count_iff hk).1 hi)
  number_inj i hi j hj h := by
    by_cases hik : i = k <;> by_cases hjk : j = k
    · rw [hik, hjk]
    · rw [hik, A.number_k, (A.store_other hjk).2.1] at h
      exact absurd h.symm (A.z_fresh j ((A.lt_count_iff hjk).1 hj) hjk)
    · rw [hjk, A.number_k, (A.store_other hik).2.1] at h
      exact absurd h (A.z_fresh i ((A.lt_count_iff hik).1 hi) hik)
    · rw [(A.store_other hik).2.1, (A.store_other hjk).2.1] at h
      exact H.number_inj i ((A.lt_count_iff hik).1 hi) j ((A.lt_count_iff hjk).1 hj) h
  number_lt i hi := by
    by_cases hk : i = k
    · rw [hk, A.number_k]; exact A.z_lt
    · have := H.number_lt i ((A.lt_count_iff hk).1 hi)
      rw [(A.store_other hk).2.1, A.count]; omega
  block_ge i hi := by
    by_cases hk : i = k
    · rw [hk, A.store_k]; exact A.z_block
    · rw [(A.store_other hk).2.2.1]; exact H.block_ge i ((A.lt_count_iff hk).1 hi)
  block_inj i hi j hj h := by
    by_cases hik : i = k <;> by_cases hjk : j = k
    · rw [hik, hjk]
    · rw [hik, A.store_k, (A.store_other hjk).2.2.1] at h
      exact absurd h.symm (A.z_block_fresh j ((A.lt_count_iff hjk).1 hj) hjk)
    · rw [hjk, A.store_k, (A.store_other hik).2.2.1] at h
      exact absurd h (A.z_block_fresh i ((A.lt_count_iff hik).1 hi) hik)
    · rw [(A.store_other hik).2.2.1, (A.store_other hjk).2.2.1] at h
      exact H.block_inj i ((A.lt_count_iff hik).1 hi) j ((A.lt_count_iff hjk).1 hj) h
  block_free i hi h3 := by
    by_cases hk : i = k
    · rw [hk, A.store_k] at h3 ⊢
      exact A.free_z.resolve_right (by omega)
    · rw [(A.store_other hk).2.2.1] at h3 ⊢
      exact A.free _ (H.block_free i ((A.lt_count_iff hk).1 hi) h3)
  kind j hj := by
    rcases A.live_iff.1 hj with hj | rfl
    · rw [(A.store_other (A.live_ne hj)).2.2.2]; exact H.kind j hj
    · rw [A.store_k]; exact A.z_kind
  children_lt e he := by
    by_cases hek : e = k
    · have h := A.count
      rw [hek, A.store_k, SimplefsInode.dirChildrenCount, A.z_size]; omega
    · have he' := (A.liveDir_ne hek).1 he
      by_cases hed : e = d
      · rw [hed, A.store_d]; exact A.children_lt
      · have h1 := H.children_lt e he'
        have h2 := A.count
        rw [A.store_ne hed hek]; omega
  names_live e r' he hr hne := by
    rcases A.record_cases H he hr hne with ⟨j, hj⟩ | ⟨rfl, rfl⟩
    · exact ⟨j, A.entry_mono H hj⟩
    · exact ⟨k, A.entry_new⟩
  entry_inj e r' e' r'' j h h' := by
    rcases (A.entry_iff H).1 h with h | ⟨rfl, rfl, rfl⟩ <;>
      rcases (A.entry_iff H).1 h' with h' | ⟨rfl, rfl, hj⟩
    · exact H.entry_inj e r' e' r'' j h h'
    · exact absurd hj (A.live_ne h.live)
    · exact absurd rfl (A.live_ne h'.live)
    · exact ⟨rfl, rfl⟩
  root_unnamed e r' h := by
    rcases (A.entry_iff H).1 h with h | ⟨-, -, h⟩
    · exact H.root_unnamed e r' h
    · exact A.live_ne H.live_root h
  walk j hj := by
    rcases A.live_iff.1 hj with hj | rfl
    · obtain ⟨p, hp⟩ := H.walk j hj; exact ⟨p, A.walk_mono H hp⟩
    · obtain ⟨p, hp⟩ := H.walk d A.dir.1
      exact ⟨p ++ [x], (A.walk_iff H).2 (Or.inr ⟨rfl, p, hp, rfl⟩)⟩
  name e r' j h := by
    rcases (A.entry_iff H).1 h with h | ⟨rfl, rfl, -⟩
    · obtain ⟨y, hy, hr⟩ := H.name e r' j h
      exact ⟨y, hy, (A.recIs_old_iff H h).2 hr⟩
    · exact ⟨x, A.short, A.recIs_new.2 rfl⟩
  name_inj e r' r'' j j' y h h' hy hy' := by
    rcases (A.entry_iff H).1 h with h | ⟨rfl, rfl, -⟩ <;>
      rcases (A.entry_iff H).1 h' with h' | ⟨he, rfl, -⟩
    · exact H.name_inj e r' r'' j j' y h h' ((A.recIs_old_iff H h).1 hy)
        ((A.recIs_old_iff H h').1 hy')
    · subst he
      have hx := (A.recIs_old_iff H h).1 (A.recIs_new.1 hy' ▸ hy)
      exact absurd hx (by simp [A.new r' j h])
    · have hx := (A.recIs_old_iff H h').1 (A.recIs_new.1 hy ▸ hy')
      exact absurd hx (by simp [A.new r'' j' h'])
    · rfl

end Added

/-! ## unlink -/

/-- The file in slot `k`, named by record `r` of directory `d`, is unlinked. -/
structure Removed (g g' : Image) (d k r : ℕ) : Prop where
  entry : g.Entry d r k
  file : S_ISREG (g.store k).mode = true
  sb : g'.sb = g.sb
  store : g'.store = Function.update g.store k
    { g.store k with inodeNo := 0, deadInodeNo := (g.store k).inodeNo }
  record : g'.data (g.store d).dataBlockNumber = clearRecord (g.block d) r
  data : ∀ b, b ≠ (g.store d).dataBlockNumber → g'.data b = g.data b

namespace Removed
variable [Target] {g g' : Image} {d k r : ℕ} (R : Removed g g' d k r)
include R

omit [Target] in
theorem not_dir {j : ℕ} (h : g.LiveDir j) : j ≠ k := by
  rintro rfl
  exact absurd h.2 (by simp [not_dir_of_reg R.file])

omit [Target] in
theorem store_ne {j : ℕ} (h : j ≠ k) : g'.store j = g.store j := by
  rw [R.store, Function.update_of_ne h]

omit [Target] in
theorem store_k :
    g'.store k = { g.store k with inodeNo := 0, deadInodeNo := (g.store k).inodeNo } := by
  rw [R.store, Function.update_self]

omit [Target] in
/-- Every slot keeps its number, block and mode. -/
theorem store_all (j : ℕ) : (g'.store j).number = (g.store j).number ∧
    (g'.store j).dataBlockNumber = (g.store j).dataBlockNumber ∧
    (g'.store j).mode = (g.store j).mode ∧ (g'.store j).size = (g.store j).size := by
  by_cases h : j = k
  · subst h
    rw [R.store_k]
    exact ⟨by rw [R.entry.live.number]; rfl, rfl, rfl, rfl⟩
  · rw [R.store_ne h]; exact ⟨rfl, rfl, rfl, rfl⟩

omit [Target] in
theorem live_iff {j : ℕ} : g'.Live j ↔ g.Live j ∧ j ≠ k := by
  by_cases h : j = k
  · subst h; simp [Image.Live, R.store_k]
  · simp [Image.Live, R.store_ne h, R.sb, h]

omit [Target] in
theorem liveDir_iff {e : ℕ} : g'.LiveDir e ↔ g.LiveDir e := by
  rw [Image.LiveDir, R.live_iff, (R.store_all e).2.2.1]
  exact ⟨fun h => ⟨h.1.1, h.2⟩, fun h => ⟨⟨h.1, R.not_dir h⟩, h.2⟩⟩

theorem block_ne (H : StoreInv g) {e : ℕ} (he : g.Live e) (hd : e ≠ d) : g'.block e = g.block e := by
  rw [Image.block, (R.store_all e).2.1]
  exact R.data _ fun h => hd (H.block_inj e he.1 d R.entry.dir.1.1 h)

omit [Target] in
theorem block_d : g'.block d = clearRecord (g.block d) r := by
  rw [Image.block, (R.store_all d).2.1]; exact R.record

/-- The records other than the cleared one keep their number. -/
theorem recIno_ne (H : StoreInv g) {e r' : ℕ} (he : g.Live e) (h : ¬ (e = d ∧ r' = r)) :
    recIno (g'.block e) r' = recIno (g.block e) r' := by
  by_cases hd : e = d
  · subst hd; rw [R.block_d, recIno_clearRecord_ne _ fun hr => h ⟨rfl, hr⟩]
  · rw [R.block_ne H he hd]

/-- Every record of a live directory keeps its short names. -/
theorem recIs_eq (H : StoreInv g) {e r' : ℕ} (he : g.Live e) {y : Name} (hy : y.Short) :
    recIs (g'.block e) r' y = recIs (g.block e) r' y := by
  by_cases hd : e = d
  · subst hd; rw [R.block_d, recIs_clearRecord _ _ _ hy]
  · rw [R.block_ne H he hd]

/-- **The records of the new image.** -/
theorem entry_iff (H : StoreInv g) {e r' j : ℕ} :
    g'.Entry e r' j ↔ g.Entry e r' j ∧ j ≠ k := by
  constructor
  · intro h
    obtain ⟨hj, hjk⟩ := R.live_iff.1 h.live
    have hdir := R.liveDir_iff.1 h.dir
    have hne : ¬ (e = d ∧ r' = r) := by
      rintro ⟨rfl, rfl⟩
      exact h.ino_ne (by rw [R.block_d, recIno_clearRecord])
    refine ⟨⟨hdir, ?_, hj, ?_⟩, hjk⟩
    · have := h.counted
      rwa [SimplefsInode.dirChildrenCount, (R.store_all e).2.2.2] at this
    · rw [← R.recIno_ne H hdir.1 hne, h.ino, R.store_ne hjk]
  · rintro ⟨h, hjk⟩
    have hne : ¬ (e = d ∧ r' = r) := by
      rintro ⟨rfl, rfl⟩
      exact hjk (H.entry_fun h R.entry)
    refine ⟨R.liveDir_iff.2 h.dir, ?_, R.live_iff.2 ⟨h.live, hjk⟩, ?_⟩
    · rw [SimplefsInode.dirChildrenCount, (R.store_all e).2.2.2]; exact h.counted
    · rw [R.recIno_ne H h.dir.1 hne, h.ino, R.store_ne hjk]

theorem recIs_old_iff (H : StoreInv g) {e r' j : ℕ} (h : g.Entry e r' j) {y : Name} :
    recIs (g'.block e) r' y = true ↔ recIs (g.block e) r' y = true := by
  obtain ⟨w, hw, hr⟩ := H.name e r' j h
  have hr' := (R.recIs_eq H h.dir.1 hw).trans hr
  constructor
  · intro hy; rwa [recIs_unique hy hr']
  · intro hy; rwa [recIs_unique hy hr]

/-- **The paths of the new image.** -/
theorem walk_iff (H : StoreInv g) {q : List Name} {j : ℕ} :
    g'.Walk q j ↔ g.Walk q j ∧ j ≠ k := by
  constructor
  · intro h
    induction h with
    | root => exact ⟨.root, fun h => H.root_unnamed d r (h ▸ R.entry)⟩
    | step _ he hy ih =>
      obtain ⟨he', hjk⟩ := (R.entry_iff H).1 he
      exact ⟨.step ih.1 he' ((R.recIs_old_iff H he').1 hy), hjk⟩
  · rintro ⟨h, hjk⟩
    induction h with
    | root => exact .root
    | step _ he hy ih =>
      exact .step (ih (R.not_dir he.dir)) ((R.entry_iff H).2 ⟨he, hjk⟩)
        ((R.recIs_old_iff H he).2 hy)

/-- **unlink keeps the store invariant.** -/
theorem inv (H : StoreInv g) : StoreInv g' where
  magic := by rw [R.sb]; exact H.magic
  blockSize := by rw [R.sb]; exact H.blockSize
  count_pos := by rw [R.sb]; exact H.count_pos
  count_le := by rw [R.sb]; exact H.count_le
  root_no := by
    have hk : 0 ≠ k := fun h => H.root_unnamed d r (h ▸ R.entry)
    rw [R.store_ne hk]; exact H.root_no
  root_dir := by rw [(R.store_all 0).2.2.1]; exact H.root_dir
  number_ne i hi := by
    rw [(R.store_all i).1]; exact H.number_ne i (by rwa [R.sb] at hi)
  number_inj i hi j hj h := by
    rw [(R.store_all i).1, (R.store_all j).1] at h
    rw [R.sb] at hi hj
    exact H.number_inj i hi j hj h
  number_lt i hi := by
    rw [R.sb] at hi ⊢
    rw [(R.store_all i).1]; exact H.number_lt i hi
  block_ge i hi := by
    rw [(R.store_all i).2.1]; exact H.block_ge i (by rwa [R.sb] at hi)
  block_inj i hi j hj h := by
    rw [(R.store_all i).2.1, (R.store_all j).2.1] at h
    rw [R.sb] at hi hj
    exact H.block_inj i hi j hj h
  block_free i hi h3 := by
    rw [(R.store_all i).2.1] at h3 ⊢
    rw [R.sb] at hi ⊢
    exact H.block_free i hi h3
  kind j hj := by
    rw [(R.store_all j).2.2.1]; exact H.kind j (R.live_iff.1 hj).1
  children_lt e he := by
    rw [SimplefsInode.dirChildrenCount, (R.store_all e).2.2.2, R.sb]
    exact H.children_lt e (R.liveDir_iff.1 he)
  names_live e r' he hr hne := by
    have he' := R.liveDir_iff.1 he
    have hnd : ¬ (e = d ∧ r' = r) := by
      rintro ⟨rfl, rfl⟩; exact hne (by rw [R.block_d, recIno_clearRecord])
    rw [R.recIno_ne H he'.1 hnd] at hne
    rw [SimplefsInode.dirChildrenCount, (R.store_all e).2.2.2] at hr
    obtain ⟨j, hj⟩ := H.names_live e r' he' hr hne
    exact ⟨j, (R.entry_iff H).2 ⟨hj, fun h => hnd (H.entry_inj _ _ _ _ k (h ▸ hj) R.entry)⟩⟩
  entry_inj e r' e' r'' j h h' :=
    H.entry_inj e r' e' r'' j ((R.entry_iff H).1 h).1 ((R.entry_iff H).1 h').1
  root_unnamed e r' h := H.root_unnamed e r' ((R.entry_iff H).1 h).1
  walk j hj := by
    obtain ⟨hj, hjk⟩ := R.live_iff.1 hj
    obtain ⟨p, hp⟩ := H.walk j hj
    exact ⟨p, (R.walk_iff H).2 ⟨hp, hjk⟩⟩
  name e r' j h := by
    have h' := ((R.entry_iff H).1 h).1
    obtain ⟨y, hy, hr⟩ := H.name e r' j h'
    exact ⟨y, hy, (R.recIs_old_iff H h').2 hr⟩
  name_inj e r' r'' j j' y h h' hy hy' := by
    have h1 := ((R.entry_iff H).1 h).1
    have h2 := ((R.entry_iff H).1 h').1
    exact H.name_inj e r' r'' j j' y h1 h2 ((R.recIs_old_iff H h1).1 hy)
      ((R.recIs_old_iff H h2).1 hy')

end Removed

/-! ## write -/

/-- The counted slots keep everything but the sizes of files, and the directories their
    blocks. -/
structure Saved (g g' : Image) : Prop where
  sb : g'.sb = g.sb
  store : ∀ j < g.sb.inodesCount, g'.store j = { g.store j with size := (g'.store j).size }
  size_dir : ∀ e, g.LiveDir e → (g'.store e).dirChildrenCount = (g.store e).dirChildrenCount
  block : ∀ e, g.LiveDir e → g'.block e = g.block e

namespace Saved
variable {g g' : Image} (S : Saved g g')
include S

/-- Every counted slot keeps its numbers, block and mode. -/
theorem store_all {j : ℕ} (h : j < g.sb.inodesCount) :
    (g'.store j).inodeNo = (g.store j).inodeNo ∧ (g'.store j).number = (g.store j).number ∧
      (g'.store j).dataBlockNumber = (g.store j).dataBlockNumber ∧
      (g'.store j).mode = (g.store j).mode := by
  rw [S.store j h]; exact ⟨rfl, rfl, rfl, rfl⟩

theorem live_iff {j : ℕ} : g'.Live j ↔ g.Live j := by
  rw [Image.Live, Image.Live, S.sb]
  exact and_congr_right fun h => by rw [(S.store_all h).1]

theorem liveDir_iff {e : ℕ} : g'.LiveDir e ↔ g.LiveDir e := by
  rw [Image.LiveDir, Image.LiveDir, S.live_iff]
  exact and_congr_right fun h => by rw [(S.store_all h.1).2.2.2]

/-- **The records of the new image.** -/
theorem entry_iff {e r j : ℕ} : g'.Entry e r j ↔ g.Entry e r j := by
  constructor
  · intro h
    have hd := S.liveDir_iff.1 h.dir
    have hj := S.live_iff.1 h.live
    exact ⟨hd, (S.size_dir e hd) ▸ h.counted, hj,
      by rw [← S.block e hd, h.ino, (S.store_all hj.1).1]⟩
  · intro h
    exact ⟨S.liveDir_iff.2 h.dir, (S.size_dir e h.dir).symm ▸ h.counted, S.live_iff.2 h.live,
      by rw [S.block e h.dir, h.ino, (S.store_all h.live.1).1]⟩

/-- **The paths of the new image.** -/
theorem walk_iff {q : List Name} {j : ℕ} : g'.Walk q j ↔ g.Walk q j := by
  constructor
  · intro h
    induction h with
    | root => exact .root
    | step _ he hy ih =>
      have he' := S.entry_iff.1 he
      exact .step ih he' (by rwa [← S.block _ he'.dir])
  · intro h
    induction h with
    | root => exact .root
    | step _ he hy ih => exact .step ih (S.entry_iff.2 he) (by rwa [S.block _ he.dir])

/-- **write keeps the store invariant.** -/
theorem inv [Target] (H : StoreInv g) : StoreInv g' where
  magic := by rw [S.sb]; exact H.magic
  blockSize := by rw [S.sb]; exact H.blockSize
  count_pos := by rw [S.sb]; exact H.count_pos
  count_le := by rw [S.sb]; exact H.count_le
  root_no := by rw [(S.store_all H.count_pos).1]; exact H.root_no
  root_dir := by rw [(S.store_all H.count_pos).2.2.2]; exact H.root_dir
  number_ne i hi := by
    rw [S.sb] at hi
    rw [(S.store_all hi).2.1]; exact H.number_ne i hi
  number_inj i hi j hj h := by
    rw [S.sb] at hi hj
    rw [(S.store_all hi).2.1, (S.store_all hj).2.1] at h
    exact H.number_inj i hi j hj h
  number_lt i hi := by
    rw [S.sb] at hi ⊢
    rw [(S.store_all hi).2.1]; exact H.number_lt i hi
  block_ge i hi := by
    rw [S.sb] at hi
    rw [(S.store_all hi).2.2.1]; exact H.block_ge i hi
  block_inj i hi j hj h := by
    rw [S.sb] at hi hj
    rw [(S.store_all hi).2.2.1, (S.store_all hj).2.2.1] at h
    exact H.block_inj i hi j hj h
  block_free i hi h3 := by
    rw [S.sb] at hi ⊢
    rw [(S.store_all hi).2.2.1] at h3 ⊢
    exact H.block_free i hi h3
  kind j hj := by
    have hj' := S.live_iff.1 hj
    rw [(S.store_all hj'.1).2.2.2]; exact H.kind j hj'
  children_lt e he := by
    have he' := S.liveDir_iff.1 he
    rw [S.size_dir e he', S.sb]
    exact H.children_lt e he'
  names_live e r he hr hne := by
    have he' := S.liveDir_iff.1 he
    rw [S.block e he'] at hne
    rw [S.size_dir e he'] at hr
    obtain ⟨j, hj⟩ := H.names_live e r he' hr hne
    exact ⟨j, S.entry_iff.2 hj⟩
  entry_inj e r e' r' j h h' := H.entry_inj e r e' r' j (S.entry_iff.1 h) (S.entry_iff.1 h')
  root_unnamed e r h := H.root_unnamed e r (S.entry_iff.1 h)
  walk j hj := by
    obtain ⟨p, hp⟩ := H.walk j (S.live_iff.1 hj)
    exact ⟨p, S.walk_iff.2 hp⟩
  name e r j h := by
    have h' := S.entry_iff.1 h
    obtain ⟨y, hy, hr⟩ := H.name e r j h'
    exact ⟨y, hy, by rwa [S.block e h'.dir]⟩
  name_inj e r r' j j' y h h' hy hy' := by
    have h1 := S.entry_iff.1 h
    rw [S.block e h1.dir] at hy hy'
    exact H.name_inj e r r' j j' y h1 (S.entry_iff.1 h') hy hy'

end Saved

end Simplefs
