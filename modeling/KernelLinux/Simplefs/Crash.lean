/-
  simplefs — crash consistency of create, mkdir and unlink.

  The disk is followed as in `Lib/Crash`: every block is as it was when it was
  last written.  `Consistent` is what is asked of the image a crash leaves.

  A call that appends a record writes, in this order, the free map, the number of
  slots, the record, and last the inode store, in which the new slot and the
  count of the parent change together; so an image in between `Extends` the old
  one.  `crash_consistent` is about the sequences of calls in which this is so
  (`Change.Orderly`): not unlink, which writes the slot first and the record
  after it, nor the create that fills a tombstone, which writes the record and
  leaves the slot to the write-back.
-/
import KernelLinux.Lib.Crash
import KernelLinux.Simplefs.Reach

namespace Simplefs

open Bytes Prog

/-! ## Images after a crash -/

/-- What a crash leaves: each block as it was when it was last written. -/
def onDisk (v : ℕ → Fs) : Image where
  sb := (v SIMPLEFS_SUPERBLOCK_BLOCK_NUMBER).sb
  store := (v SIMPLEFS_INODESTORE_BLOCK_NUMBER).store
  data b := (v b).data b

/-- The image can be mounted, counted records name live slots, and the counted slots have
    numbers and blocks of their own. -/
structure Consistent (g : Image) : Prop where
  magic : g.sb.magic = SIMPLEFS_MAGIC
  blockSize : g.sb.blockSize = SIMPLEFS_DEFAULT_BLOCK_SIZE
  record : ∀ d, g.LiveDir d → ∀ r < (g.store d).dirChildrenCount, recIno (g.block d) r ≠ 0 →
    ∃ k, g.Live k ∧ (g.store k).inodeNo = recIno (g.block d) r
  number_ne : ∀ i < g.sb.inodesCount, (g.store i).number ≠ 0
  number_inj : ∀ i < g.sb.inodesCount, ∀ j < g.sb.inodesCount,
    (g.store i).number = (g.store j).number → i = j
  block_inj : ∀ i < g.sb.inodesCount, ∀ j < g.sb.inodesCount,
    (g.store i).dataBlockNumber = (g.store j).dataBlockNumber → i = j

theorem StoreInv.consistent [Target] {g : Image} (H : StoreInv g) : Consistent g where
  magic := H.magic
  blockSize := H.blockSize
  record d hd r hr hne := by
    obtain ⟨k, hk⟩ := H.names_live d r hd hr hne
    exact ⟨k, hk.live, hk.ino.symm⟩
  number_ne := H.number_ne
  number_inj := H.number_inj
  block_inj := H.block_inj

/-- The slot has a number and a block that no counted slot has. -/
structure FreshSlot (g : Image) (z : SimplefsInode) : Prop where
  number_ne : z.number ≠ 0
  number_new : ∀ i < g.sb.inodesCount, (g.store i).number ≠ z.number
  block_new : ∀ i < g.sb.inodesCount, (g.store i).dataBlockNumber ≠ z.dataBlockNumber

/-- `g'` has the slots of `g`, the live ones unchanged, and maybe one more; the records of the
    live directories of `g` keep their numbers, and those of a new directory name live slots. -/
structure Extends (g g' : Image) : Prop where
  magic : g'.sb.magic = g.sb.magic
  blockSize : g'.sb.blockSize = g.sb.blockSize
  count : g'.sb.inodesCount = g.sb.inodesCount ∨
    g'.sb.inodesCount = g.sb.inodesCount + 1 ∧ FreshSlot g (g'.store g.sb.inodesCount)
  slot : ∀ j < g.sb.inodesCount, (g'.store j).number = (g.store j).number ∧
    (g'.store j).dataBlockNumber = (g.store j).dataBlockNumber
  live : ∀ j, g.Live j → g'.store j = g.store j
  record : ∀ d r, g.LiveDir d → r < (g.store d).dirChildrenCount →
    recIno (g'.block d) r = recIno (g.block d) r
  newDir : ∀ d, g'.LiveDir d → ¬ g.LiveDir d → ∀ r < (g'.store d).dirChildrenCount,
    recIno (g'.block d) r ≠ 0 → ∃ k, g'.Live k ∧ (g'.store k).inodeNo = recIno (g'.block d) r

namespace Extends
variable {g g' : Image} (X : Extends g g')
include X

theorem live_mono {j : ℕ} (h : g.Live j) : g'.Live j := by
  refine ⟨?_, by rw [X.live j h]; exact h.2⟩
  have := h.1
  rcases X.count with hc | ⟨hc, -⟩ <;> omega

/-- A counted slot is an old one or the fresh one. -/
theorem slot_cases {j : ℕ} (h : j < g'.sb.inodesCount) : j < g.sb.inodesCount ∨
    j = g.sb.inodesCount ∧ FreshSlot g (g'.store j) := by
  rcases X.count with hc | ⟨hc, hf⟩
  · exact Or.inl (hc ▸ h)
  · by_cases hj : j < g.sb.inodesCount
    · exact Or.inl hj
    · obtain rfl : j = g.sb.inodesCount := by omega
      exact Or.inr ⟨rfl, hf⟩

theorem consistent [Target] (H : StoreInv g) : Consistent g' where
  magic := X.magic.trans H.magic
  blockSize := X.blockSize.trans H.blockSize
  record d hd r hr hne := by
    by_cases hd' : g.LiveDir d
    · rw [X.live d hd'.1] at hr
      have hrec := X.record d r hd' hr
      rw [hrec] at hne
      obtain ⟨k, hk⟩ := H.names_live d r hd' hr hne
      refine ⟨k, X.live_mono hk.live, ?_⟩
      rw [X.live k hk.live, hrec, hk.ino]
    · exact X.newDir d hd hd' r hr hne
  number_ne i hi := by
    rcases X.slot_cases hi with hi | ⟨-, hf⟩
    · rw [(X.slot i hi).1]
      exact H.number_ne i hi
    · exact hf.number_ne
  number_inj i hi j hj h := by
    rcases X.slot_cases hi with hi | ⟨rfl, hf⟩ <;> rcases X.slot_cases hj with hj | ⟨rfl, hf'⟩
    · rw [(X.slot i hi).1, (X.slot j hj).1] at h
      exact H.number_inj i hi j hj h
    · rw [(X.slot i hi).1] at h
      exact absurd h (hf'.number_new i hi)
    · rw [(X.slot j hj).1] at h
      exact absurd h.symm (hf.number_new j hj)
    · rfl
  block_inj i hi j hj h := by
    rcases X.slot_cases hi with hi | ⟨rfl, hf⟩ <;> rcases X.slot_cases hj with hj | ⟨rfl, hf'⟩
    · rw [(X.slot i hi).2, (X.slot j hj).2] at h
      exact H.block_inj i hi j hj h
    · rw [(X.slot i hi).2] at h
      exact absurd h (hf'.block_new i hi)
    · rw [(X.slot j hj).2] at h
      exact absurd h.symm (hf.block_new j hj)
    · rfl

end Extends

/-- What lies in the slot just past the counted ones could be an object: it has a number and a
    block of its own, and if it looks like a directory its records name slots. -/
structure StaleOk (g : Image) : Prop where
  fresh : FreshSlot g (g.store g.sb.inodesCount)
  record : (g.store g.sb.inodesCount).inodeNo ≠ 0 → S_ISDIR (g.store g.sb.inodesCount).mode = true →
    ∀ r < (g.store g.sb.inodesCount).dirChildrenCount,
      2 ≤ (g.store g.sb.inodesCount).dataBlockNumber ∧
      (recIno (g.block g.sb.inodesCount) r ≠ 0 → ∃ k ≤ g.sb.inodesCount,
        (g.store k).inodeNo = recIno (g.block g.sb.inodesCount) r)

/-- `g'` has the data of `g`, but for what lies past the records of the directory `d`. -/
structure SameRecords (g g' : Image) (d : ℕ) : Prop where
  data : ∀ b, b ≠ (g.store d).dataBlockNumber → g'.data b = g.data b
  record : ∀ r < (g.store d).dirChildrenCount,
    recIno (g'.data (g.store d).dataBlockNumber) r = recIno (g.block d) r

section
variable [Target] {g g' : Image} {d k : ℕ} {z : SimplefsInode}

theorem SameRecords.recIno (S : SameRecords g g' d) (H : StoreInv g) (hd : g.Live d) {e r : ℕ}
    (he : g.LiveDir e) (hr : r < (g.store e).dirChildrenCount) :
    recIno (g'.data (g.store e).dataBlockNumber) r = recIno (g.block e) r := by
  by_cases hed : e = d
  · subst hed
    exact S.record r hr
  · rw [S.data]
    · rfl
    · exact fun h => hed (H.block_inj e he.1.1 d hd.1 h)

/-- The counted slots are the old ones. -/
theorem Extends.of_old (H : StoreInv g) (hd : g.Live d) (S : SameRecords g g' d)
    (hm : g'.sb.magic = g.sb.magic) (hb : g'.sb.blockSize = g.sb.blockSize)
    (hc : g'.sb.inodesCount = g.sb.inodesCount)
    (hs : ∀ j < g.sb.inodesCount, g'.store j = g.store j) : Extends g g' where
  magic := hm
  blockSize := hb
  count := Or.inl hc
  slot j hj := by rw [hs j hj]; exact ⟨rfl, rfl⟩
  live j hj := hs j hj.1
  record e r he hr := by
    rw [Image.block, hs e he.1.1]
    exact S.recIno H hd he hr
  newDir e he hne := by
    have hlt : e < g.sb.inodesCount := hc ▸ he.1.1
    refine absurd ⟨⟨hlt, ?_⟩, ?_⟩ hne <;> rw [← hs e hlt]
    · exact he.1.2
    · exact he.2

/-- A dead slot has become the empty object `z`. -/
theorem Extends.of_reuse (H : StoreInv g) (hd : g.Live d) (S : SameRecords g g' d)
    (hk : k < g.sb.inodesCount) (h0 : (g.store k).inodeNo = 0) (hz : z.number = (g.store k).number)
    (hzb : z.dataBlockNumber = (g.store k).dataBlockNumber) (hsize : z.size = 0)
    (hsb : g'.sb = g.sb) (hs : g'.store = Function.update g.store k z) : Extends g g' where
  magic := by rw [hsb]
  blockSize := by rw [hsb]
  count := Or.inl (by rw [hsb])
  slot j _ := by
    by_cases hj : j = k
    · subst hj
      rw [hs, Function.update_self]
      exact ⟨hz, hzb⟩
    · rw [hs, Function.update_of_ne hj]
      exact ⟨rfl, rfl⟩
  live j hj := by
    rw [hs, Function.update_of_ne]
    rintro rfl
    exact hj.2 h0
  record e r he hr := by
    have hek : e ≠ k := by
      rintro rfl
      exact he.1.2 h0
    rw [Image.block, hs, Function.update_of_ne hek]
    exact S.recIno H hd he hr
  newDir e he hne r hr := by
    have hek : e = k := by
      by_contra hek
      refine hne ⟨⟨by rw [← hsb]; exact he.1.1, ?_⟩, ?_⟩
      · have := he.1.2
        rwa [hs, Function.update_of_ne hek] at this
      · have := he.2
        rwa [hs, Function.update_of_ne hek] at this
    subst hek
    rw [hs, Function.update_self, SimplefsInode.dirChildrenCount, hsize] at hr
    exact absurd hr (Nat.not_lt_zero r)

/-- One more slot is counted. -/
theorem Extends.of_fresh (H : StoreInv g) (hd : g.Live d) (S : SameRecords g g' d)
    (hm : g'.sb.magic = g.sb.magic) (hb : g'.sb.blockSize = g.sb.blockSize)
    (hc : g'.sb.inodesCount = g.sb.inodesCount + 1)
    (hs : ∀ j < g.sb.inodesCount, g'.store j = g.store j)
    (hf : FreshSlot g (g'.store g.sb.inodesCount))
    (hdir : g'.LiveDir g.sb.inodesCount → ∀ r < (g'.store g.sb.inodesCount).dirChildrenCount,
      Simplefs.recIno (g'.block g.sb.inodesCount) r ≠ 0 →
        ∃ k, g'.Live k ∧ (g'.store k).inodeNo = Simplefs.recIno (g'.block g.sb.inodesCount) r) :
    Extends g g' where
  magic := hm
  blockSize := hb
  count := Or.inr ⟨hc, hf⟩
  slot j hj := by rw [hs j hj]; exact ⟨rfl, rfl⟩
  live j hj := hs j hj.1
  record e r he hr := by
    rw [Image.block, hs e he.1.1]
    exact S.recIno H hd he hr
  newDir e he hne := by
    have he' : e = g.sb.inodesCount := by
      by_contra hec
      have hlt : e < g.sb.inodesCount := by
        have := he.1.1
        omega
      refine hne ⟨⟨hlt, ?_⟩, ?_⟩ <;> rw [← hs e hlt]
      · exact he.1.2
      · exact he.2
    exact he' ▸ hdir (he' ▸ he)

/-- The slot just past the counted ones is counted before it is written. -/
theorem Extends.of_stale (H : StoreInv g) (hd : g.Live d) (S : SameRecords g g' d)
    (hm : g'.sb.magic = g.sb.magic) (hb : g'.sb.blockSize = g.sb.blockSize)
    (hc : g'.sb.inodesCount = g.sb.inodesCount + 1) (hs : g'.store = g.store) (h : StaleOk g) :
    Extends g g' := by
  refine .of_fresh H hd S hm hb hc (fun j _ => by rw [hs]) (by rw [hs]; exact h.fresh) ?_
  intro hlive r hr hne
  have hblock : g'.block g.sb.inodesCount = g.block g.sb.inodesCount := by
    rw [Image.block, hs]
    exact S.data _ fun he => h.fresh.block_new d hd.1 he.symm
  have hno := hlive.1.2
  have hmode := hlive.2
  rw [hs] at hno hmode hr
  rw [hblock] at hne ⊢
  obtain ⟨k, hk, hino⟩ := (h.record hno hmode r hr).2 hne
  refine ⟨k, ⟨by omega, ?_⟩, ?_⟩ <;> rw [hs, hino]
  exact hne

end

/-! ## What the blocks may hold -/

/-- The states in which the superblock is in `A`, the inode store in `B` and a data block `b` in
    `E b`, each for the block that is written. -/
def Versions (A : SuperBlock → Prop) (B : (ℕ → SimplefsInode) → Prop) (E : ℕ → Block → Prop) :
    ℕ → Fs → Prop := fun b u =>
  (b = SIMPLEFS_SUPERBLOCK_BLOCK_NUMBER → A u.sb) ∧
    (b = SIMPLEFS_INODESTORE_BLOCK_NUMBER → B u.store) ∧ E b (u.data b)

/-- Every block is on the disk as the cache has it. -/
def Clean (s : Fs) : ℕ → Fs → Prop := Versions (· = s.sb) (· = s.store) fun b c => c = s.data b

section
variable {A A' : SuperBlock → Prop} {B B' : (ℕ → SimplefsInode) → Prop} {E E' : ℕ → Block → Prop}

theorem Versions.onDisk {v : ℕ → Fs} (h : ∀ b, Versions A B E b (v b)) :
    A (onDisk v).sb ∧ B (onDisk v).store ∧ ∀ b, E b ((onDisk v).data b) :=
  ⟨(h _).1 rfl, (h _).2.1 rfl, fun b => (h b).2.2⟩

theorem Versions.mono (hA : ∀ a, A a → A' a) (hB : ∀ b, B b → B' b) (hE : ∀ b c, E b c → E' b c)
    (b : ℕ) (u : Fs) (h : Versions A B E b u) : Versions A' B' E' b u :=
  ⟨fun hb => hA _ (h.1 hb), fun hb => hB _ (h.2.1 hb), hE _ _ h.2.2⟩

theorem Versions.of {s : Fs} (hA : A s.sb) (hB : B s.store) (hE : ∀ b, E b (s.data b)) (b : ℕ) :
    Versions A B E b s :=
  ⟨fun _ => hA, fun _ => hB, hE b⟩

theorem clean_self (s : Fs) (b : ℕ) : Clean s b s := Versions.of rfl rfl (fun _ => rfl) b

theorem image_ext {g g' : Image} (hsb : g.sb = g'.sb) (hstore : g.store = g'.store)
    (hdata : g.data = g'.data) : g = g' := by
  cases g
  cases g'
  cases hsb
  cases hstore
  cases hdata
  rfl

theorem clean_onDisk {s : Fs} {v : ℕ → Fs} (h : ∀ b, Clean s b (v b)) : onDisk v = s.toImage := by
  obtain ⟨hA, hB, hE⟩ := Versions.onDisk h
  exact image_ext hA hB (funext hE)

end

theorem StoreInv.clean_consistent [Target] {s : Fs} (H : StoreInv s.toImage) {v : ℕ → Fs}
    (h : ∀ b, Clean s b (v b)) : Consistent (onDisk v) := by
  rw [clean_onDisk h]
  exact H.consistent

/-! ## create and mkdir -/

/-- The call leaves consistent images wherever it crashes, and none of its work to the
    write-back. -/
abbrev CrashSafe {α : Type} (p : FsProg α) (s : Fs) (K : ℕ → Fs → Prop) : Prop :=
  p.Safe (fun v => Consistent (onDisk v)) (fun _ s' K' => ∀ b u, K' b u → Clean s' b u) s K

/-- `simplefs_inode_save`, when it finds the slot. -/
theorem safe_inodeSave {α : Type} {P : (ℕ → Fs) → Prop} {Q : α → Fs → (ℕ → Fs → Prop) → Prop}
    {p i : ℕ} {g : Except Errno Unit → FsProg α} {s : Fs} {K : ℕ → Fs → Prop}
    (K' K'' : ℕ → Fs → Prop) (hi : inodeSearch s.toImage (s.sfs p) = some i) (hK : ∀ b u, K b u → K' b u)
    (hs : ∀ b, K' b (saveSlot p s)) (hP : ∀ v, (∀ b, K' b (v b)) → P v)
    (hb : K'' SIMPLEFS_INODESTORE_BLOCK_NUMBER (saveSlot p s))
    (hK' : ∀ c, c ≠ SIMPLEFS_INODESTORE_BLOCK_NUMBER → ∀ u, K' c u → K'' c u)
    (h : (g (.ok ())).Safe P Q (saveSlot p s) K'') : (inodeSave p >>= g).Safe P Q s K := by
  unfold inodeSave
  simp only [Prog.bind_assoc, safe_lock, Bool.false_eq_true, if_false, step_bind, ret_bind]
  refine ⟨K', hK, hs, ?_⟩
  simp only [hi]
  exact ⟨hP, K'', hb, hK', h⟩

section
variable [Target] {s : Fs} {dir d k : ℕ} {a : NewInode} {x : Name} {z : SimplefsInode}

/-- `simplefs_create_fs_object` after the call of `simplefs_inode_add`, when it appends a record:
    the record is written before the inode store that counts it. -/
theorem MayCreate.safe_createCommit (M : MayCreate s dir d a x) {t u : Fs} {i : ℕ}
    (hdata : t.data = s.data) (hinodes : t.inodes = s.inodes) (hlt : z.inodeNo < 2 ^ 64)
    (hu : u = appendName dir (s.store d).dataBlockNumber x z.inodeNo t)
    (hsearch : inodeSearch u.toImage (u.sfs dir) = some i)
    (hnew : StoreInv (saveSlot dir u).toImage)
    (hold : ∀ g' : Image, g'.sb = t.sb → (g'.store = s.store ∨ g'.store = t.store) →
      SameRecords s.toImage g' d → Consistent g') :
    CrashSafe (createCommit a dir (s.store d).dataBlockNumber x z true) t
      (Versions (· = t.sb) (fun b => b = s.store ∨ b = t.store) fun b c => c = s.data b) := by
  set blk := (s.store d).dataBlockNumber with hblk
  have htsfs : (t.sfs dir).dirChildrenCount = (s.store d).dirChildrenCount := by
    rw [← M.at_dir.sfs, Fs.sfs, hinodes, Fs.sfs]
  have husb : u.sb = t.sb := by rw [hu]; rfl
  have hustore : u.store = t.store := by rw [hu]; rfl
  have hudata : u.data = Function.update s.data blk
      (appendRecord (s.data blk) (s.store d).dirChildrenCount x z.inodeNo) := by
    rw [hu, ← htsfs, ← hdata]
    rfl
  have hsame : ∀ g' : Image, (∀ b, g'.data b = s.data b ∨ g'.data b = u.data b) →
      SameRecords s.toImage g' d := by
    intro g' hg
    refine ⟨fun b hb => ?_, fun r hr => ?_⟩
    · rcases hg b with h | h
      · exact h
      · rw [h, hudata, Function.update_of_ne hb]
    · rcases hg blk with h | h
      · rw [h]
        rfl
      · rw [h, hudata, Function.update_self]
        exact (appendRecord_spec _ _ M.short hlt).ino_ne r hr.ne
  unfold CrashSafe createCommit
  simp only [if_true]
  -- the record, beyond those the parent counts
  refine safe_modify (Versions (· = t.sb) (fun b => b = s.store ∨ b = t.store)
      fun b c => c = s.data b ∨ c = u.data b)
    (Versions.mono (fun _ h => h) (fun _ h => h) fun b c h => Or.inl h)
    (Versions.of rfl (Or.inr rfl) fun b => Or.inr (by rw [hu]; rfl)) ?_
  simp only [safe_mark]
  refine safe_sync (Versions (· = t.sb) (fun b => b = s.store ∨ b = t.store)
    fun b c => c = u.data b) (fun v hv => ?_) ⟨fun _ => rfl, fun _ => Or.inr rfl, by rw [hu]; rfl⟩
    (fun c hc w h => ⟨h.1, h.2.1, ?_⟩) ?_
  · obtain ⟨hA, hB, hE⟩ := Versions.onDisk hv
    exact hold _ hA hB (hsame _ hE)
  · rcases h.2.2 with h | h
    · rw [h, hudata, Function.update_of_ne hc]
    · exact h
  simp only [safe_lock, Bool.false_eq_true, if_false]
  refine safe_modify _ (fun _ _ h => h) (Versions.of rfl (Or.inr rfl) fun b => by rw [hu]; rfl) ?_
  rw [show (t.setBlock blk fun b => appendRecord b (t.sfs dir).dirChildrenCount x
    z.inodeNo).setSfs dir (fun y => { y with size := y.dirChildrenCount + 1 }) = u from hu.symm]
  -- the new slot and the count, at once
  refine safe_inodeSave (Versions (· = t.sb) (fun b => b = s.store ∨ b = t.store ∨
      b = (saveSlot dir u).store) fun b c => c = u.data b) (Clean (saveSlot dir u)) hsearch
    (Versions.mono (fun _ h => h) (fun _ h => h.imp_right Or.inl) fun _ _ h => h)
    (Versions.of ((saveSlot_sb dir u).trans husb) (Or.inr (Or.inr rfl))
      fun b => by rw [saveSlot_data]) (fun v hv => ?_)
    ⟨fun _ => rfl, fun _ => rfl, rfl⟩ (fun c hc w h => ⟨fun h0 => ?_, fun hb => absurd hb hc, ?_⟩) ?_
  · obtain ⟨hA, hB, hE⟩ := Versions.onDisk hv
    rcases hB with hB | hB | hB
    · exact hold _ hA (Or.inl hB) (hsame _ fun b => Or.inr (hE b))
    · exact hold _ hA (Or.inr hB) (hsame _ fun b => Or.inr (hE b))
    · rw [show onDisk v = (saveSlot dir u).toImage from
        image_ext (by rw [hA, saveSlot_sb, husb]) hB (by rw [saveSlot_data]; exact funext hE)]
      exact hnew.consistent
  · rw [h.1 h0, saveSlot_sb, husb]
  · rw [h.2.2, saveSlot_data]
  · simp only [safe_unlock]
    refine safe_modify _ (fun _ _ h => h) (Versions.of rfl rfl fun b => rfl)
      ⟨fun _ => hnew.clean_consistent, fun _ _ h => h⟩

/-- The save of the parent's inode that ends a create which appends a record. -/
theorem Created.save {s' u : Fs} {r : ℕ} {exist : Bool} (H : FsInv s)
    (C : Created s s' a dir d k r x z)
    (h : (createFinish a dir (s.store d).dataBlockNumber x z exist false).exec u = (.ok (), s')) :
    (∃ i, inodeSearch (appendName dir (s.store d).dataBlockNumber x z.inodeNo
      (addSlot z exist u)).toImage ((appendName dir (s.store d).dataBlockNumber x z.inodeNo
        (addSlot z exist u)).sfs dir) = some i) ∧
    StoreInv (saveSlot dir (appendName dir (s.store d).dataBlockNumber x z.inodeNo
      (addSlot z exist u))).toImage := by
  rw [exec_createFinish_append] at h
  simp only at h
  split at h
  · cases h
    exact ⟨⟨_, ‹_›⟩, (C.inv H).toStoreInv⟩
  · cases h

/-- A dead slot is reused, in a directory without tombstone. -/
theorem FsInv.safe_reuse (H : FsInv s) (M : MayCreate s dir d a x) (hk : firstDead s.toImage = some k)
    (hr : firstTombstone (s.block d) (s.store d).dirChildrenCount = none)
    (hz : z.inodeNo = (s.store k).deadInodeNo)
    (hb : z.dataBlockNumber = (s.store k).dataBlockNumber)
    (hkind : S_ISDIR z.mode = true ∨ S_ISREG z.mode = true) (hsize : z.size = 0) :
    CrashSafe (createFinish a dir (s.store d).dataBlockNumber x z true false) s (Clean s) := by
  obtain ⟨hkc, hk0, -⟩ := firstDead_some.1 hk
  have hnum : (s.store k).number = z.inodeNo := (SimplefsInode.number_dead hk0).trans hz.symm
  obtain ⟨s', hs', C⟩ := H.create_reuse M hk hr hz hb hkind hsize
  obtain ⟨⟨i, hi⟩, hnew⟩ := C.save H hs'
  have hdead : findDead s.toImage z.inodeNo = some k := by
    rw [hz]
    exact H.findDead hkc hk0
  have hadd : addSlot z true s = s.setSlot k z := by simp [addSlot, hdead]
  rw [hadd] at hi hnew
  unfold CrashSafe createFinish inodeAdd
  simp only [Prog.bind_assoc, safe_lock, Bool.false_eq_true, if_false, if_true]
  refine safe_modify (Versions (· = s.sb) (fun b => b = s.store ∨ b = (s.setSlot k z).store)
    fun b c => c = s.data b) (Versions.mono (fun _ h => h) (fun _ h => Or.inl h) fun _ _ h => h)
    ?_ ?_ <;> simp only [hdead]
  · exact Versions.of rfl (Or.inr rfl) fun b => rfl
  · simp only [safe_mark, safe_unlock]
    refine M.safe_createCommit rfl rfl (hnum ▸ H.number_lt_word hkc) rfl hi hnew ?_
    rintro g' hsb (hs | hs) S
    · exact (Extends.of_old H.toStoreInv M.at_dir.live S (by rw [hsb]; rfl) (by rw [hsb]; rfl)
        (by rw [hsb]; rfl) fun j _ => by rw [hs]).consistent H.toStoreInv
    · exact (Extends.of_reuse H.toStoreInv M.at_dir.live S hkc hk0
        ((SimplefsInode.number_live (hnum ▸ H.number_ne k hkc)).trans hnum.symm) hb hsize hsb
        hs).consistent H.toStoreInv

/-- A new slot is used, whose stale content could be an object's. -/
theorem FsInv.safe_fresh (H : FsInv s) (M : MayCreate s dir d a x) {b : ℕ}
    (hlt : s.sb.inodesCount < SIMPLEFS_MAX_FILESYSTEM_OBJECTS_SUPPORTED)
    (hb : findFreeBlock s.sb.freeBlocks = some b) (hz : z.inodeNo = s.sb.inodesCount + 8)
    (hzb : z.dataBlockNumber = b) (hkind : S_ISDIR z.mode = true ∨ S_ISREG z.mode = true)
    (hsize : z.size = 0) (hstale : StaleOk s.toImage) :
    CrashSafe (createFinish a dir (s.store d).dataBlockNumber x z false false) (takeBlock b s)
      (Clean (takeBlock b s)) := by
  obtain ⟨s', hs', C⟩ := H.create_fresh M hlt hb hz hzb hkind hsize
  obtain ⟨⟨i, hi⟩, hnew⟩ := C.save H hs'
  set t := addSlot z false (takeBlock b s) with ht
  have hH := H.toStoreInv
  have hfresh : FreshSlot s.toImage z := by
    have hznum : z.number = z.inodeNo := SimplefsInode.number_live (by omega)
    refine ⟨hznum ▸ C.added.z_ne, fun j hj => ?_, fun j hj => C.added.z_block_fresh j hj hj.ne⟩
    rw [hznum]
    exact C.added.z_fresh j hj hj.ne
  have htk : t.store s.sb.inodesCount = z := Function.update_self (f := s.store) _ _
  have htj : ∀ j < s.sb.inodesCount, t.store j = s.store j := fun j hj =>
    Function.update_of_ne hj.ne _ s.store
  -- the slot counted, and not yet or already written
  have hold : ∀ g' : Image, g'.sb = t.sb → (g'.store = s.store ∨ g'.store = t.store) →
      SameRecords s.toImage g' d → Consistent g' := by
    rintro g' hsb (hs | hs) S
    · exact (Extends.of_stale hH M.at_dir.live S (by rw [hsb]; rfl) (by rw [hsb]; rfl)
        (by rw [hsb]; rfl) hs hstale).consistent hH
    · refine (Extends.of_fresh hH M.at_dir.live S (by rw [hsb]; rfl) (by rw [hsb]; rfl)
        (by rw [hsb]; rfl) (fun j hj => by rw [hs, htj j hj]) (by rw [hs, htk]; exact hfresh)
        fun _ r hr => ?_).consistent hH
      rw [hs, htk, SimplefsInode.dirChildrenCount, hsize] at hr
      exact absurd hr (Nat.not_lt_zero r)
  unfold CrashSafe createFinish inodeAdd
  simp only [Prog.bind_assoc, safe_lock, Bool.false_eq_true, if_false]
  refine safe_modify (Versions (fun b' => b' = (takeBlock b s).sb ∨ b' = t.sb)
    (fun b => b = s.store ∨ b = t.store) fun b c => c = s.data b)
    (Versions.mono (fun _ h => Or.inl h) (fun _ h => Or.inl h) fun _ _ h => h)
    (Versions.of (Or.inl rfl) (Or.inr rfl) fun b => rfl) ?_
  refine safe_modify _ (fun _ _ h => h) (Versions.of (Or.inr rfl) (Or.inr rfl) fun b => rfl) ?_
  simp only [sbSync, Prog.bind_assoc, safe_mark]
  refine safe_sync (Versions (· = t.sb) (fun b => b = s.store ∨ b = t.store) fun b c => c = s.data b)
    (fun v hv => ?_) ⟨fun _ => rfl, fun _ => Or.inr rfl, rfl⟩
    (fun c hc w h => ⟨fun h0 => absurd h0 hc, h.2⟩) ?_
  · obtain ⟨hA, hB, hE⟩ := Versions.onDisk hv
    have S : SameRecords s.toImage (onDisk v) d := ⟨fun b _ => hE b, fun r _ => by rw [hE]; rfl⟩
    rcases hA with hA | hA
    · refine (Extends.of_old hH M.at_dir.live S (by rw [hA]; rfl) (by rw [hA]; rfl)
        (by rw [hA]; rfl) fun j hj => ?_).consistent hH
      rcases hB with hB | hB
      · rw [hB]
      · rw [hB, htj j hj]
    · exact hold _ hA hB S
  · simp only [safe_mark, safe_unlock]
    refine M.safe_createCommit rfl rfl ?_ rfl hi hnew hold
    simp only [SIMPLEFS_MAX_FILESYSTEM_OBJECTS_SUPPORTED] at hlt
    omega

/-! ## The calls -/

/-- The conditions under which create and mkdir do not leave their work to the write-back: they
    fail, reuse a dead slot in a directory without tombstone, or find in the slot just past the
    counted ones something that could be an object. -/
def CreateOrderly (s : Fs) (new : Option NewInode) (dir : ℕ) : Prop :=
  s.sb.inodesCount < SIMPLEFS_MAX_FILESYSTEM_OBJECTS_SUPPORTED → new.isSome = true →
    match firstDead s.toImage with
    | some _ =>
      firstTombstone (s.data (s.sfs dir).dataBlockNumber) (s.sfs dir).dirChildrenCount = none
    | none => findFreeBlock s.sb.freeBlocks = none ∨ StaleOk s.toImage

theorem FsInv.safe_createFsObject (H : FsInv s) (hd : s.At dir d) {new : Option NewInode}
    (M : ∀ a, new = some a → MayCreate s dir d a x) {mode : ℕ}
    (hkind : S_ISDIR mode = true ∨ S_ISREG mode = true) (h : CreateOrderly s new dir) :
    CrashSafe (createFsObject new dir x mode) s (Clean s) := by
  have hclean := clean_self s
  have hsame : ∀ r : Except Errno Unit, CrashSafe (ret r : FsProg _) s (Clean s) :=
    fun r => ⟨fun _ => H.toStoreInv.clean_consistent, fun _ _ h => h⟩
  have hmode : (!S_ISDIR mode && !S_ISREG mode) = false := by
    rcases hkind with h | h <;> simp [h]
  unfold CrashSafe createFsObject sbGetObjectsCount
  simp only [Prog.bind_assoc, safe_lock, Bool.false_eq_true, if_false]
  refine safe_reads hclean ?_
  simp only [safe_unlock, pure_def, ret_bind, hmode, Bool.false_eq_true, if_false]
  split_ifs with hc
  · exact hsame (.error .enospc)
  cases new with
  | none => exact hsame (.error .enomem)
  | some a =>
    have M := M a rfl
    have h := h (by omega) rfl
    unfold createBody getDeadInodeNo
    refine safe_reads hclean ?_
    simp only [Prog.bind_assoc]
    refine safe_reads hclean ?_
    simp only [safe_mark, pure_def, ret_bind, hd.sfs] at h ⊢
    cases hk : firstDead s.toImage with
    | some k =>
      simp only [hk] at h
      simp only [Option.map_some]
      refine ⟨Clean s, fun _ _ hu => hu, ?_, ?_⟩ <;> simp only [hd.sfs, h]
      · exact hclean
      · exact H.safe_reuse M hk h rfl rfl hkind rfl
    | none =>
      simp only [hk] at h
      simp only [Option.map_none, sbGetAFreeblock, Prog.bind_assoc, safe_lock, Bool.false_eq_true, if_false]
      refine safe_reads hclean ?_
      cases hb : findFreeBlock s.sb.freeBlocks with
      | none => exact hsame (.error .enospc)
      | some b =>
        have hstale := h.resolve_left (by simp [hb])
        simp only [Prog.bind_assoc]
        refine safe_modify (Versions (fun b' => b' = s.sb ∨ b' = (takeBlock b s).sb) (· = s.store)
          fun b c => c = s.data b) (Versions.mono (fun _ h => Or.inl h) (fun _ h => h) fun _ _ h => h)
          (Versions.of (Or.inr rfl) rfl fun b => rfl) ?_
        simp only [sbSync, Prog.bind_assoc, safe_mark]
        refine safe_sync (Clean (takeBlock b s)) (fun v hv => ?_) ⟨fun _ => rfl, fun _ => rfl, rfl⟩
          (fun c hc w h => ⟨fun h0 => absurd h0 hc, h.2⟩) ?_
        · obtain ⟨hA, hB, hE⟩ := Versions.onDisk hv
          have S : SameRecords s.toImage (onDisk v) d := ⟨fun b _ => hE b, fun r _ => by rw [hE]; rfl⟩
          refine (Extends.of_old H.toStoreInv M.at_dir.live S ?_ ?_ ?_ fun j _ => by rw [hB]).consistent
            H.toStoreInv <;> rcases hA with hA | hA <;> rw [hA] <;> rfl
        · simp only [safe_unlock, pure_def, ret_bind]
          exact H.safe_fresh M (by omega) hb rfl rfl hkind rfl hstale

end

/-! ## Sequences of calls -/

namespace Change
variable [Target]

/-- The call does not leave its work to the write-back. -/
def Orderly (s : Fs) : Change → Prop
  | create new dir _ _ | mkdir new dir _ _ => CreateOrderly s new dir
  | unlink _ _ _ => False

/-- One call after the other. -/
def all : List Change → FsProg Unit
  | [] => pure ()
  | c :: cs => do
    let _ ← c.prog
    all cs

/-- `P` holds of each call in the state it is made in. -/
def Along (P : Fs → Change → Prop) : Fs → List Change → Prop
  | _, [] => True
  | s, c :: cs => P s c ∧ Along P (c.prog.exec s).2 cs

theorem safe_prog {s : Fs} (H : FsInv s) {c : Change} (ha : c.Allowed s) (ho : c.Orderly s) :
    CrashSafe c.prog s (Clean s) := by
  cases c with
  | create new dir x mode =>
    obtain ⟨C, hreg⟩ := ha.op
    obtain ⟨d, hd, M⟩ := C.may H
    exact H.safe_createFsObject hd M (Or.inr hreg) ho
  | mkdir new dir x mode =>
    obtain ⟨C, hmode⟩ := ha.op
    obtain ⟨d, hd, M⟩ := C.may H
    exact H.safe_createFsObject hd M (Or.inl (isDir_mkdir hmode)) ho
  | unlink dir x p => exact ho.elim

/-- Each call finds the disk as the cache is, and leaves it so. -/
theorem safe_all {s : Fs} (H : FsInv s) {cs : List Change} (ha : Along (fun s c => c.Allowed s) s cs)
    (ho : Along Orderly s cs) : CrashSafe (all cs) s (Clean s) := by
  induction cs generalizing s with
  | nil => exact ⟨fun _ => H.toStoreInv.clean_consistent, fun _ _ h => h⟩
  | cons c cs ih =>
    refine safe_bind ((safe_prog H ha.1 ho.1).exec.mono (fun _ _ h => h) ?_)
    rintro r t J J' hJ ⟨hclean, hexec⟩
    have ht : (c.prog.exec s).2 = t := by rw [hexec]
    have hc := ha.2
    have ho := ho.2
    rw [ht] at hc ho
    exact (ih (ha.1.inv H hexec) hc ho).mono (fun b u hu => hclean b u (hJ b u hu))
      fun _ _ _ _ hJ hQ b u hu => hQ b u (hJ b u hu)

end Change

/-- **A crash leaves a consistent image**, if the calls do not leave their work to the
    write-back. -/
theorem crash_consistent [Target] {s : Fs} (H : FsInv s) {D : Disk Fs ℕ}
    (hD : ∀ b, Clean s b (D.saved b)) {cs : List Change}
    (ha : Change.Along (fun s c => c.Allowed s) s cs) (ho : Change.Along Change.Orderly s cs)
    {v : ℕ → Fs} (hv : Crashes (Change.all cs) s D v) :
    ∃ s', fillSuper (onDisk v) = .ok s' ∧ Consistent s'.toImage := by
  have hc : Consistent (onDisk v) :=
    (Change.safe_all H ha ho).crash (clean_self s) hD hv
  obtain ⟨s', hs'⟩ : ∃ s', fillSuper (onDisk v) = .ok s' := by
    simp [fillSuper, hc.magic, hc.blockSize]
  refine ⟨s', hs', ?_⟩
  rwa [fillSuper_image hs']

section

attribute [local instance] x86

/-- A device whose inode store still holds a file of an earlier file system. -/
def usedDisk : Image :=
  { blankDisk with store := Function.update blankDisk.store 2 ⟨S_IFREG, 10, 0, 4, 0⟩ }

/-- The state after `mkfs-simplefs` and a mount of it. -/
def usedFs : Fs := { blankFs with store := (mkfs usedDisk 0).store }

/-- `touch a` -/
def touchA : Change := .create (some ⟨1, default⟩) rootAddr nameA S_IFREG

/-- The blocks after the first `n` steps of `touch a`, in a state that is on the disk. -/
def touchedA (s : Fs) (n : ℕ) : ℕ → Fs :=
  (after n (Change.all [touchA]) s ⟨fun _ => s, fun _ => False⟩).2.2.saved

theorem usedFs_inv : FsInv usedFs :=
  (mkfs_mounted (show fillSuper (mkfs usedDisk 0) = .ok usedFs from rfl)).inv mkfs_inv

theorem touchA_usedFs : Change.Along (fun s c => c.Allowed s) usedFs [touchA] ∧
    Change.Along Change.Orderly usedFs [touchA] := by
  refine ⟨⟨⟨⟨⟨rfl, by decide, rfl, ?_, fun a _ => ?_⟩, rfl⟩, trivial⟩, trivial⟩, ?_, trivial⟩
  · unfold Fs.Has
    decide
  · obtain rfl := Option.some.inj ‹some (⟨1, default⟩ : NewInode) = some a›
    rfl
  · intro _ _
    have hdead : firstDead usedFs.toImage = none := by decide
    simp only [hdead]
    exact Or.inr ⟨⟨by decide, by decide, by decide⟩, fun _ hd => absurd hd (by decide)⟩

/-- The number of slots is on the disk, the slot is not. -/
theorem crash_consistent_touchA :
    ∃ s', fillSuper (onDisk (touchedA usedFs 19)) = .ok s' ∧ Consistent s'.toImage :=
  crash_consistent usedFs_inv (clean_self usedFs) touchA_usedFs.1 touchA_usedFs.2
    (crashes_after 19 _ _ _)

/-- On a blank device, the same crash leaves a counted slot without a number. -/
theorem touchA_torn : FsInv blankFs ∧ touchA.Allowed blankFs ∧
    ∃ v, Crashes (Change.all [touchA]) blankFs ⟨fun _ => blankFs, fun _ => False⟩ v ∧
      ¬ ∃ s', fillSuper (onDisk v) = .ok s' ∧ Consistent s'.toImage := by
  refine ⟨blankFs_inv, ⟨createA_step.allowed, trivial⟩, touchedA blankFs 19, crashes_after 19 _ _ _, ?_⟩
  rintro ⟨s', hs', hc⟩
  rw [fillSuper_image hs'] at hc
  exact hc.number_ne 2 (by decide) (by decide)

end

end Simplefs
