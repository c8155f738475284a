/-
  simplefs — unlink, write, lookup and mounting under the invariant.

  * `Unlinked`, `Wrote`, `WroteStale`, `Looked`: what one call does to the state;
    each keeps `FsInv`.
  * `FsInv.unlink_spec`, `FsInv.write_cases`, `FsInv.lookup_cases`: the calls make
    these transitions.
  * `mkfs_inv`, `mount_spec`: the image of `mkfs-simplefs` satisfies the store
    invariant, and mounting such an image gives a state that satisfies `FsInv`.
-/
import KernelLinux.Simplefs.Created

namespace Simplefs

open Bytes Prog

/-! ## unlink -/

/-- The name `x` of the file in slot `k` is removed from the directory `d`; its inode, at `p`, is
    stale from now on. -/
structure Unlinked (s s' : Fs) (dir p d k r : ℕ) (x : Name) : Prop where
  at_dir : s.At dir d
  at_file : s.At p k
  named : recIs (s.block d) r x = true
  removed : Removed s.toImage s'.toImage d k r
  bound : s.dcache dir x = some p
  inodes : s'.inodes = Function.update s.inodes p
    ((s.inodes p).map fun v => { v with priv := some (s'.store k) })
  dcache : s'.dcache = Function.update s.dcache dir (Function.update (s.dcache dir) x none)

namespace Unlinked
variable [Target] {s s' : Fs} {dir p d k r : ℕ} {x : Name} (U : Unlinked s s' dir p d k r x)
include U

omit [Target] in
theorem inodes_ne {q : ℕ} (h : q ≠ p) : s'.inodes q = s.inodes q := by
  rw [U.inodes, Function.update_of_ne h]

omit [Target] in
/-- The inode of the unlinked file is stale. -/
theorem stale_new {v : Inode} (hv : s'.inodes p = some v) : Stale s'.toImage v k := by
  obtain ⟨w, hw, hb⟩ := U.at_file
  rw [U.inodes, Function.update_self, hw, Option.map_some] at hv
  obtain rfl := Option.some.inj hv
  have hk := U.removed.store_k
  have hl := hb.live.1
  refine ⟨by rw [U.removed.sb]; exact hl, ⟨_, rfl, by rw [hk], ?_, rfl⟩, ?_⟩
  · rw [SimplefsInode.number_dead (by rw [hk])]
  · rw [hb.isReg]; exact U.removed.file

omit [Target] in
theorem at_mono {q j : ℕ} (h : s.At q j) (hj : j ≠ k) (hq : q ≠ p) : s'.At q j := by
  obtain ⟨v, hv, hb⟩ := h
  exact ⟨v, by rw [U.inodes_ne hq, hv],
    hb.congr (U.removed.live_iff.2 ⟨hb.live, hj⟩) (U.removed.store_ne hj)⟩

omit [Target] in
theorem stale_mono {v : Inode} {j : ℕ} (h : Stale s.toImage v j) : Stale s'.toImage v j := by
  have ho := U.removed.store_all j
  exact h.congr (by rw [U.removed.sb]; exact h.lt) ho.1 ho.2.1

theorem at_iff (H : FsInv s) {q j : ℕ} : s'.At q j ↔ s.At q j ∧ j ≠ k := by
  constructor
  · rintro ⟨v, hv, hb⟩
    have hq : q ≠ p := by
      rintro rfl
      exact hb.not_stale (U.stale_new hv)
    rw [U.inodes_ne hq] at hv
    obtain ⟨i, hi | hi⟩ := H.inode q v hv
    · have hik : i ≠ k := fun h => hq (H.at_inj q p k ⟨v, hv, h ▸ hi⟩ U.at_file)
      have hat : s'.At q i := U.at_mono ⟨v, hv, hi⟩ hik hq
      have hji := (U.removed.inv H.toStoreInv).at_fun ⟨v, by rw [U.inodes_ne hq, hv], hb⟩ hat
      exact hji ▸ ⟨⟨v, hv, hi⟩, hik⟩
    · exact absurd (U.stale_mono hi) hb.not_stale
  · rintro ⟨h, hj⟩
    refine U.at_mono h hj ?_
    rintro rfl
    exact hj (H.at_fun h U.at_file)

/-- **unlink keeps the invariant.** -/
theorem inv (H : FsInv s) : FsInv s' where
  toStoreInv := U.removed.inv H.toStoreInv
  root_at := (U.at_iff H).2 ⟨H.root_at, fun h => H.root_unnamed d r (h ▸ U.removed.entry)⟩
  inode q v hv := by
    by_cases hq : q = p
    · subst hq
      exact ⟨k, Or.inr (U.stale_new hv)⟩
    have hv' := hv
    rw [U.inodes_ne hq] at hv'
    obtain ⟨j, hj | hj⟩ := H.inode q v hv'
    · have hjk : j ≠ k := fun h => hq (H.at_inj q p k ⟨v, hv', h ▸ hj⟩ U.at_file)
      exact ⟨j, Or.inl ((U.at_mono ⟨v, hv', hj⟩ hjk hq).bound hv)⟩
    · exact ⟨j, Or.inr (U.stale_mono hj)⟩
  at_inj q q' j h h' := H.at_inj q q' j ((U.at_iff H).1 h).1 ((U.at_iff H).1 h').1
  dentry e y q h := by
    rw [U.dcache] at h
    have hey : ¬ (e = dir ∧ y = x) := by
      rintro ⟨rfl, rfl⟩
      rw [Function.update_self, Function.update_self] at h
      simp at h
    have h' : s.dcache e y = some q := by
      by_cases he : e = dir
      · subst he
        rwa [Function.update_self, Function.update_of_ne fun hy => hey ⟨rfl, hy⟩] at h
      · rwa [Function.update_of_ne he] at h
    obtain ⟨f, r', j, hf, hj, he, hy⟩ := H.dentry e y q h'
    have hjk : j ≠ k := by
      rintro rfl
      obtain ⟨rfl, rfl⟩ := H.entry_inj _ _ _ _ _ he U.removed.entry
      exact hey ⟨H.at_inj e dir f hf U.at_dir, recIs_unique hy U.named⟩
    exact ⟨f, r', j, (U.at_iff H).2 ⟨hf, U.removed.not_dir he.dir⟩, (U.at_iff H).2 ⟨hj, hjk⟩,
      (U.removed.entry_iff H.toStoreInv).2 ⟨he, hjk⟩,
      (U.removed.recIs_old_iff H.toStoreInv he).2 hy⟩
  hashed q j hq hroot := by
    obtain ⟨hq', hjk⟩ := (U.at_iff H).1 hq
    obtain ⟨e, y, h⟩ := H.hashed q j hq' hroot
    refine ⟨e, y, ?_⟩
    rw [U.dcache]
    by_cases he : e = dir
    · subst he
      have hy : y ≠ x := by
        rintro rfl
        rw [U.bound] at h
        obtain rfl := Option.some.inj h
        exact hjk (H.at_fun hq' U.at_file)
      rw [Function.update_self, Function.update_of_ne hy, h]
    · rw [Function.update_of_ne he, h]

end Unlinked

/-- **What unlink does**, for a regular file bound to a name. -/
theorem FsInv.unlink_spec [Target] {s : Fs} (H : FsInv s) {dir p : ℕ} {x : Name}
    (hp : s.dcache dir x = some p) (hreg : ∀ v, s.inodes p = some v → S_ISREG v.iMode = true) :
    ∃ d k r s', (unlink dir p).exec s = (.ok (), s') ∧
      Unlinked s (s'.dDelete dir x) dir p d k r x := by
  obtain ⟨d, r, k, hd, hk, he, hx⟩ := H.dentry dir x p hp
  obtain ⟨v, hv, hb⟩ := id hk
  have hfile : S_ISREG (s.store k).mode = true := by
    rw [← hb.isReg]; exact hreg v hv
  have hfind : findIno (s.data (s.store d).dataBlockNumber) (s.store d).dirChildrenCount
      ((s.inodes p).map Inode.iIno |>.getD 0) = some r := by
    rw [hv, Option.map_some, Option.getD_some, hb.ino]
    exact H.findIno_entry he
  have hino : recIno (s.data (s.store d).dataBlockNumber) r = (s.store k).inodeNo := he.ino
  set y : SimplefsInode := { s.store k with inodeNo := 0, deadInodeNo := (s.store k).inodeNo }
    with hy
  set t := s.setSfs p fun z => { z with
    deadInodeNo := recIno (s.data (s.store d).dataBlockNumber) r, inodeNo := 0 } with ht
  have hsfs : t.sfs p = y := by
    rw [ht, Fs.setSfs_sfs _ hv hb.priv, hino]
  have hsave : saveSlot p t = t.setSlot k y := by
    unfold saveSlot
    rw [hsfs, show inodeSearch t.toImage y = some k from H.search_live hb.live
      (SimplefsInode.number_dead rfl)]
  rw [exec_unlink]
  simp only [hd.sfs, hfind]
  rw [hsave]
  refine ⟨d, k, r, _, rfl, hd, hk, hx, ⟨he, hfile, rfl, rfl, ?_, fun b hb' => ?_⟩, hp, ?_, rfl⟩
  · exact Function.update_self _ _ _
  · exact Function.update_of_ne hb' _ _
  · have hs : (((t.setSlot k y).setBlock (s.store d).dataBlockNumber fun b =>
        clearRecord b r).dDelete dir x).store k = y := Function.update_self _ _ _
    rw [hs, hv, Option.map_some]
    show t.inodes = _
    rw [ht, Fs.setSfs_inodes _ hv hb.priv, hino]

/-! ## write -/

/-- The bytes `bs` are written at `pos` of the file in slot `k`, whose inode is at `p`, and its
    size becomes `n`. -/
structure Wrote (s s' : Fs) (p k pos : ℕ) (bs : List UInt8) (n : ℕ) : Prop where
  at_file : s.At p k
  file : S_ISREG (s.store k).mode = true
  sb : s'.sb = s.sb
  store : s'.store = Function.update s.store k { s.store k with size := n }
  data : s'.data =
    Function.update s.data (s.store k).dataBlockNumber ((s.block k).write pos bs)
  inodes : s'.inodes = Function.update s.inodes p
    ((s.inodes p).map fun v => { v with priv := some (s'.store k) })
  dcache : s'.dcache = s.dcache

namespace Wrote
variable [Target] {s s' : Fs} {p k pos n : ℕ} {bs : List UInt8} (W : Wrote s s' p k pos bs n)
include W

omit [Target] in
theorem store_k : s'.store k = { s.store k with size := n } := by
  rw [W.store, Function.update_self]

omit [Target] in
theorem store_ne {j : ℕ} (h : j ≠ k) : s'.store j = s.store j := by
  rw [W.store, Function.update_of_ne h]

omit [Target] in
theorem not_dir {e : ℕ} (h : s.LiveDir e) : e ≠ k := by
  rintro rfl
  exact absurd h.2 (by simp [not_dir_of_reg W.file])

/-- The other slots keep their block. -/
theorem block_ne (H : FsInv s) {j : ℕ} (hj : j < s.sb.inodesCount) (h : j ≠ k) :
    s'.block j = s.block j := by
  rw [Image.block, W.store_ne h, W.data, Function.update_of_ne]
  · rfl
  · exact fun hb => h (H.block_inj j hj k W.at_file.live.1 hb)

omit [Target] in
theorem block_k : s'.block k = (s.block k).write pos bs := by
  rw [Image.block, W.store_k, W.data, Function.update_self]

theorem saved (H : FsInv s) : Saved s.toImage s'.toImage where
  sb := W.sb
  store j _ := by
    by_cases hj : j = k
    · rw [hj, W.store_k]
    · rw [W.store_ne hj]
  size_dir e he := by rw [W.store_ne (W.not_dir he)]
  block e he := W.block_ne H he.1.1 (W.not_dir he)

omit [Target] in
theorem inodes_ne {q : ℕ} (h : q ≠ p) : s'.inodes q = s.inodes q := by
  rw [W.inodes, Function.update_of_ne h]

theorem at_mono (H : FsInv s) {q j : ℕ} (h : s.At q j) : s'.At q j := by
  have hlive := (W.saved H).live_iff.2 h.live
  obtain ⟨v, hv, hb⟩ := id h
  by_cases hq : q = p
  · subst hq
    obtain rfl := H.at_fun h W.at_file
    refine ⟨_, by rw [W.inodes, Function.update_self, hv]; rfl, hb.update hlive ?_ ?_⟩ <;>
      rw [W.store_k]
  · have hj : j ≠ k := fun hj => hq (H.at_inj q p k (hj ▸ h) W.at_file)
    exact ⟨v, by rw [W.inodes_ne hq, hv], hb.congr hlive (W.store_ne hj)⟩

theorem stale_mono (H : FsInv s) {v : Inode} {j : ℕ} (h : Stale s.toImage v j) :
    Stale s'.toImage v j := by
  have ho := (W.saved H).store_all h.lt
  exact h.congr (by rw [W.sb]; exact h.lt) ho.2.1 ho.2.2.1

end Wrote

/-- A write through the stale inode at `p` of the dead slot `k`: the block of that slot and what
    lies past the counted slots may change, and the size in the inode. -/
structure WroteStale (s s' : Fs) (p k pos : ℕ) (bs : List UInt8) (n : ℕ) : Prop where
  stale : ∃ v, s.inodes p = some v ∧ Stale s.toImage v k
  dead : ¬ s.Live k
  sb : s'.sb = s.sb
  store : ∀ j < s.sb.inodesCount, s'.store j = s.store j
  data : s'.data =
    Function.update s.data (s.store k).dataBlockNumber ((s.block k).write pos bs)
  inodes : s'.inodes = Function.update s.inodes p
    ((s.inodes p).map fun v => { v with priv := v.priv.map fun z => { z with size := n } })
  dcache : s'.dcache = s.dcache

namespace WroteStale
variable [Target] {s s' : Fs} {p k pos n : ℕ} {bs : List UInt8} (W : WroteStale s s' p k pos bs n)
include W

omit [Target] in
theorem lt : k < s.sb.inodesCount := W.stale.choose_spec.2.lt

/-- The other slots keep their block. -/
theorem block_ne (H : FsInv s) {j : ℕ} (hj : j < s.sb.inodesCount) (h : j ≠ k) :
    s'.block j = s.block j := by
  rw [Image.block, W.store j hj, W.data, Function.update_of_ne]
  · rfl
  · exact fun hb => h (H.block_inj j hj k W.lt hb)

theorem saved (H : FsInv s) : Saved s.toImage s'.toImage where
  sb := W.sb
  store j hj := by rw [W.store j hj]
  size_dir e he := by rw [W.store e he.1.1]
  block e he := W.block_ne H he.1.1 fun h => W.dead (h ▸ he.1)

omit [Target] in
theorem inodes_ne {q : ℕ} (h : q ≠ p) : s'.inodes q = s.inodes q := by
  rw [W.inodes, Function.update_of_ne h]

theorem at_mono (H : FsInv s) {q j : ℕ} (h : s.At q j) : s'.At q j := by
  have hlive := (W.saved H).live_iff.2 h.live
  obtain ⟨v, hv, hb⟩ := id h
  have hq : q ≠ p := by
    rintro rfl
    obtain ⟨w, hw, hs⟩ := W.stale
    obtain rfl := Option.some.inj (hv.symm.trans hw)
    exact hb.not_stale hs
  exact ⟨v, by rw [W.inodes_ne hq, hv], hb.congr hlive (W.store j h.live.1)⟩

theorem stale_mono (H : FsInv s) {v : Inode} {j : ℕ} (h : Stale s.toImage v j) :
    Stale s'.toImage v j := by
  have ho := (W.saved H).store_all h.lt
  exact h.congr (by rw [W.sb]; exact h.lt) ho.2.1 ho.2.2.1

/-- The inode stays stale. -/
theorem stale_new (H : FsInv s) {v : Inode} (hv : s'.inodes p = some v) : Stale s'.toImage v k := by
  obtain ⟨w, hw, hs⟩ := W.stale
  have hs' := W.stale_mono H hs
  rw [W.inodes, Function.update_self, hw, Option.map_some] at hv
  obtain rfl := Option.some.inj hv
  obtain ⟨z, hz, h1, h2, h3⟩ := hs'.priv
  exact ⟨hs'.lt, ⟨{ z with size := n }, by simp only [hz, Option.map_some], h1, h2, h3⟩, hs'.isReg⟩

end WroteStale

/-- A change of the image that keeps every binding, and turns no inode into that of another
    slot, keeps the invariant. -/
theorem FsInv.of_saved [Target] {s s' : Fs} (H : FsInv s) (S : Saved s.toImage s'.toImage)
    (hdcache : s'.dcache = s.dcache) (hat : ∀ q j, s.At q j → s'.At q j)
    (hinode : ∀ q v, s'.inodes q = some v → (∃ k, s.At q k) ∨ ∃ k, Stale s'.toImage v k) :
    FsInv s' := by
  have hback : ∀ q j, s'.At q j → s.At q j := by
    rintro q j h
    obtain ⟨v, hv, hb⟩ := id h
    rcases hinode q v hv with ⟨i, hi⟩ | ⟨i, hi⟩
    · rwa [(S.inv H.toStoreInv).at_fun h (hat q i hi)]
    · exact absurd hi hb.not_stale
  exact {
    toStoreInv := S.inv H.toStoreInv
    root_at := hat _ _ H.root_at
    inode := fun q v hv => by
      rcases hinode q v hv with ⟨j, hj⟩ | ⟨j, hj⟩
      · exact ⟨j, Or.inl ((hat q j hj).bound hv)⟩
      · exact ⟨j, Or.inr hj⟩
    at_inj := fun q q' j h h' => H.at_inj q q' j (hback q j h) (hback q' j h')
    dentry := fun e y q h => by
      rw [hdcache] at h
      obtain ⟨f, r, j, hf, hj, he, hy⟩ := H.dentry e y q h
      exact ⟨f, r, j, hat e f hf, hat q j hj, S.entry_iff.2 he, by rwa [S.block f he.dir]⟩
    hashed := fun q j h hroot => by
      rw [hdcache]
      exact H.hashed q j (hback q j h) hroot }

/-- **write keeps the invariant.** -/
theorem Wrote.inv [Target] {s s' : Fs} {p k pos n : ℕ} {bs : List UInt8}
    (W : Wrote s s' p k pos bs n) (H : FsInv s) : FsInv s' := by
  refine H.of_saved (W.saved H) W.dcache (fun q j => W.at_mono H) fun q v hv => ?_
  by_cases hq : q = p
  · exact Or.inl ⟨k, hq ▸ W.at_file⟩
  · rw [W.inodes_ne hq] at hv
    obtain ⟨j, hj | hj⟩ := H.inode q v hv
    · exact Or.inl ⟨j, v, hv, hj⟩
    · exact Or.inr ⟨j, W.stale_mono H hj⟩

theorem WroteStale.inv [Target] {s s' : Fs} {p k pos n : ℕ} {bs : List UInt8}
    (W : WroteStale s s' p k pos bs n) (H : FsInv s) : FsInv s' := by
  refine H.of_saved (W.saved H) W.dcache (fun q j => W.at_mono H) fun q v hv => ?_
  by_cases hq : q = p
  · subst hq
    exact Or.inr ⟨k, W.stale_new H hv⟩
  · rw [W.inodes_ne hq] at hv
    obtain ⟨j, hj | hj⟩ := H.inode q v hv
    · exact Or.inl ⟨j, v, hv, hj⟩
    · exact Or.inr ⟨j, W.stale_mono H hj⟩

section
variable [Target] {s : Fs} (H : FsInv s)
include H

/-- **What write does** through the inode of a live file. -/
theorem FsInv.write_spec {p k : ℕ} (hp : s.At p k) (hreg : S_ISREG (s.store k).mode = true)
    (pos len : ℕ) (user : List UInt8) :
    ∃ s', (write (.ok (pos, len)) p user).exec s =
        (if user.length < len then .error .efault else .ok len, s') ∧
      Wrote s s' p k pos (copyFromUser user len)
        (if user.length < len then (s.store k).size else pos + len) := by
  obtain ⟨v, hv, hb⟩ := id hp
  set t := s.setBlock (s.store k).dataBlockNumber fun b => b.write pos (copyFromUser user len)
    with ht
  rw [exec_write]
  simp only [hp.sfs, ← ht]
  split_ifs with h
  · refine ⟨t, rfl, hp, hreg, rfl, (Function.update_eq_self _ _).symm, rfl, ?_, rfl⟩
    rw [hv, Option.map_some]
    show s.inodes = _
    rw [Function.eq_update_iff]
    refine ⟨?_, fun _ _ => rfl⟩
    rw [hv]
    exact congrArg some (by rw [show t.store k = s.store k from rfl, ← hb.priv])
  · set y : SimplefsInode := { s.store k with size := pos + len } with hy
    set u := t.setSfs p fun z => { z with size := pos + len } with hu
    have hsfs : u.sfs p = y := Fs.setSfs_sfs _ (v := v) (by rw [ht, Fs.setBlock_inodes, hv]) hb.priv
    have hsearch : inodeSearch u.toImage y = some k := by
      have h1 : inodeSearch s.toImage y = some k :=
        H.search_live hb.live (SimplefsInode.number_live (z := y) hb.live.2)
      exact h1
    have hsave : saveSlot p u = u.setSlot k y := by
      unfold saveSlot
      rw [hsfs, hsearch]
    rw [hsfs, hsearch, hsave]
    refine ⟨_, rfl, hp, hreg, rfl, rfl, rfl, ?_, rfl⟩
    have hs : (u.setSlot k y).store k = y := Function.update_self _ _ _
    rw [hs, hv, Option.map_some]
    show u.inodes = _
    rw [hu, Fs.setSfs_inodes _ (v := v) (by rw [ht, Fs.setBlock_inodes, hv]) hb.priv, ht,
      Fs.setBlock_inodes]

/-- What write does through the inode of an unlinked file, as long as its slot is dead. -/
theorem FsInv.write_stale {p k : ℕ} {v : Inode} (hv : s.inodes p = some v)
    (hs : Stale s.toImage v k) (hdead : ¬ s.Live k) (pos len : ℕ) (user : List UInt8) :
    WroteStale s ((write (.ok (pos, len)) p user).exec s).2 p k pos (copyFromUser user len)
      (if user.length < len then (s.sfs p).size else pos + len) := by
  obtain ⟨z, hz, hz0, hzd, hzb⟩ := hs.priv
  have hsz : s.sfs p = z := Fs.sfs_eq hv hz
  set t := s.setBlock (s.store k).dataBlockNumber fun b => b.write pos (copyFromUser user len)
    with ht
  rw [exec_write]
  simp only [hsz, hzb, ← ht]
  split_ifs with h
  · refine ⟨⟨v, hv, hs⟩, hdead, rfl, fun _ _ => rfl, rfl, ?_, rfl⟩
    show s.inodes = _
    rw [Function.eq_update_iff]
    refine ⟨?_, fun _ _ => rfl⟩
    rw [hv, Option.map_some, hz, Option.map_some]
    exact congrArg some (by rw [← hz])
  · set y : SimplefsInode := { z with size := pos + len } with hy
    set u := t.setSfs p fun z => { z with size := pos + len } with hu
    have hsfs : u.sfs p = y := Fs.setSfs_sfs _ (v := v) (by rw [ht, Fs.setBlock_inodes, hv]) hz
    have hnum : y.number = (s.store k).number := by
      rw [← hzd]; exact SimplefsInode.number_dead hz0
    have hinodes : u.inodes = Function.update s.inodes p
        ((s.inodes p).map fun v => { v with priv := v.priv.map fun z => { z with size := pos + len } }) :=
      rfl
    have hsave : saveSlot p u = u ∨ saveSlot p u = u.setSlot s.sb.inodesCount y := by
      unfold saveSlot
      rw [hsfs]
      cases hi : inodeSearch u.toImage y with
      | none => exact Or.inl rfl
      | some i =>
        have : i = s.sb.inodesCount := by
          refine StoreInv.search_dead (g := u.toImage) ?_ (fun l hl he => ?_) hi
          · rw [hnum]; exact H.number_ne k hs.lt
          · have hl' : s.Live l := hl
            have he' : (s.store l).inodeNo = (s.store k).number := he.trans hnum
            rw [← hl'.number] at he'
            exact hdead (H.number_inj l hl'.1 k hs.lt he' ▸ hl')
        rw [this]
        exact Or.inr rfl
    rcases hsave with hsave | hsave <;> rw [hsave]
    · exact ⟨⟨v, hv, hs⟩, hdead, rfl, fun _ _ => rfl, rfl, hinodes, rfl⟩
    · refine ⟨⟨v, hv, hs⟩, hdead, rfl, fun j hj => ?_, rfl, hinodes, rfl⟩
      exact Function.update_of_ne hj.ne _ _

end

/-! ## lookup -/

/-- The name `x` of slot `k` is looked up in the directory `d` and bound to a new inode. -/
structure Looked (s s' : Fs) (dir p d k r : ℕ) (x : Name) (v : Inode) : Prop where
  at_dir : s.At dir d
  entry : s.Entry d r k
  named : recIs (s.block d) r x = true
  fresh : s.inodes p = none
  unbound : s.dcache dir x = none
  v_eq : v = ⟨(s.store k).inodeNo, (s.store k).mode, some (s.store k)⟩
  eq : s' = s.dAdd dir x p v

namespace Looked
variable [Target] {s s' : Fs} {dir p d k r : ℕ} {x : Name} {v : Inode}
  (L : Looked s s' dir p d k r x v)
include L

omit [Target] in
theorem image : s'.toImage = s.toImage := by rw [L.eq]; rfl

omit [Target] in
theorem inodes : s'.inodes = Function.update s.inodes p (some v) := by rw [L.eq]; rfl

omit [Target] in
theorem inodes_ne {q : ℕ} (h : q ≠ p) : s'.inodes q = s.inodes q := by
  rw [L.inodes, Function.update_of_ne h]

omit [Target] in
theorem at_new : s'.At p k := by
  refine ⟨v, by rw [L.inodes, Function.update_self], ?_, ?_, ?_, ?_, ?_⟩ <;>
    rw [L.image]
  · exact L.entry.live
  all_goals rw [L.v_eq]

omit [Target] in
theorem at_mono {q j : ℕ} (h : s.At q j) : s'.At q j := by
  obtain ⟨w, hw, hb⟩ := h
  have hq : q ≠ p := by
    rintro rfl
    rw [L.fresh] at hw
    simp at hw
  exact ⟨w, by rw [L.inodes_ne hq, hw], by rw [L.image]; exact hb⟩

theorem at_cases (H : FsInv s) {q j : ℕ} (h : s'.At q j) : s.At q j ∨ (q = p ∧ j = k) := by
  by_cases hq : q = p
  · subst hq
    have H' : StoreInv s'.toImage := by rw [L.image]; exact H.toStoreInv
    exact Or.inr ⟨rfl, H'.at_fun h L.at_new⟩
  · obtain ⟨w, hw, hb⟩ := h
    rw [L.inodes_ne hq] at hw
    rw [L.image] at hb
    exact Or.inl ⟨w, hw, hb⟩

/-- The slot had no in-memory inode: that inode would be bound to the name. -/
theorem no_inode (H : FsInv s) (q : ℕ) : ¬ s.At q k := by
  intro hq
  have hroot : q ≠ rootAddr := by
    rintro rfl
    obtain rfl := H.at_fun hq H.root_at
    exact H.root_unnamed d r L.entry
  obtain ⟨e, y, h⟩ := H.hashed q k hq hroot
  obtain ⟨f, r', j, hf, hj, he, hy⟩ := H.dentry e y q h
  obtain rfl := H.at_fun hq hj
  obtain ⟨rfl, rfl⟩ := H.entry_inj _ _ _ _ _ he L.entry
  obtain rfl := H.at_inj e dir f hf L.at_dir
  obtain rfl := recIs_unique hy L.named
  rw [L.unbound] at h
  simp at h

/-- **lookup keeps the invariant.** -/
theorem inv (H : FsInv s) : FsInv s' where
  toStoreInv := by rw [L.image]; exact H.toStoreInv
  root_at := L.at_mono H.root_at
  inode q w hw := by
    by_cases hq : q = p
    · subst hq
      exact ⟨k, Or.inl (L.at_new.bound hw)⟩
    · rw [L.inodes_ne hq] at hw
      rw [L.image]
      exact H.inode q w hw
  at_inj q q' j h h' := by
    rcases L.at_cases H h with hq | ⟨rfl, rfl⟩ <;> rcases L.at_cases H h' with hq' | ⟨rfl, hk⟩
    · exact H.at_inj q q' j hq hq'
    · exact absurd (hk ▸ hq) (L.no_inode H q)
    · exact absurd hq' (L.no_inode H q')
    · rfl
  dentry e y q h := by
    have h' : Function.update s.dcache dir (Function.update (s.dcache dir) x (some p)) e y =
        some q := by rw [L.eq] at h; exact h
    rw [L.image]
    by_cases hey : e = dir ∧ y = x
    · obtain ⟨rfl, rfl⟩ := hey
      rw [Function.update_self, Function.update_self] at h'
      obtain rfl := Option.some.inj h'
      exact ⟨d, r, k, L.at_mono L.at_dir, L.at_new, L.entry, L.named⟩
    · have h : s.dcache e y = some q := by
        by_cases he : e = dir
        · subst he
          rwa [Function.update_self, Function.update_of_ne fun hy => hey ⟨rfl, hy⟩] at h'
        · rwa [Function.update_of_ne he] at h'
      obtain ⟨f, r', j, hf, hj, he, hy⟩ := H.dentry e y q h
      exact ⟨f, r', j, L.at_mono hf, L.at_mono hj, he, hy⟩
  hashed q j hq hroot := by
    have hd : s'.dcache = Function.update s.dcache dir
        (Function.update (s.dcache dir) x (some p)) := by rw [L.eq]; rfl
    rw [hd]
    rcases L.at_cases H hq with hq' | ⟨rfl, rfl⟩
    · obtain ⟨e, y, h⟩ := H.hashed q j hq' hroot
      refine ⟨e, y, ?_⟩
      by_cases he : e = dir
      · subst he
        have hy : y ≠ x := by
          rintro rfl
          rw [L.unbound] at h
          simp at h
        rw [Function.update_self, Function.update_of_ne hy, h]
      · rw [Function.update_of_ne he, h]
    · exact ⟨dir, x, by rw [Function.update_self, Function.update_self]⟩

end Looked

/-- **The outcomes of lookup**, of a name that has no dentry. -/
theorem FsInv.lookup_cases [Target] {s : Fs} (H : FsInv s) {dir d p : ℕ} {x : Name}
    (hd : s.At dir d) (hdir : S_ISDIR (s.store d).mode = true) (hx : s.dcache dir x = none)
    (hp : s.inodes p = none) :
    ((lookup dir x p).exec s = (.negative, s) ∧
      ∀ r k, s.Entry d r k → recIs (s.block d) r x = false) ∨
    ∃ k r v s', (lookup dir x p).exec s = (.bound v, s') ∧ Looked s s' dir p d k r x v := by
  have hlive : s.LiveDir d := ⟨hd.live, hdir⟩
  rw [exec_lookup]
  simp only [hd.sfs]
  cases hf : findName (s.block d) (s.store d).dirChildrenCount x with
  | none =>
    simp only [Image.block] at hf
    simp only [hf]
    exact Or.inl ⟨trivial, fun r k he => StoreInv.findName_none hf he⟩
  | some r =>
    obtain ⟨k, he, hr⟩ := H.findName_some hlive hf
    have hino : recIno (s.data (s.store d).dataBlockNumber) r = (s.store k).inodeNo := he.ino
    have hget := H.getInode_live he.live
    simp only [Image.block] at hf
    simp only [hf, hino, hget]
    exact Or.inr ⟨k, r, _, _, rfl, hd, he, hr, hp, hx, rfl, rfl⟩

end Simplefs
