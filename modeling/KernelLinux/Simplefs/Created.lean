/-
  simplefs — create and mkdir under the invariant.

  `createFsObject_cases`: the call fails with ENOSPC (or ENOMEM, when the
  allocation of the inode fails) and changes nothing, or it makes the transition
  `Created`, which keeps `FsInv`.  The three paths of the code (a dead slot and a
  tombstone of this directory, a dead slot only, neither) differ in the slot `k`
  and the record `r` alone.
-/
import KernelLinux.Simplefs.Exec

namespace Simplefs

open Bytes Prog

/-! ## The transition -/

/-- A new object `z` in slot `k`, named `x` by record `r` of the directory `d`, whose inode is at
    `dir`; the new inode is bound to the name. -/
structure Created [Target] (s s' : Fs) (a : NewInode) (dir d k r : ℕ) (x : Name)
    (z : SimplefsInode) : Prop where
  at_dir : s.At dir d
  added : Added s.toImage s'.toImage d k r x z
  fresh : s.inodes a.addr = none
  unbound : s.dcache dir x = none
  /-- a reused slot keeps its number and block -/
  reuse : k < s.sb.inodesCount →
    z.inodeNo = (s.store k).number ∧ z.dataBlockNumber = (s.store k).dataBlockNumber
  inodes : s'.inodes = Function.update (Function.update s.inodes dir
    ((s.inodes dir).map fun v => { v with priv := some (s'.store d) }))
    a.addr (some ⟨z.inodeNo, z.mode, some z⟩)
  dcache : s'.dcache = Function.update s.dcache dir (Function.update (s.dcache dir) x (some a.addr))

namespace Created
variable [Target] {s s' : Fs} {a : NewInode} {dir d k r : ℕ} {x : Name} {z : SimplefsInode}
  (C : Created s s' a dir d k r x z)
include C

theorem inodes_ne {p : ℕ} (hd : p ≠ dir) (ha : p ≠ a.addr) : s'.inodes p = s.inodes p := by
  rw [C.inodes, Function.update_of_ne ha, Function.update_of_ne hd]

theorem inodes_new : s'.inodes a.addr = some ⟨z.inodeNo, z.mode, some z⟩ := by
  rw [C.inodes, Function.update_self]

theorem dir_ne : dir ≠ a.addr := by
  rintro h
  obtain ⟨v, hv, -⟩ := C.at_dir
  rw [h, C.fresh] at hv
  simp at hv

theorem at_new : s'.At a.addr k := by
  refine ⟨_, C.inodes_new, C.added.live_iff.2 (Or.inr rfl), ?_, ?_, ?_, ?_⟩ <;>
    rw [C.added.store_k]

theorem at_mono (H : FsInv s) {p j : ℕ} (h : s.At p j) : s'.At p j := by
  have hj := C.added.live_ne h.live
  have hlive := C.added.live_iff.2 (Or.inl h.live)
  obtain ⟨v, hv, hb⟩ := id h
  have hpa : p ≠ a.addr := by
    rintro rfl
    rw [C.fresh] at hv
    simp at hv
  by_cases hp : p = dir
  · subst hp
    obtain rfl := H.at_fun h C.at_dir
    refine ⟨{ v with priv := some (s'.store j) }, ?_, ?_⟩
    · rw [C.inodes, Function.update_of_ne hpa, Function.update_self, hv]; rfl
    · exact hb.update hlive (C.added.store_other hj).1 (C.added.store_other hj).2.2.2
  · have hjd : j ≠ d := fun hjd => hp (H.at_inj p dir d (hjd ▸ h) C.at_dir)
    exact ⟨v, by rw [C.inodes_ne hp hpa, hv], hb.congr hlive (C.added.store_ne hjd hj)⟩

/-- Which file a stale inode belonged to does not change, whether or not its slot is reused. -/
theorem stale_mono {v : Inode} {j : ℕ} (h : Stale s.toImage v j) : Stale s'.toImage v j := by
  have hc := C.added.count
  by_cases hj : j = k
  · subst hj
    obtain ⟨h1, h2⟩ := C.reuse h.lt
    refine h.congr (by omega) ?_ (by rw [C.added.store_k]; exact h2)
    rw [C.added.number_k]; exact h1
  · have ho := C.added.store_other hj
    exact h.congr ((C.added.lt_count_iff hj).2 h.lt) ho.2.1 ho.2.2.1

theorem at_cases (H : FsInv s) {p j : ℕ} (h : s'.At p j) : s.At p j ∨ (p = a.addr ∧ j = k) := by
  have H' := C.added.inv H.toStoreInv
  by_cases hpa : p = a.addr
  · subst hpa
    exact Or.inr ⟨rfl, H'.at_fun h C.at_new⟩
  by_cases hp : p = dir
  · subst hp
    obtain rfl := H'.at_fun h (C.at_mono H C.at_dir)
    exact Or.inl C.at_dir
  obtain ⟨v, hv, hb⟩ := id h
  rw [C.inodes_ne hp hpa] at hv
  obtain ⟨i, hi | hi⟩ := H.inode p v hv
  · have hat : s.At p i := ⟨v, hv, hi⟩
    rw [H'.at_fun h (C.at_mono H hat)]
    exact Or.inl hat
  · exact absurd (C.stale_mono hi) hb.not_stale

/-- **create and mkdir keep the invariant.** -/
theorem inv (H : FsInv s) : FsInv s' where
  toStoreInv := C.added.inv H.toStoreInv
  root_at := C.at_mono H H.root_at
  inode p v hv := by
    by_cases hpa : p = a.addr
    · subst hpa
      exact ⟨k, Or.inl (C.at_new.bound hv)⟩
    by_cases hp : p = dir
    · subst hp
      exact ⟨d, Or.inl ((C.at_mono H C.at_dir).bound hv)⟩
    have hv' := hv
    rw [C.inodes_ne hp hpa] at hv'
    obtain ⟨j, hj | hj⟩ := H.inode p v hv'
    · exact ⟨j, Or.inl ((C.at_mono H ⟨v, hv', hj⟩).bound hv)⟩
    · exact ⟨j, Or.inr (C.stale_mono hj)⟩
  at_inj p q j hp hq := by
    rcases C.at_cases H hp with hp' | ⟨rfl, rfl⟩ <;> rcases C.at_cases H hq with hq' | ⟨rfl, hk⟩
    · exact H.at_inj p q j hp' hq'
    · exact absurd hk (C.added.live_ne hp'.live)
    · exact absurd rfl (C.added.live_ne hq'.live)
    · rfl
  dentry e y p h := by
    rw [C.dcache] at h
    by_cases hey : e = dir ∧ y = x
    · obtain ⟨rfl, rfl⟩ := hey
      rw [Function.update_self, Function.update_self] at h
      obtain rfl := Option.some.inj h
      exact ⟨d, r, k, C.at_mono H C.at_dir, C.at_new, C.added.entry_new, C.added.recIs_new.2 rfl⟩
    · have h' : s.dcache e y = some p := by
        by_cases he : e = dir
        · subst he
          rwa [Function.update_self, Function.update_of_ne fun hy => hey ⟨rfl, hy⟩] at h
        · rwa [Function.update_of_ne he] at h
      obtain ⟨f, r', j, hf, hj, he, hx⟩ := H.dentry e y p h'
      exact ⟨f, r', j, C.at_mono H hf, C.at_mono H hj, C.added.entry_mono H.toStoreInv he,
        (C.added.recIs_old_iff H.toStoreInv he).2 hx⟩
  hashed p j hp hroot := by
    rw [C.dcache]
    rcases C.at_cases H hp with hp' | ⟨rfl, rfl⟩
    · obtain ⟨e, y, h⟩ := H.hashed p j hp' hroot
      refine ⟨e, y, ?_⟩
      by_cases he : e = dir
      · subst he
        have hy : y ≠ x := by
          rintro rfl
          rw [C.unbound] at h
          simp at h
        rw [Function.update_self, Function.update_of_ne hy, h]
      · rw [Function.update_of_ne he, h]
    · exact ⟨dir, x, by rw [Function.update_self, Function.update_self]⟩

end Created

/-! ## The call -/

section
variable [Target] {g g' : Image} {d k r : ℕ} {x : Name} {z : SimplefsInode}

/-- A dead slot is reused. -/
theorem Added.of_dead (H : StoreInv g) (hd : g.LiveDir d) (hk : k < g.sb.inodesCount)
    (h0 : (g.store k).inodeNo = 0) (hr : r ≤ (g.store d).size)
    (hfree : r < (g.store d).size → recIno (g.block d) r = 0)
    (hlt : max (g.store d).size (r + 1) < g.sb.inodesCount) (hx : x.Short)
    (hnew : ∀ r' j, g.Entry d r' j → recIs (g.block d) r' x = false)
    (hz : z.inodeNo = (g.store k).number) (hb : z.dataBlockNumber = (g.store k).dataBlockNumber)
    (hkind : S_ISDIR z.mode = true ∨ S_ISREG z.mode = true) (hsize : z.size = 0)
    (hsb : g'.sb = g.sb)
    (hstore : g'.store = Function.update (Function.update g.store k z) d
      { g.store d with size := max (g.store d).size (r + 1) })
    (hrec : RecordSet (g.block d) (g'.data (g.store d).dataBlockNumber) r x z.inodeNo)
    (hdata : ∀ b, b ≠ (g.store d).dataBlockNumber → g'.data b = g.data b) :
    Added g g' d k r x z where
  dir := hd
  k_le := hk.le
  k_lt := lt_of_lt_of_le hk H.count_le
  k_dead := fun h => h.2 h0
  count := by rw [hsb]; omega
  magic := by rw [hsb]
  blockSize := by rw [hsb]
  free m hm := by rw [hsb]; exact hm
  free_z := by
    rw [hsb, hb]
    by_cases h3 : 3 ≤ (g.store k).dataBlockNumber
    · exact Or.inl (H.block_free k hk h3)
    · exact Or.inr (by omega)
  z_ne := by rw [hz]; exact H.number_ne k hk
  z_lt := by rw [hz, hsb]; exact H.number_lt k hk
  z_fresh j hj hjk h := hjk (H.number_inj j hj k hk (h.trans hz))
  z_block := by rw [hb]; exact H.block_ge k hk
  z_block_fresh j hj hjk h := hjk (H.block_inj j hj k hk (h.trans hb))
  z_kind := hkind
  z_size := hsize
  r_le := hr
  r_free := hfree
  children_lt := by rw [hsb]; exact hlt
  short := hx
  new := hnew
  store := hstore
  record := hrec
  data := hdata

/-- A new slot and a free block are used. -/
theorem Added.of_fresh (H : StoreInv g) (hd : g.LiveDir d)
    (hlt : g.sb.inodesCount < SIMPLEFS_MAX_FILESYSTEM_OBJECTS_SUPPORTED) (hx : x.Short)
    (hnew : ∀ r' j, g.Entry d r' j → recIs (g.block d) r' x = false)
    (hz : z.inodeNo = g.sb.inodesCount + 8)
    (hfree : findFreeBlock g.sb.freeBlocks = some z.dataBlockNumber)
    (hkind : S_ISDIR z.mode = true ∨ S_ISREG z.mode = true) (hsize : z.size = 0)
    (hsb : g'.sb = { g.sb with
      inodesCount := g.sb.inodesCount + 1
      freeBlocks := g.sb.freeBlocks &&& ~~~ oneShl z.dataBlockNumber })
    (hstore : g'.store = Function.update (Function.update g.store g.sb.inodesCount z) d
      { g.store d with size := (g.store d).size + 1 })
    (hrec : RecordSet (g.block d) (g'.data (g.store d).dataBlockNumber) (g.store d).size x z.inodeNo)
    (hdata : ∀ b, b ≠ (g.store d).dataBlockNumber → g'.data b = g.data b) :
    Added g g' d g.sb.inodesCount (g.store d).size x z where
  dir := hd
  k_le := le_rfl
  k_lt := hlt
  k_dead := fun h => absurd h.1 (lt_irrefl _)
  count := by rw [hsb]; show g.sb.inodesCount + 1 = _; omega
  magic := by rw [hsb]
  blockSize := by rw [hsb]
  free m hm := by
    rw [hsb, BitVec.and_assoc, BitVec.and_comm (~~~ _), ← BitVec.and_assoc, hm]
    simp
  free_z := by
    left
    rw [hsb, BitVec.and_assoc]
    simp
  z_ne := by omega
  z_lt := by rw [hz, hsb]; show _ < g.sb.inodesCount + 1 + 8; omega
  z_fresh j hj _ h := by
    have := H.number_lt j hj
    omega
  z_block := by
    have := (findFreeBlock_some hfree).1
    omega
  z_block_fresh j hj _ h := by
    obtain ⟨h3, -, hne⟩ := findFreeBlock_some hfree
    rw [← h] at h3 hne
    exact hne (H.block_free j hj h3)
  z_kind := hkind
  z_size := hsize
  r_le := le_rfl
  r_free h := absurd h (lt_irrefl _)
  children_lt := by
    have := H.children_lt d hd
    rw [SimplefsInode.dirChildrenCount] at this
    rw [hsb]
    show _ < g.sb.inodesCount + 1
    omega
  short := hx
  new := hnew
  store := by rw [hstore]; simp
  record := hrec
  data := hdata

end

section
variable [Target] {s : Fs}

omit [Target] in
/-- Appending a name counts it in the inode of the parent. -/
theorem appendName_sfs {u : Fs} {dir d : ℕ} (blk : ℕ) (x : Name) (ino : ℕ) (hd : s.At dir d)
    (hinodes : u.inodes = s.inodes) : (appendName dir blk x ino u).sfs dir =
      { s.store d with size := (s.store d).dirChildrenCount + 1 } := by
  obtain ⟨v, hv, hb⟩ := hd
  rw [appendName, Fs.setSfs_sfs _ (by rw [Fs.setBlock_inodes, hinodes, hv]) hb.priv]

/-- After a name was appended, `simplefs_inode_save` finds the slot of the parent. -/
theorem FsInv.append_save (H : FsInv s) {u : Fs} {dir d k : ℕ} {z : SimplefsInode}
    (blk : ℕ) (x : Name) (ino : ℕ) (hd : s.At dir d) (hkd : d ≠ k) (hz : z.inodeNo ≠ (s.store d).inodeNo)
    (hstore : u.store = Function.update s.store k z) (hinodes : u.inodes = s.inodes)
    (hcount : s.sb.inodesCount ≤ u.sb.inodesCount) :
    inodeSearch (appendName dir blk x ino u).toImage ((appendName dir blk x ino u).sfs dir) =
      some d := by
  obtain ⟨v, hv, hb⟩ := id hd
  rw [appendName_sfs blk x ino hd hinodes]
  have hnum : SimplefsInode.number { s.store d with size := (s.store d).dirChildrenCount + 1 } =
      (s.store d).inodeNo := SimplefsInode.number_live (z := { s.store d with size := _ }) hb.live.2
  refine inodeSearch_some.2 ⟨le_trans hb.live.1.le hcount, ?_, fun l hl => ?_⟩
  · rw [hnum]
    show (u.store d).inodeNo = _
    rw [hstore, Function.update_of_ne hkd]
  · rw [hnum]
    show (u.store l).inodeNo ≠ _
    by_cases hlk : l = k
    · rwa [hlk, hstore, Function.update_self]
    · rw [hstore, Function.update_of_ne hlk]
      intro h
      have hc := hb.live.1
      have := H.live_inj ⟨by omega, by rw [h]; exact hb.live.2⟩ hb.live h
      omega

variable {dir d : ℕ} {a : NewInode} {x : Name} {mode : ℕ}

/-- What the VFS guarantees when it calls create or mkdir. -/
structure MayCreate (s : Fs) (dir d : ℕ) (a : NewInode) (x : Name) : Prop where
  at_dir : s.At dir d
  isDir : S_ISDIR (s.store d).mode = true
  short : x.Short
  new : ∀ r j, s.Entry d r j → recIs (s.block d) r x = false
  unbound : s.dcache dir x = none
  fresh : s.inodes a.addr = none

omit [Target] in
theorem MayCreate.liveDir (M : MayCreate s dir d a x) : s.LiveDir d := ⟨M.at_dir.live, M.isDir⟩

/-- The path with a dead slot and a tombstone. -/
theorem FsInv.create_same (H : FsInv s) (M : MayCreate s dir d a x) {k r : ℕ} {z : SimplefsInode}
    (hk : firstDead s.toImage = some k)
    (hr : firstTombstone (s.block d) (s.store d).dirChildrenCount = some r)
    (hz : z.inodeNo = (s.store k).deadInodeNo)
    (hb : z.dataBlockNumber = (s.store k).dataBlockNumber)
    (hkind : S_ISDIR z.mode = true ∨ S_ISREG z.mode = true) (hsize : z.size = 0) :
    ∃ s', (createFinish a dir (s.store d).dataBlockNumber x z true true).exec
        (s.setBlock (s.store d).dataBlockNumber fun c => reuseRecord c r x z.inodeNo) = (.ok (), s') ∧
      Created s s' a dir d k r x z := by
  obtain ⟨hkc, hk0, -⟩ := firstDead_some.1 hk
  obtain ⟨hrlt, hr0⟩ := firstTombstone_some hr
  rw [SimplefsInode.dirChildrenCount] at hrlt
  have hnum : (s.store k).number = (s.store k).deadInodeNo := SimplefsInode.number_dead hk0
  have hdk : d ≠ k := fun h => M.at_dir.live.2 (h ▸ hk0)
  have hmax : max (s.store d).size (r + 1) = (s.store d).size := by omega
  have hsize' : { s.store d with size := max (s.store d).size (r + 1) } = s.store d := by rw [hmax]
  set u := s.setBlock (s.store d).dataBlockNumber fun c => reuseRecord c r x z.inodeNo with hu
  have hadd : addSlot z true u = u.setSlot k z := by
    have : findDead u.toImage z.inodeNo = some k := by
      rw [hz]; exact H.findDead hkc hk0
    simp [addSlot, this]
  have hstore : (u.setSlot k z).store = Function.update (Function.update s.store k z) d
      { s.store d with size := max (s.store d).size (r + 1) } := by
    rw [hsize']
    show Function.update s.store k z = _
    rw [Function.eq_update_iff]
    exact ⟨Function.update_of_ne hdk _ _, fun _ _ => rfl⟩
  rw [exec_createFinish_same, hadd]
  refine ⟨_, rfl, M.at_dir, ?_, M.fresh, M.unbound, fun _ => ⟨hz.trans hnum.symm, hb⟩, ?_, rfl⟩
  · refine Added.of_dead H.toStoreInv M.liveDir hkc hk0 hrlt.le (fun _ => hr0) ?_ M.short M.new
      (hz.trans hnum.symm) hb hkind hsize rfl hstore ?_ fun b hb' => Function.update_of_ne hb' _ _
    · rw [hmax]; exact H.children_lt d M.liveDir
    · have hlt : z.inodeNo < 2 ^ 64 := by
        rw [hz, ← hnum]
        exact H.number_lt_word hkc
      show RecordSet _ (Function.update s.data _ _ _) _ _ _
      rw [Function.update_self]
      exact reuseRecord_spec _ _ M.short hlt
  · obtain ⟨v, hv, hbd⟩ := M.at_dir
    show Function.update s.inodes a.addr _ = _
    refine congrArg (fun f : ℕ → Option Inode =>
      Function.update f a.addr (some ⟨z.inodeNo, z.mode, some z⟩)) ?_
    rw [Function.eq_update_iff]
    refine ⟨?_, fun _ _ => rfl⟩
    show _ = Option.map (fun v : Inode => { v with priv := some ((u.setSlot k z).store d) }) _
    rw [hstore, Function.update_self, hsize', hv, Option.map_some, ← hbd.priv]

/-- The two paths that append a record. -/
theorem FsInv.create_append (H : FsInv s) (M : MayCreate s dir d a x) {k : ℕ} {z : SimplefsInode}
    (exist : Bool) {u : Fs} (hstore : (addSlot z exist u).store = Function.update s.store k z)
    (hdata : u.data = s.data) (hinodes : u.inodes = s.inodes) (hdcache : u.dcache = s.dcache)
    (hcount : s.sb.inodesCount ≤ (addSlot z exist u).sb.inodesCount)
    (hlt : z.inodeNo < 2 ^ 64)
    (hreuse : k < s.sb.inodesCount →
      z.inodeNo = (s.store k).number ∧ z.dataBlockNumber = (s.store k).dataBlockNumber)
    (hadded : ∀ g' : Image, g'.sb = (addSlot z exist u).sb →
      g'.store = Function.update (Function.update s.store k z) d
        { s.store d with size := (s.store d).size + 1 } →
      RecordSet (s.block d) (g'.data (s.store d).dataBlockNumber) (s.store d).size x z.inodeNo →
      (∀ b, b ≠ (s.store d).dataBlockNumber → g'.data b = s.data b) →
      Added s.toImage g' d k (s.store d).size x z) :
    ∃ s', (createFinish a dir (s.store d).dataBlockNumber x z exist false).exec u = (.ok (), s') ∧
      Created s s' a dir d k (s.store d).size x z := by
  obtain ⟨v, hv, hb⟩ := id M.at_dir
  set t := appendName dir (s.store d).dataBlockNumber x z.inodeNo (addSlot z exist u) with ht
  have hinodes' : (addSlot z exist u).inodes = s.inodes := (addSlot_inodes z exist u).trans hinodes
  have hblock : t.data = Function.update s.data (s.store d).dataBlockNumber
      (appendRecord (s.block d) (s.store d).size x z.inodeNo) := by
    have hsfs : (addSlot z exist u).sfs dir = s.store d := by
      rw [addSlot_sfs]
      exact Fs.sfs_eq (by rw [hinodes, hv]) hb.priv
    show Function.update (addSlot z exist u).data _ (appendRecord _ _ _ _) = _
    rw [addSlot_data, hdata, hsfs]
    rfl
  have hA := hadded ⟨(addSlot z exist u).sb, Function.update (Function.update s.store k z) d
      { s.store d with size := (s.store d).size + 1 }, t.data⟩ rfl rfl
    (by rw [hblock, Function.update_self]; exact appendRecord_spec _ _ M.short hlt)
    fun b hb => by rw [hblock, Function.update_of_ne hb]
  have hsfs := appendName_sfs (s.store d).dataBlockNumber x z.inodeNo M.at_dir hinodes'
  have hsearch := H.append_save (s.store d).dataBlockNumber x z.inodeNo M.at_dir hA.ne
    (hA.ino_ne M.at_dir.live).symm hstore hinodes' hcount
  rw [← ht, SimplefsInode.dirChildrenCount] at hsfs
  rw [← ht] at hsearch
  have hsave : saveSlot dir t = t.setSlot d { s.store d with size := (s.store d).size + 1 } := by
    unfold saveSlot
    rw [hsearch, hsfs]
  rw [exec_createFinish_append, ← ht]
  simp only [hsearch]
  rw [hsave]
  have himage : (t.setSlot d { s.store d with size := (s.store d).size + 1 }).toImage =
      ⟨(addSlot z exist u).sb, Function.update (Function.update s.store k z) d
        { s.store d with size := (s.store d).size + 1 }, t.data⟩ := by
    rw [← hstore]; rfl
  refine ⟨_, rfl, M.at_dir, ?_, M.fresh, M.unbound, hreuse, ?_, ?_⟩
  · rw [Fs.dAdd_image, himage]; exact hA
  · show Function.update t.inodes a.addr _ = _
    refine congrArg (fun f : ℕ → Option Inode =>
      Function.update f a.addr (some ⟨z.inodeNo, z.mode, some z⟩)) ?_
    have hs : ((t.setSlot d { s.store d with size := (s.store d).size + 1 }).dAdd dir x a.addr
        ⟨z.inodeNo, z.mode, some z⟩).store d = { s.store d with size := (s.store d).size + 1 } :=
      Function.update_self _ _ _
    rw [hs, hv, ht, appendName, Fs.setSfs_inodes _ (by rw [Fs.setBlock_inodes, hinodes', hv]) hb.priv,
      Fs.setBlock_inodes, hinodes']
    rfl
  · show Function.update t.dcache dir (Function.update (t.dcache dir) x (some a.addr)) = _
    have : t.dcache = s.dcache := (addSlot_dcache z exist u).trans hdcache
    rw [this]

/-- The path with a dead slot and no tombstone. -/
theorem FsInv.create_reuse (H : FsInv s) (M : MayCreate s dir d a x) {k : ℕ} {z : SimplefsInode}
    (hk : firstDead s.toImage = some k)
    (hr : firstTombstone (s.block d) (s.store d).dirChildrenCount = none)
    (hz : z.inodeNo = (s.store k).deadInodeNo)
    (hb : z.dataBlockNumber = (s.store k).dataBlockNumber)
    (hkind : S_ISDIR z.mode = true ∨ S_ISREG z.mode = true) (hsize : z.size = 0) :
    ∃ s', (createFinish a dir (s.store d).dataBlockNumber x z true false).exec s = (.ok (), s') ∧
      Created s s' a dir d k (s.store d).size x z := by
  obtain ⟨hkc, hk0, -⟩ := firstDead_some.1 hk
  have hnum : (s.store k).number = (s.store k).deadInodeNo := SimplefsInode.number_dead hk0
  have htight := H.children_tight M.liveDir hkc (fun h => h.2 hk0) (firstTombstone_none hr)
  have hadd : addSlot z true s = s.setSlot k z := by
    have := H.findDead hkc hk0
    simp [addSlot, hz, this]
  refine H.create_append M true (by rw [hadd]; rfl) rfl rfl rfl (by rw [hadd]; rfl)
    (by rw [hz, ← hnum]; exact H.number_lt_word hkc) (fun _ => ⟨hz.trans hnum.symm, hb⟩)
    fun g' hsb hst hrec hdata => ?_
  have hmax : max (s.store d).size ((s.store d).size + 1) = (s.store d).size + 1 := by omega
  refine Added.of_dead H.toStoreInv M.liveDir hkc hk0 le_rfl (fun h => absurd h (lt_irrefl _)) ?_
    M.short M.new (hz.trans hnum.symm) hb hkind hsize ?_ ?_ hrec hdata
  · rw [hmax]; exact htight
  · rw [hsb, hadd]; rfl
  · rw [hst, hmax]

/-- The path with no dead slot. -/
theorem FsInv.create_fresh (H : FsInv s) (M : MayCreate s dir d a x) {b : ℕ} {z : SimplefsInode}
    (hlt : s.sb.inodesCount < SIMPLEFS_MAX_FILESYSTEM_OBJECTS_SUPPORTED)
    (hb : findFreeBlock s.sb.freeBlocks = some b) (hz : z.inodeNo = s.sb.inodesCount + 8)
    (hzb : z.dataBlockNumber = b) (hkind : S_ISDIR z.mode = true ∨ S_ISREG z.mode = true)
    (hsize : z.size = 0) :
    ∃ s', (createFinish a dir (s.store d).dataBlockNumber x z false false).exec (takeBlock b s) =
        (.ok (), s') ∧
      Created s s' a dir d s.sb.inodesCount (s.store d).size x z := by
  subst hzb
  refine H.create_append M false rfl rfl rfl rfl (Nat.le_succ _) ?_
    (fun h => absurd h (lt_irrefl _))
    fun g' hsb hst hrec hdata => Added.of_fresh H.toStoreInv M.liveDir hlt M.short M.new hz hb hkind
      hsize hsb hst hrec hdata
  simp only [SIMPLEFS_MAX_FILESYSTEM_OBJECTS_SUPPORTED] at hlt
  omega

omit [Target] in
/-- The number of the fresh path of create. -/
theorem fresh_ino (n : ℕ) : n + SIMPLEFS_START_INO - SIMPLEFS_RESERVED_INODES + 1 = n + 8 := by
  simp only [SIMPLEFS_START_INO, SIMPLEFS_RESERVED_INODES]
  omega

/-- **The outcomes of create and mkdir.** -/
theorem FsInv.createFsObject_cases (H : FsInv s) {new : Option NewInode}
    (M : ∀ a, new = some a → MayCreate s dir d a x) (hd : s.At dir d)
    (hkind : S_ISDIR mode = true ∨ S_ISREG mode = true) :
    (∃ e, (createFsObject new dir x mode).exec s = (.error e, s) ∧
      (e = .enospc ∨ e = .enomem ∧ new = none)) ∨
    ∃ a k r z s', new = some a ∧ (createFsObject new dir x mode).exec s = (.ok (), s') ∧
      z.mode = mode ∧ Created s s' a dir d k r x z := by
  have hmode : (!S_ISDIR mode && !S_ISREG mode) = false := by
    rcases hkind with h | h <;> simp [h]
  rw [exec_createFsObject]
  split_ifs with hc h
  · exact Or.inl ⟨_, rfl, Or.inl rfl⟩
  · rw [hmode] at h
    simp at h
  cases hnew : new with
  | none => exact Or.inl ⟨_, rfl, Or.inr ⟨rfl, rfl⟩⟩
  | some a =>
  have M := M a hnew
  simp only [exec_createBody, hd.sfs]
  cases hdead : firstDead s.toImage with
  | some k =>
    set z : SimplefsInode := { a.junk with
      inodeNo := (s.store k).deadInodeNo, mode := mode, size := 0
      dataBlockNumber := (s.store k).dataBlockNumber } with hz
    cases hr : firstTombstone (s.block d) (s.store d).dirChildrenCount with
    | some r =>
      obtain ⟨s', hs', hC⟩ := H.create_same M (z := z) hdead hr rfl rfl hkind rfl
      simp only [Image.block] at hr
      simp only [hr]
      exact Or.inr ⟨a, k, r, z, s', rfl, hs', rfl, hC⟩
    | none =>
      obtain ⟨s', hs', hC⟩ := H.create_reuse M (z := z) hdead hr rfl rfl hkind rfl
      simp only [Image.block] at hr
      simp only [hr]
      exact Or.inr ⟨a, k, _, z, s', rfl, hs', rfl, hC⟩
  | none =>
    cases hb : findFreeBlock s.sb.freeBlocks with
    | none => exact Or.inl ⟨_, rfl, Or.inl rfl⟩
    | some b =>
      obtain ⟨s', hs', hC⟩ := H.create_fresh M (z := { a.junk with
        inodeNo := s.sb.inodesCount + SIMPLEFS_START_INO - SIMPLEFS_RESERVED_INODES + 1
        mode := mode, size := 0, dataBlockNumber := b }) (by omega) hb (fresh_ino _) rfl hkind rfl
      exact Or.inr ⟨a, _, _, _, s', rfl, hs', rfl, hC⟩

end

end Simplefs
