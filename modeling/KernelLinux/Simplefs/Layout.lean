/-
  simplefs — the structures of `Code.lean` are what the bytes of the blocks hold.

  `Shows s t`: the blocks, the private inodes and the dentry cache of `s` hold the structures
  of `t`.  The calls keep it, as long as no directory is in block 0 or 1, where its records
  would be bytes of the superblock or of the inode store, and no count leaves its 64 bits:

  * `fillSuper_shows`, `lookup_shows`, `iterate_shows`: these change no block;
  * `createFsObject_shows`: the two programs run in lockstep, so with any lock attempts
    interrupted they return the same, or both wait for the same mutex;
  * `run_shows`: every run on the bytes is one on the structures.
-/
import KernelLinux.Lib.Lockstep
import KernelLinux.Simplefs.Buffers
import KernelLinux.Simplefs.Exec

namespace Simplefs.Buffers

open Bytes Prog

/-! ## Fields -/

section
variable {b z : Block} {o o' v : ℕ}

/-- A slot that was filled with the private inode `z`. -/
theorem inodeAt_write_self : inodeAt (b.write o (z.read o' inodeSize)) o = inodeAt z o' := by
  have hfield : ∀ w d, d + w ≤ inodeSize →
      (b.write o (z.read o' inodeSize)).getLE w (o + d) = z.getLE w (o' + d) := fun w d =>
    Block.getLE_write_copy
  simp only [inodeAt, SimplefsInode.mk.injEq]
  refine ⟨hfield 4 0 (by decide), hfield 8 8 (by decide), hfield 8 16 (by decide),
    hfield 8 24 (by decide), hfield 8 32 (by decide)⟩

theorem inodeAt_write_ne {bs : List UInt8} (h : o' + inodeSize ≤ o ∨ o + bs.length ≤ o') :
    inodeAt (b.write o bs) o' = inodeAt b o' := by
  have hfield : ∀ w d, d + w ≤ inodeSize →
      (b.write o bs).getLE w (o' + d) = b.getLE w (o' + d) := fun w d hd =>
    Block.getLE_write_disjoint (by omega)
  simp only [inodeAt, SimplefsInode.mk.injEq]
  refine ⟨hfield 4 0 (by decide), hfield 8 8 (by decide), hfield 8 16 (by decide),
    hfield 8 24 (by decide), hfield 8 32 (by decide)⟩

theorem inodeAt_mode (h : v < 2 ^ 32) :
    inodeAt (z.putLE 4 0 v) 0 = { inodeAt z 0 with mode := v } := by
  simp only [inodeAt, SimplefsInode.mk.injEq]
  exact ⟨Block.getLE_putLE (h.trans_le (by norm_num)), Block.getLE_putLE_disjoint (by omega),
    Block.getLE_putLE_disjoint (by omega), Block.getLE_putLE_disjoint (by omega),
    Block.getLE_putLE_disjoint (by omega)⟩

variable (h : v < 2 ^ 64)
include h

theorem inodeAt_inodeNo : inodeAt (z.putLE 8 8 v) 0 = { inodeAt z 0 with inodeNo := v } := by
  simp only [inodeAt, SimplefsInode.mk.injEq]
  exact ⟨Block.getLE_putLE_disjoint (by omega), Block.getLE_putLE (h.trans_le (by norm_num)),
    Block.getLE_putLE_disjoint (by omega), Block.getLE_putLE_disjoint (by omega),
    Block.getLE_putLE_disjoint (by omega)⟩

theorem inodeAt_dataBlockNumber :
    inodeAt (z.putLE 8 24 v) 0 = { inodeAt z 0 with dataBlockNumber := v } := by
  simp only [inodeAt, SimplefsInode.mk.injEq]
  exact ⟨Block.getLE_putLE_disjoint (by omega), Block.getLE_putLE_disjoint (by omega),
    Block.getLE_putLE_disjoint (by omega), Block.getLE_putLE (h.trans_le (by norm_num)),
    Block.getLE_putLE_disjoint (by omega)⟩

theorem inodeAt_size : inodeAt (z.putLE 8 32 v) 0 = { inodeAt z 0 with size := v } := by
  simp only [inodeAt, SimplefsInode.mk.injEq]
  exact ⟨Block.getLE_putLE_disjoint (by omega), Block.getLE_putLE_disjoint (by omega),
    Block.getLE_putLE_disjoint (by omega), Block.getLE_putLE_disjoint (by omega),
    Block.getLE_putLE (h.trans_le (by norm_num))⟩

theorem superAt_inodesCount : superAt (b.putLE 8 24 v) = { superAt b with inodesCount := v } := by
  simp only [superAt, SuperBlock.mk.injEq]
  refine ⟨Block.getLE_putLE_disjoint (by omega), Block.getLE_putLE_disjoint (by omega),
    Block.getLE_putLE_disjoint (by omega), Block.getLE_putLE (h.trans_le (by norm_num)),
    congrArg _ (Block.getLE_putLE_disjoint (by omega))⟩

omit h in
theorem superAt_freeBlocks (free : BitVec 64) :
    superAt (b.putLE 8 32 free.toNat) = { superAt b with freeBlocks := free } := by
  simp only [superAt, SuperBlock.mk.injEq]
  refine ⟨Block.getLE_putLE_disjoint (by omega), Block.getLE_putLE_disjoint (by omega),
    Block.getLE_putLE_disjoint (by omega), Block.getLE_putLE_disjoint (by omega), ?_⟩
  rw [Block.getLE_putLE (free.isLt.trans_le (by norm_num)), BitVec.ofNat_toNat, BitVec.setWidth_eq]

end

/-! ## The structures held -/

/-- The structure of an in-memory inode. -/
def MemInode.view (v : MemInode) : Inode := ⟨v.iIno, v.iMode, v.priv.map fun z => inodeAt z 0⟩

/-- The memory holds the structures of `t`; blocks 0 and 1 are not read as data there. -/
structure Shows (s : Mem) (t : Fs) : Prop where
  sb : s.image.sb = t.sb
  store : s.image.store = t.store
  data : ∀ b, SIMPLEFS_INODESTORE_BLOCK_NUMBER < b → s.blocks b = t.data b
  inodes : ∀ p, (s.inodes p).map MemInode.view = t.inodes p
  dcache : s.dcache = t.dcache

/-- The programs are related in states that hold the same structures. -/
def Related (s : Traced) (t : Fs) : Prop := Shows s.mem t

namespace Shows

variable {s : Mem} {t : Fs} (H : Shows s t)
include H

theorem sfs (p : ℕ) : s.sfs p = t.sfs p := by
  rw [Mem.sfs, Mem.priv, Fs.sfs, ← H.inodes p]
  cases s.inodes p with
  | none => rfl
  | some v =>
    simp only [Option.map_some, Option.bind_some, MemInode.view]
    cases v.priv with
    | none => rfl
    | some z => rfl

theorem firstDead : firstDead s.image = firstDead t.toImage := by
  unfold Simplefs.firstDead
  rw [H.sb, H.store]

theorem findDead (n : ℕ) : findDead s.image n = findDead t.toImage n := by
  unfold Simplefs.findDead
  rw [H.sb, H.store]

theorem getInode (ino : ℕ) :
    Simplefs.getInode s.image ino = Simplefs.getInode t.toImage ino := by
  unfold Simplefs.getInode
  rw [H.sb, H.store]

theorem inodeSearch (p : ℕ) : inodeSearch s.image (s.sfs p) = inodeSearch t.toImage (t.sfs p) := by
  unfold Simplefs.inodeSearch
  rw [H.sb, H.store, H.sfs]

theorem setBlock {b : ℕ} (hb : SIMPLEFS_INODESTORE_BLOCK_NUMBER < b) (f : Block → Block) :
    Shows (s.setBlock b f) (t.setBlock b f) where
  sb := by
    rw [sb_setBlock (by rintro rfl; exact absurd hb (by decide)), H.sb]
    rfl
  store := by
    rw [store_setBlock hb.ne', H.store]
    rfl
  data c hc := by
    show Function.update s.blocks b _ c = Function.update t.data b _ c
    rw [H.data b hb]
    by_cases hcb : c = b
    · rw [hcb, Function.update_self, Function.update_self]
    · rw [Function.update_of_ne hcb, Function.update_of_ne hcb, H.data c hc]
  inodes := H.inodes
  dcache := H.dcache

theorem setSlot (i : ℕ) (z : Block) : Shows (s.setSlot i z) (t.setSlot i (inodeAt z 0)) where
  sb := (sb_setBlock (by decide)).trans H.sb
  store := by
    funext j
    show inodeAt (Function.update s.blocks _ _ _) (slotOff j) = Function.update t.store i _ j
    rw [Function.update_self]
    by_cases hj : j = i
    · subst hj
      rw [Function.update_self, inodeAt_write_self]
    · rw [Function.update_of_ne hj, inodeAt_write_ne, ← H.store]
      · rfl
      · rw [Block.length_read]
        simp only [slotOff, inodeSize]
        omega
  data c hc := by
    show Function.update s.blocks _ _ c = t.data c
    rw [Function.update_of_ne hc.ne', H.data c hc]
  inodes := H.inodes
  dcache := H.dcache

/-- Only the superblock changes. -/
theorem setSuper {f : Block → Block} {sb : SuperBlock} (hf : ∀ b, superAt b = t.sb → superAt (f b) = sb) :
    Shows (s.setBlock SIMPLEFS_SUPERBLOCK_BLOCK_NUMBER f) { t with sb := sb } where
  sb := by
    show superAt (Function.update s.blocks _ _ _) = sb
    rw [Function.update_self]
    exact hf _ H.sb
  store := (store_setBlock (by decide)).trans H.store
  data c hc := by
    show Function.update s.blocks _ _ c = t.data c
    rw [Function.update_of_ne (by rintro rfl; exact absurd hc (by decide)), H.data c hc]
  inodes := H.inodes
  dcache := H.dcache

theorem takeBlock [Target] (i : ℕ) : Shows (takeBlock i s) (Simplefs.takeBlock i t) :=
  H.setSuper fun b hb => by rw [superAt_freeBlocks, hb]

theorem countInode (h : t.sb.inodesCount + 1 < 2 ^ 64) :
    Shows (countInode s) { t with sb := { t.sb with inodesCount := t.sb.inodesCount + 1 } } :=
  H.setSuper fun b hb => by rw [superAt_inodesCount (by rwa [hb]), hb]

theorem setPriv (p : ℕ) {f : Block → Block} {g : SimplefsInode → SimplefsInode}
    (hf : ∀ z, s.priv p = some z → inodeAt (f z) 0 = g (inodeAt z 0)) :
    Shows (s.setPriv p f) (t.setSfs p g) where
  sb := H.sb
  store := H.store
  data := H.data
  inodes q := by
    show (Function.update s.inodes p _ q).map MemInode.view = Function.update t.inodes p _ q
    by_cases hq : q = p
    · subst hq
      rw [Function.update_self, Function.update_self, ← H.inodes q]
      cases hv : s.inodes q with
      | none => rfl
      | some v =>
        simp only [Option.map_some, MemInode.view, Option.map_map, Option.some.injEq, Inode.mk.injEq,
          true_and]
        cases hz : v.priv with
        | none => rfl
        | some z => exact congrArg some (hf z (by rw [Mem.priv, hv]; exact hz))
    · rw [Function.update_of_ne hq, Function.update_of_ne hq, H.inodes q]
  dcache := H.dcache

theorem dAdd (dir : ℕ) (x : Name) (p : ℕ) (v : MemInode) :
    Shows (s.dAdd dir x p v) (t.dAdd dir x p v.view) where
  sb := H.sb
  store := H.store
  data := H.data
  inodes q := by
    show (Function.update s.inodes p _ q).map MemInode.view = Function.update t.inodes p _ q
    by_cases hq : q = p
    · rw [hq, Function.update_self, Function.update_self]
      rfl
    · rw [Function.update_of_ne hq, Function.update_of_ne hq, H.inodes q]
  dcache := by
    show Function.update s.dcache dir _ = Function.update t.dcache dir _
    rw [H.dcache]

end Shows

/-! ## Create -/

section
variable {α β : Type} {s : Traced} {t : Fs} {dir blk : ℕ} {x : Name} {z : Block}

theorem sfs_congr {m m' : Mem} {p : ℕ} (h : m'.inodes = m.inodes) : m'.sfs p = m.sfs p := by
  unfold Mem.sfs Mem.priv
  rw [h]

theorem fillSlot_inodes {m : Mem} : (fillSlot z m).inodes = m.inodes := by
  unfold fillSlot
  split <;> rfl

theorem saveSlot_inodes {m : Mem} {p : ℕ} : (saveSlot p m).inodes = m.inodes := by
  unfold saveSlot
  split <;> rfl

theorem lockstep_inodeAdd (exist : Bool) (H : Related s t)
    (hcount : t.sb.inodesCount + 1 < 2 ^ 64) :
    (inodeAdd z exist).Lockstep Related
      (fun _ _ s' t' => Related s' t' ∧ s'.mem.inodes = s.mem.inodes)
      (Simplefs.inodeAdd (inodeAt z 0) exist) s t := by
  unfold inodeAdd Simplefs.inodeAdd
  refine lockstep_lock H fun r => ?_
  cases r with
  | true => exact ⟨H, rfl⟩
  | false =>
    refine lockstep_lock H fun r => ?_
    cases r with
    | true => exact ⟨H, rfl⟩
    | false =>
      cases exist with
      | true =>
        simp only [Bool.false_eq_true, if_false, if_true, pass, Prog.modify, markBufferDirty, mutexUnlock,
          step_bind, mark_bind, unlock_bind, ret_bind, Lockstep, true_and]
        refine ⟨?_, fillSlot_inodes⟩
        cases hf : findDead t.toImage (inodeAt z 0).inodeNo with
        | some i =>
          have hfill : fillSlot z s.mem = s.mem.setSlot i z := by
            unfold fillSlot
            rw [Shows.findDead H, hf]
          simp only [hfill]
          exact Shows.setSlot H i z
        | none =>
          have hfill : fillSlot z s.mem = s.mem := by
            unfold fillSlot
            rw [Shows.findDead H, hf]
          simp only [hfill]
          exact H
      | false =>
        have hset : Shows (s.mem.setSlot s.mem.image.sb.inodesCount z)
            (t.setSlot t.sb.inodesCount (inodeAt z 0)) := by
          rw [H.sb]
          exact Shows.setSlot H _ z
        simp only [Bool.false_eq_true, if_false, pass, Prog.modify, update, sbSync, Simplefs.sbSync,
          markBufferDirty, syncDirtyBuffer, mutexUnlock, step_bind, mark_bind, sync_bind, unlock_bind,
          ret_bind, Lockstep, true_and]
        exact ⟨hset.countInode hcount, rfl⟩

theorem lockstep_inodeSave (p : ℕ) (H : Related s t) :
    (inodeSave p).Lockstep Related
      (fun r r' s' t' => r = r' ∧ Related s' t' ∧ s'.mem.inodes = s.mem.inodes)
      (Simplefs.inodeSave p) s t := by
  unfold inodeSave Simplefs.inodeSave
  refine lockstep_lock H fun r => ?_
  cases r with
  | true => exact ⟨rfl, H, rfl⟩
  | false =>
    have hsfs : inodeAt ((s.mem.priv p).getD fun _ => 0) 0 = t.sfs p := Shows.sfs H p
    have hsearch := Shows.inodeSearch H p
    simp only [Bool.false_eq_true, if_false, pass, step_bind, ret_bind, Lockstep, hsearch]
    cases hf : Simplefs.inodeSearch t.toImage (t.sfs p) with
    | none =>
      have hsave : saveSlot p s.mem = s.mem := by
        unfold saveSlot
        rw [hsearch, hf]
      have hsave' : Simplefs.saveSlot p t = t := by
        unfold Simplefs.saveSlot
        rw [hf]
      simp only [hsave, hsave', mutexUnlock, unlock_bind, ret_bind, pure_def, Lockstep, true_and]
      exact ⟨H, trivial⟩
    | some i =>
      have hsave : saveSlot p s.mem = s.mem.setSlot i ((s.mem.priv p).getD fun _ => 0) := by
        unfold saveSlot
        rw [hsearch, hf]
      have hsave' : Simplefs.saveSlot p t = t.setSlot i (t.sfs p) := by
        unfold Simplefs.saveSlot
        rw [hf]
      simp only [hsave, hsave', markBufferDirty, syncDirtyBuffer, mutexUnlock, mark_bind, sync_bind,
        unlock_bind, ret_bind, pure_def, Lockstep, true_and]
      refine ⟨?_, rfl⟩
      rw [← hsfs]
      exact Shows.setSlot H i _

theorem Shows.countChild {s : Mem} {t : Fs} (H : Shows s t)
    (hcount : (s.sfs dir).dirChildrenCount + 1 < 2 ^ 64) :
    Shows (countChild dir s) (t.setSfs dir fun y => { y with size := y.dirChildrenCount + 1 }) := by
  refine H.setPriv dir fun z hz => inodeAt_size ?_
  rw [sfs_of_priv hz] at hcount
  exact hcount

theorem lockstep_createCommit {a : NewInode} {junk : SimplefsInode} (append : Bool) (H : Related s t)
    (hblk : SIMPLEFS_INODESTORE_BLOCK_NUMBER < blk)
    (hcount : (s.mem.sfs dir).dirChildrenCount + 1 < 2 ^ 64) :
    (createCommit a dir blk x z append).Lockstep Related (fun r r' s' t' => r = r' ∧ Related s' t')
      (Simplefs.createCommit ⟨a.addr, junk⟩ dir blk x (inodeAt z 0) append) s t := by
  have hadd : ∀ {s t}, Shows s t → Shows
      (s.dAdd dir x a.addr ⟨(inodeAt z 0).inodeNo, (inodeAt z 0).mode, some z⟩)
      (t.dAdd dir x a.addr ⟨(inodeAt z 0).inodeNo, (inodeAt z 0).mode, some (inodeAt z 0)⟩) :=
    fun H => H.dAdd dir x a.addr _
  unfold createCommit Simplefs.createCommit
  cases append with
  | true =>
    have happend : Shows
        (s.mem.setBlock blk fun b =>
          appendRecord b (s.mem.sfs dir).dirChildrenCount x (inodeAt z 0).inodeNo)
        (t.setBlock blk fun b => appendRecord b (t.sfs dir).dirChildrenCount x (inodeAt z 0).inodeNo) := by
      rw [Shows.sfs H]
      exact Shows.setBlock H hblk _
    simp only [if_true, pass, Prog.modify, markBufferDirty, syncDirtyBuffer, mark_bind, sync_bind,
      step_bind, ret_bind, Lockstep, true_and]
    refine lockstep_lock happend fun r => ?_
    cases r with
    | true => exact ⟨rfl, rfl, happend⟩
    | false =>
      simp only [Bool.false_eq_true, if_false, update, Prog.modify, step_bind, ret_bind, Lockstep]
      refine lockstep_bind (lockstep_inodeSave dir ?_) ?_
      · exact happend.countChild hcount
      · rintro r _ s' t' ⟨rfl, hR, -⟩
        cases r with
        | error e =>
          simp only [mutexUnlock, unlock_bind, ret_bind, pure_def, Lockstep, true_and]
          exact hR
        | ok =>
          simp only [mutexUnlock, unlock_bind, ret_bind, pure_def, Lockstep, true_and]
          exact hadd hR
  | false =>
    simp only [Bool.false_eq_true, if_false, markBufferDirty, syncDirtyBuffer, mark_bind, sync_bind,
      ret_bind, Lockstep, true_and]
    refine lockstep_lock H fun r => ?_
    cases r with
    | true => exact ⟨rfl, rfl, H⟩
    | false =>
      simp only [Bool.false_eq_true, if_false, update, Prog.modify, mutexUnlock, step_bind, unlock_bind,
        ret_bind, pure_def, Lockstep, true_and]
      exact hadd H

theorem lockstep_createFinish {a : NewInode} {junk : SimplefsInode} (exist samedir : Bool)
    (H : Related s t) (hblk : SIMPLEFS_INODESTORE_BLOCK_NUMBER < blk)
    (hchildren : (s.mem.sfs dir).dirChildrenCount + 1 < 2 ^ 64)
    (hcount : t.sb.inodesCount + 1 < 2 ^ 64) :
    (createFinish a dir blk x z exist samedir).Lockstep Related
      (fun r r' s' t' => r = r' ∧ Related s' t')
      (Simplefs.createFinish ⟨a.addr, junk⟩ dir blk x (inodeAt z 0) exist samedir) s t := by
  unfold createFinish Simplefs.createFinish
  refine lockstep_bind (lockstep_inodeAdd exist H hcount) ?_
  rintro - - s' t' ⟨hR, hinodes⟩
  refine lockstep_createCommit _ hR hblk ?_
  rw [sfs_congr hinodes]
  exact hchildren

theorem lockstep_getDeadInodeNo (H : Related s t) :
    getDeadInodeNo.Lockstep Related
      (fun r r' s' t' => r = r' ∧ (∀ n b, r = some (n, b) → n < 2 ^ 64 ∧ b < 2 ^ 64) ∧
        Related s' t' ∧ s'.mem = s.mem ∧ t' = t)
      Simplefs.getDeadInodeNo s t := by
  have hstore : s.mem.image.store = t.store := H.store
  simp only [getDeadInodeNo, Simplefs.getDeadInodeNo, pass, reads, markBufferDirty, step_bind, mark_bind,
    ret_bind, pure_def, Lockstep, true_and, and_true, id_eq, Shows.firstDead H, hstore]
  refine ⟨fun n b h => ?_, H⟩
  obtain ⟨i, -, hi⟩ := Option.map_eq_some_iff.mp h
  obtain ⟨rfl, rfl⟩ := Prod.mk.inj hi
  rw [← hstore]
  exact ⟨(Block.getLE_lt _ _ _).trans_le (by norm_num), (Block.getLE_lt _ _ _).trans_le (by norm_num)⟩

theorem lockstep_sbGetAFreeblock [Target] (H : Related s t) :
    sbGetAFreeblock.Lockstep Related
      (fun r r' s' t' => r = r' ∧ (∀ b, r = .ok b → b < 2 ^ 64) ∧ Related s' t' ∧
        s'.mem.inodes = s.mem.inodes ∧ t'.sb.inodesCount = t.sb.inodesCount)
      Simplefs.sbGetAFreeblock s t := by
  have hsb : s.mem.image.sb = t.sb := H.sb
  unfold sbGetAFreeblock Simplefs.sbGetAFreeblock
  refine lockstep_lock H fun r => ?_
  cases r with
  | true => exact ⟨rfl, rfl, (by rintro _ ⟨⟩), H, rfl, rfl⟩
  | false =>
    simp only [Bool.false_eq_true, if_false, look, reads, step_bind, ret_bind, Lockstep, hsb, id_eq]
    cases hf : findFreeBlock t.sb.freeBlocks with
    | none => exact ⟨rfl, rfl, (by rintro _ ⟨⟩), H, rfl, rfl⟩
    | some i =>
      have hi : i < 2 ^ 64 := (findFreeBlock_some hf).2.1.trans (by decide)
      simp only [update, Prog.modify, sbSync, Simplefs.sbSync, markBufferDirty, syncDirtyBuffer,
        mutexUnlock, step_bind, mark_bind, sync_bind, unlock_bind, ret_bind, pure_def, Lockstep, true_and]
      refine ⟨fun b hb => ?_, Shows.takeBlock H i, rfl, trivial⟩
      cases hb
      exact hi

theorem inodeAt_newInode {ino mode : ℕ} (hino : ino < 2 ^ 64) (hmode : mode < 2 ^ 32) :
    inodeAt (newInode z ino mode) 0 = { inodeAt z 0 with inodeNo := ino, mode := mode, size := 0 } := by
  rw [newInode, inodeAt_size (by norm_num), inodeAt_mode hmode, inodeAt_inodeNo hino]

/-- What `new_inode` and `kmem_cache_alloc` return, as structures. -/
def NewInode.view (a : NewInode) : Simplefs.NewInode := ⟨a.addr, inodeAt a.junk 0⟩

theorem lockstep_createBody [Target] (a : NewInode) {mode ino : ℕ} (hmode : mode < 2 ^ 32)
    (hino : ino < 2 ^ 64) (H : Related s t) (hpriv : (s.mem.priv dir).isSome = true)
    (hblk : SIMPLEFS_INODESTORE_BLOCK_NUMBER < (s.mem.sfs dir).dataBlockNumber)
    (hchildren : (s.mem.sfs dir).dirChildrenCount + 1 < 2 ^ 64)
    (hcount : t.sb.inodesCount + 1 < 2 ^ 64) :
    (createBody a dir x mode ino).Lockstep Related (fun r r' s' t' => r = some r' ∧ Related s' t')
      (Simplefs.createBody a.view dir x mode ino) s t := by
  obtain ⟨z, hz⟩ := Option.isSome_iff_exists.mp hpriv
  unfold createBody Simplefs.createBody
  simp only [deref, pass, reads, step_bind, ret_bind, Lockstep, hz, id_eq, Option.map_some]
  have hsfs : inodeAt z 0 = t.sfs dir := (sfs_of_priv hz).symm.trans (Shows.sfs H dir)
  rw [Shows.sfs H dir] at hblk
  rw [hsfs]
  refine lockstep_bind (lockstep_getDeadInodeNo H) ?_
  rintro dead _ s' t' ⟨rfl, hlt, hR, hmem, rfl⟩
  have hfin : ∀ {z : Block} {exist samedir : Bool} {s'' : Traced} {t'' : Fs}, Shows s''.mem t'' →
      s''.mem.inodes = s'.mem.inodes → t''.sb.inodesCount = t'.sb.inodesCount →
      (some <$> createFinish a dir (t'.sfs dir).dataBlockNumber x z exist samedir).Lockstep Related
        (fun r r' s' t' => r = some r' ∧ Related s' t')
        (Simplefs.createFinish a.view dir (t'.sfs dir).dataBlockNumber x (inodeAt z 0) exist samedir)
        s'' t'' := by
    intro z exist samedir s'' t'' hR hinodes hic
    refine lockstep_map some (lockstep_createFinish exist samedir hR hblk ?_ ?_) ?_
    · rw [sfs_congr hinodes, hmem]
      exact hchildren
    · rw [hic]
      exact hcount
    · rintro r _ s' t' ⟨rfl, hR⟩
      exact ⟨rfl, hR⟩
  cases dead with
  | some nb =>
    obtain ⟨hn, hb⟩ := hlt nb.1 nb.2 rfl
    have hnew : inodeAt (((newInode a.junk ino mode).putLE 8 24 nb.2).putLE 8 8 nb.1) 0 =
        { a.view.junk with mode := mode, inodeNo := nb.1, dataBlockNumber := nb.2, size := 0 } := by
      rw [inodeAt_inodeNo hn, inodeAt_dataBlockNumber hb, inodeAt_newInode hino hmode]
      rfl
    simp only [Lockstep]
    rw [Shows.data hR _ hblk, Shows.sfs hR, ← hnew]
    cases hf : firstTombstone (t'.data (t'.sfs dir).dataBlockNumber) (t'.sfs dir).dirChildrenCount with
    | none =>
      have hfill : fillTombstone dir (t'.sfs dir).dataBlockNumber x nb.1 s'.mem = s'.mem := by
        unfold fillTombstone
        rw [Shows.data hR _ hblk, Shows.sfs hR, hf]
      simp only [hfill]
      exact hfin hR rfl rfl
    | some i =>
      have hfill : fillTombstone dir (t'.sfs dir).dataBlockNumber x nb.1 s'.mem =
          s'.mem.setBlock (t'.sfs dir).dataBlockNumber fun b => reuseRecord b i x nb.1 := by
        unfold fillTombstone
        rw [Shows.data hR _ hblk, Shows.sfs hR, hf]
      simp only [hfill]
      exact hfin (Shows.setBlock hR hblk fun b => reuseRecord b i x nb.1) rfl rfl
  | none =>
    refine lockstep_bind (lockstep_sbGetAFreeblock hR) ?_
    rintro r _ s'' t'' ⟨rfl, hlt, hR', hinodes, hic⟩
    cases r with
    | error e => exact ⟨rfl, rfl, hR'⟩
    | ok b =>
      have hnew : inodeAt ((newInode a.junk ino mode).putLE 8 24 b) 0 =
          { a.view.junk with mode := mode, inodeNo := ino, dataBlockNumber := b, size := 0 } := by
        rw [inodeAt_dataBlockNumber (hlt b rfl), inodeAt_newInode hino hmode]
        rfl
      simp only
      rw [← hnew]
      exact hfin hR' hinodes hic

theorem lockstep_createFsObject [Target] (new : Option NewInode) {mode : ℕ} (hmode : mode < 2 ^ 32)
    (H : Related s t) (hpriv : (s.mem.priv dir).isSome = true)
    (hblk : SIMPLEFS_INODESTORE_BLOCK_NUMBER < (s.mem.sfs dir).dataBlockNumber)
    (hchildren : (s.mem.sfs dir).dirChildrenCount + 1 < 2 ^ 64) :
    (createFsObject new dir x mode).Lockstep Related (fun r r' s' t' => r = some r' ∧ Related s' t')
      (Simplefs.createFsObject (new.map NewInode.view) dir x mode) s t := by
  have hsb : s.mem.image.sb = t.sb := H.sb
  unfold createFsObject Simplefs.createFsObject
  refine lockstep_lock H fun r => ?_
  cases r with
  | true => exact ⟨rfl, H⟩
  | false =>
    simp only [Bool.false_eq_true, if_false, sbGetObjectsCount, Simplefs.sbGetObjectsCount, bind_assoc]
    refine lockstep_lock H fun r => ?_
    cases r with
    | true => exact ⟨rfl, rfl, H⟩
    | false =>
      simp only [Bool.false_eq_true, if_false, look, reads, mutexUnlock, step_bind, unlock_bind, ret_bind,
        pure_def, Lockstep, true_and, hsb, id_eq]
      by_cases hfull : SIMPLEFS_MAX_FILESYSTEM_OBJECTS_SUPPORTED ≤ t.sb.inodesCount
      · simp only [hfull, if_true]
        exact ⟨rfl, rfl, H⟩
      have hlt : t.sb.inodesCount < 64 := not_le.mp hfull
      simp only [hfull, if_false]
      by_cases hkind : (!S_ISDIR mode && !S_ISREG mode) = true
      · simp only [hkind, if_true]
        exact ⟨rfl, rfl, H⟩
      simp only [hkind]
      cases new with
      | none => exact ⟨rfl, rfl, H⟩
      | some a =>
        refine lockstep_createBody a hmode ?_ H hpriv hblk hchildren (by omega)
        simp only [SIMPLEFS_START_INO, SIMPLEFS_RESERVED_INODES]
        omega

/-- **Create, on the bytes**: with any lock attempts interrupted it returns what `Code.lean` says, or
    waits for a mutex that it holds as there, and the blocks then hold the structures. -/
theorem createFsObject_shows [Target] {new : Option NewInode} {mode : ℕ} (intr : Site → Bool)
    (h : Mutex → Bool) (hmode : mode < 2 ^ 32) (H : Shows s.mem t)
    (hpriv : (s.mem.priv dir).isSome = true)
    (hblk : SIMPLEFS_INODESTORE_BLOCK_NUMBER < (s.mem.sfs dir).dataBlockNumber)
    (hchildren : (s.mem.sfs dir).dirChildrenCount + 1 < 2 ^ 64) :
    let r := (createFsObject new dir x mode).ends Site.mutex intr s h
    let r' := (Simplefs.createFsObject (new.map NewInode.view) dir x mode).ends Site.mutex intr t h
    r.1 = r'.1.map some ∧ Shows r.2.mem r'.2 := by
  have hlock := lockstep_createFsObject (x := x) new hmode H hpriv hblk hchildren
  obtain ⟨r, r', s', t', hr, hr', rfl, hR⟩ | ⟨s', t', hr, hr', hR⟩ :=
    hlock.ends Site.mutex intr h
  · dsimp only
    rw [hr, hr']
    exact ⟨rfl, hR⟩
  · dsimp only
    rw [hr, hr']
    exact ⟨rfl, hR⟩

end

/-! ## Lookup, listing and mount -/

theorem inodeAt_copyInode (b : Block) (o : ℕ) : inodeAt (copyInode b o) 0 = inodeAt b o :=
  inodeAt_write_self

/-- What `simplefs_get_inode` copies is the structure of the slot. -/
theorem getInode_view (blocks : ℕ → Block) (ino : ℕ) :
    (((List.range (imageOf blocks).sb.inodesCount).find? fun i =>
        ((imageOf blocks).store i).inodeNo == ino).map fun i =>
      copyInode (blocks SIMPLEFS_INODESTORE_BLOCK_NUMBER) (slotOff i)).map (fun z => inodeAt z 0) =
      Simplefs.getInode (imageOf blocks) ino := by
  rw [Option.map_map, Simplefs.getInode]
  refine congrFun (congrArg _ (funext fun i => ?_)) _
  exact inodeAt_copyInode _ _

/-- The outcome of a lookup, as structures. -/
def Lookup.view : Lookup → Simplefs.Lookup
  | negative => .negative
  | bound v => .bound v.view
  | nullDeref => .nullDeref

section
variable {s : Traced} {t : Fs} {dir : ℕ}

theorem lookup_shows {x : Name} {p : ℕ} (H : Shows s.mem t) (hpriv : (s.mem.priv dir).isSome = true)
    (hblk : SIMPLEFS_INODESTORE_BLOCK_NUMBER < (s.mem.sfs dir).dataBlockNumber) :
    let r := (lookup dir x p).exec s
    let r' := (Simplefs.lookup dir x p).exec t
    r.1.view = r'.1 ∧ Shows r.2.mem r'.2 := by
  obtain ⟨z, hz⟩ := Option.isSome_iff_exists.mp hpriv
  have hsfs : inodeAt z 0 = t.sfs dir := (sfs_of_priv hz).symm.trans (H.sfs dir)
  rw [H.sfs dir] at hblk
  dsimp only
  rw [exec_lookup, lookup, deref, exec_bind, exec_pass]
  simp only [hz, Option.map_some, hsfs, exec_bind, exec_pass, id, H.data _ hblk, H.sfs]
  cases findName (t.data (t.sfs dir).dataBlockNumber) (t.sfs dir).dirChildrenCount x with
  | none => exact ⟨rfl, H⟩
  | some r =>
    have hview := getInode_view s.mem.blocks (recIno (t.data (t.sfs dir).dataBlockNumber) r)
    rw [← Mem.image, H.getInode] at hview
    simp only [Option.map_some, exec_bind, getInode, exec_pass, id, ← hview]
    cases ((List.range s.mem.image.sb.inodesCount).find? fun i => (s.mem.image.store i).inodeNo ==
        recIno (t.data (t.sfs dir).dataBlockNumber) r).map fun i =>
      copyInode (s.mem.blocks SIMPLEFS_INODESTORE_BLOCK_NUMBER) (slotOff i) with
    | none => exact ⟨rfl, H⟩
    | some y => exact ⟨rfl, H.dAdd dir x p _⟩

theorem iterate_shows {p pos : ℕ} {room : ℕ → Bool} (H : Shows s.mem t)
    (hpriv : (s.mem.priv p).isSome = true)
    (hblk : SIMPLEFS_INODESTORE_BLOCK_NUMBER < (s.mem.sfs p).dataBlockNumber) :
    let r := (iterate p pos room).exec s
    let r' := (Simplefs.iterate p pos room).exec t
    r.1 = some r'.1 ∧ Shows r.2.mem r'.2 := by
  obtain ⟨z, hz⟩ := Option.isSome_iff_exists.mp hpriv
  have hsfs : inodeAt z 0 = t.sfs p := (sfs_of_priv hz).symm.trans (H.sfs p)
  rw [H.sfs p] at hblk
  dsimp only
  rw [iterate, Simplefs.iterate, exec_reads, deref]
  by_cases hpos : pos = 0
  swap
  · rw [if_pos hpos, if_pos hpos]
    exact ⟨rfl, H⟩
  rw [if_neg (not_not.mpr hpos), if_neg (not_not.mpr hpos), exec_bind, exec_pass]
  dsimp only [id]
  rw [hz, Option.map_some, hsfs]
  dsimp only
  cases hdir : S_ISDIR (t.sfs p).mode with
  | false => exact ⟨rfl, H⟩
  | true =>
    simp only [Bool.not_true, Bool.false_eq_true, if_false, exec_pass, H.data _ hblk, id, true_and]
    exact H

end

theorem fillSuper_shows {blocks : ℕ → Block} {s : Traced} (h : fillSuper blocks = .ok s) :
    ∃ t, Simplefs.fillSuper (imageOf blocks) = .ok t ∧ Shows s.mem t := by
  unfold fillSuper at h
  dsimp only at h
  split_ifs at h with hmagic hsize
  cases h
  have hblocks : (mountRoot blocks).mem.blocks = blocks := by
    rw [mountRoot, getInode, exec_pass]
    rfl
  have himage : (mountRoot blocks).mem.image = imageOf blocks := by
    rw [Mem.image, hblocks]
  refine ⟨_, (if_neg hmagic).trans (if_neg hsize), ?_, ?_, ?_, ?_, ?_⟩
  · rw [himage]
  · rw [himage]
  · intro b _
    rw [hblocks]
    rfl
  · intro p
    rw [mountRoot_inodes]
    dsimp only
    by_cases hp : p = rootAddr
    · subst hp
      rw [Function.update_self, Function.update_self, Option.map_some, MemInode.view, getInode_view]
    · rw [Function.update_of_ne hp, Function.update_of_ne hp, Option.map_none]
  · rfl

/-- A device that is not mounted is refused by both, with the same error. -/
theorem fillSuper_error {blocks : ℕ → Block} {e : Errno} (h : fillSuper blocks = .error e) :
    Simplefs.fillSuper (imageOf blocks) = .error e := by
  unfold fillSuper at h
  dsimp only at h
  split_ifs at h with hmagic hsize
  · cases h
    exact if_pos hmagic
  · cases h
    exact (if_neg hmagic).trans (if_pos hsize)

/-! ## Runs -/

section
variable [Target]

/-- The structures after a call. -/
def Call.structures (t : Fs) : Call → Fs
  | lookup dir x p => ((Simplefs.lookup dir x p).exec t).2
  | iterate p pos room => ((Simplefs.iterate p pos room).exec t).2
  | create intr new dir x mode =>
    ((Simplefs.createFsObject (new.map NewInode.view) dir x mode).ends Site.mutex intr t
      (held false false false)).2

/-- The records of the directory are apart from the superblock and the inode store, and one more can
    be counted; `mode` is a `umode_t`. -/
structure Call.Apart (m : Mem) (c : Call) : Prop where
  priv : (m.priv c.dir).isSome = true
  block : SIMPLEFS_INODESTORE_BLOCK_NUMBER < (m.sfs c.dir).dataBlockNumber
  children : (m.sfs c.dir).dirChildrenCount + 1 < 2 ^ 64
  mode : ∀ intr new dir x mode, c = create intr new dir x mode → mode < 2 ^ 16

theorem Step.shows {s s' : Traced} {t : Fs} {c : Call} (h : Step s c s') (hc : c.Apart s.mem)
    (H : Shows s.mem t) : Shows s'.mem (c.structures t) := by
  obtain ⟨-, rfl⟩ := h
  cases c with
  | lookup dir x p => exact (lookup_shows H hc.priv hc.block).2
  | iterate p pos room => exact (iterate_shows H hc.priv hc.block).2
  | create intr new dir x mode =>
    have hmode : mode < 2 ^ 32 := (hc.mode intr new dir x mode rfl).trans (by decide)
    exact (createFsObject_shows intr _ hmode H hc.priv hc.block hc.children).2

/-- **The bytes hold the structures along a run**, as long as the calls are on directories apart from
    the superblock and the inode store. -/
theorem run_shows {s s' : Traced} {t : Fs} {cs : List Call} (H : Shows s.mem t)
    (h : Run (fun s c s' => Step s c s' ∧ c.Apart s.mem) s cs s') :
    ∃ t', Run (fun t c t' => t' = c.structures t) t cs t' ∧ Shows s'.mem t' := by
  have hstep : ∀ (s : Traced) (c : Call) (s' : Traced) (t : Fs), Related s t →
      Step s c s' ∧ c.Apart s.mem → ∃ t', t' = (id c).structures t ∧ Related s' t' :=
    fun _ _ _ _ H h => ⟨_, rfl, h.1.shows h.2 H⟩
  have hrun : ∃ t', Run (fun t c t' => t' = Call.structures t c) t (cs.map id) t' ∧ Related s' t' :=
    Run.simulation id hstep H h
  rwa [List.map_id] at hrun

end

end Simplefs.Buffers
