/-
  simplefs — the store invariant over whole runs.

  `store_ok`: in every state reached from the image of `mkfs-simplefs`, the
  numbers and blocks of the slots are distinct, records and live slots match one
  to one, and the directories form a tree (`StoreOk`).
-/
import KernelLinux.Simplefs.Vfs

namespace Simplefs

open Bytes Prog

/-- The store is consistent: what `StoreInv` says about slots, records and paths, without the
    facts about the allocator and the mount that its proof needs. -/
structure StoreOk (g : Image) : Prop where
  count_le : g.sb.inodesCount ≤ SIMPLEFS_MAX_FILESYSTEM_OBJECTS_SUPPORTED
  number_ne : ∀ i < g.sb.inodesCount, (g.store i).number ≠ 0
  number_inj : ∀ i < g.sb.inodesCount, ∀ j < g.sb.inodesCount,
    (g.store i).number = (g.store j).number → i = j
  block_ge : ∀ i < g.sb.inodesCount, 2 ≤ (g.store i).dataBlockNumber
  block_inj : ∀ i < g.sb.inodesCount, ∀ j < g.sb.inodesCount,
    (g.store i).dataBlockNumber = (g.store j).dataBlockNumber → i = j
  /-- a counted record with a number names exactly one live slot -/
  record : ∀ d, g.LiveDir d → ∀ r < (g.store d).dirChildrenCount, recIno (g.block d) r ≠ 0 →
    ∃! k, g.Live k ∧ (g.store k).inodeNo = recIno (g.block d) r
  /-- a live slot but the root is named by exactly one record of one live directory -/
  slot : ∀ k, g.Live k → k ≠ 0 → ∃! e : ℕ × ℕ, g.LiveDir e.1 ∧
    e.2 < (g.store e.1).dirChildrenCount ∧ recIno (g.block e.1) e.2 = (g.store k).inodeNo
  root : g.LiveDir 0 ∧ (g.store 0).inodeNo = SIMPLEFS_ROOTDIR_INODE_NUMBER
  root_unnamed : ∀ d, g.LiveDir d → ∀ r < (g.store d).dirChildrenCount,
    recIno (g.block d) r ≠ (g.store 0).inodeNo
  /-- one path leads from the root to each live slot -/
  tree : ∀ k, g.Live k → ∃! p, g.Walk p k
  children_lt : ∀ d, g.LiveDir d → (g.store d).dirChildrenCount < g.sb.inodesCount

theorem StoreInv.ok [Target] {g : Image} (H : StoreInv g) : StoreOk g where
  count_le := H.count_le
  number_ne := H.number_ne
  number_inj := H.number_inj
  block_ge := H.block_ge
  block_inj := H.block_inj
  record d hd r hr hne := by
    obtain ⟨k, hk⟩ := H.names_live d r hd hr hne
    exact ⟨k, ⟨hk.live, hk.ino.symm⟩, fun j hj => H.live_inj hj.1 hk.live (hj.2.trans hk.ino)⟩
  slot k hk h0 := by
    obtain ⟨p, hp⟩ := H.walk k hk
    cases hp with
    | root => exact absurd rfl h0
    | @step _ d r _ _ _ he _ =>
      refine ⟨(d, r), ⟨he.dir, he.counted, he.ino⟩, fun e h => ?_⟩
      obtain ⟨hd, hr⟩ := H.entry_inj e.1 e.2 d r k ⟨h.1, h.2.1, hk, h.2.2⟩ he
      exact Prod.ext hd hr
  root := ⟨⟨H.live_root, H.root_dir⟩, H.root_no⟩
  root_unnamed d hd r hr h := H.root_unnamed d r ⟨hd, hr, H.live_root, h⟩
  tree k hk := by
    obtain ⟨p, hp⟩ := H.walk k hk
    exact ⟨p, hp, fun q hq => H.walk_inj hq hp⟩
  children_lt := H.children_lt

/-! ## Runs -/

/-- A call the VFS makes, not a write through a handle kept past its unlink. -/
structure Op.Step [Target] (s : Fs) (l : Op × Outcome) (s' : Fs) : Prop where
  allowed : l.1.Allowed s
  inUse : l.1.InUse s
  exec : l.1.exec s = (l.2, s')

theorem Op.Step.does [Target] {s s' : Fs} {l : Op × Outcome} (h : Op.Step s l s') (H : FsInv s) :
    l.1.Does s l.2 s' := by
  have := Op.does H h.allowed (h.inUse.clear H)
  rwa [h.exec] at this

/-- The state after mounting the image of `mkfs-simplefs`. -/
theorem mkfs_mounted [Target] {dev : Image} {junk : ℕ} {s : Fs}
    (h : fillSuper (mkfs dev junk) = .ok s) : Mounted (mkfs dev junk) s := by
  obtain ⟨s', hs', hM⟩ := mount_spec (mkfs_inv : StoreInv (mkfs dev junk))
  rw [h] at hs'
  obtain rfl := Except.ok.inj hs'
  exact hM

theorem reach_inv [Target] {dev : Image} {junk : ℕ} {s₀ s : Fs} {ls : List (Op × Outcome)}
    (h₀ : fillSuper (mkfs dev junk) = .ok s₀) (h : Run Op.Step s₀ ls s) : FsInv s :=
  Run.inv (fun _ _ _ H hs => (hs.does H).inv H) ((mkfs_mounted h₀).inv mkfs_inv) h

/-- **The store is consistent in every reachable state.** -/
theorem store_ok [Target] {dev : Image} {junk : ℕ} {s₀ s : Fs} {ls : List (Op × Outcome)}
    (h₀ : fillSuper (mkfs dev junk) = .ok s₀) (h : Run Op.Step s₀ ls s) : StoreOk s.toImage :=
  (reach_inv h₀ h).toStoreInv.ok

/-! ## A run -/

theorem blankFs_inv [Target] : FsInv blankFs := (mkfs_mounted blankFs_mount).inv mkfs_inv

/-- A new file `"a"` in the root directory, its inode at address 1. -/
def createA : Op := .create (some ⟨1, default⟩) rootAddr nameA S_IFREG

theorem createA_step [Target] :
    Op.Step blankFs (createA, (createA.exec blankFs).1) (createA.exec blankFs).2 where
  allowed := by
    refine ⟨⟨rfl, by decide, rfl, ?_, fun a _ => ?_⟩, rfl⟩
    · unfold Fs.Has
      decide
    · obtain rfl := Option.some.inj ‹some (⟨1, default⟩ : NewInode) = some a›
      rfl
  inUse := trivial
  exec := rfl

section

attribute [local instance] x86

def createdA : Fs := (createA.exec blankFs).2

/-- A write of one byte to the file whose inode is at address 1. -/
def writeA : Op := .write (.ok (0, 1)) 1 [88]

theorem writeA_step : Op.Step createdA (writeA, .wrote (.ok 1)) (writeA.exec createdA).2 where
  allowed := show createdA.isReg 1 = true by decide
  inUse := ⟨rootAddr, nameA, by decide⟩
  exec := Prod.ext rfl rfl

theorem store_ok_writeA : StoreOk (writeA.exec createdA).2.toImage :=
  store_ok blankFs_mount (.snoc (.single createA_step) writeA_step)

end

end Simplefs
