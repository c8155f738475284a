/-
  simplefs — `mkfs-simplefs` and mounting.

  * `mkfs_inv`: the image of `mkfs-simplefs` satisfies the store invariant,
    whatever the device held before.
  * `mount_spec`: an image that satisfies it can be mounted, and the mounted state
    satisfies `FsInv`.
-/
import KernelLinux.Simplefs.Spec

namespace Simplefs

open Bytes

/-! ## The initial image -/

section
variable {dev : Image} {junk : ℕ}

theorem mkfs_counted {k : ℕ} (h : k < (mkfs dev junk).sb.inodesCount) : k = 0 ∨ k = 1 := by
  have h2 : k < 2 := h
  omega

theorem mkfs_live {k : ℕ} : (mkfs dev junk).Live k ↔ k = 0 ∨ k = 1 := by
  constructor
  · rintro ⟨h, -⟩
    exact mkfs_counted h
  · rintro (rfl | rfl)
    · exact ⟨by show 0 < 2; omega, by show 1 ≠ 0; omega⟩
    · exact ⟨by show 1 < 2; omega, by show 2 ≠ 0; omega⟩

theorem mkfs_liveDir {k : ℕ} : (mkfs dev junk).LiveDir k ↔ k = 0 := by
  constructor
  · rintro ⟨h, hd⟩
    rcases mkfs_live.1 h with rfl | rfl
    · rfl
    · exact absurd (show S_ISDIR S_IFREG = true from hd) (by decide)
  · rintro rfl
    exact ⟨mkfs_live.2 (Or.inl rfl), show S_ISDIR S_IFDIR = true by decide⟩

theorem mkfs_recIno : recIno ((mkfs dev junk).block 0) 0 = WELCOMEFILE_INODE_NUMBER :=
  Block.getLE_putLE (by decide)

theorem mkfs_recIs : recIs ((mkfs dev junk).block 0) 0 welcomeName = true := by
  set b := dev.data SIMPLEFS_ROOTDIR_DATABLOCK_NUMBER with hb
  have h : ((mkfs dev junk).block 0) =
      (b.write (recName 0) (welcomeName.bytes ++ List.replicate 17 0)).putLE 8 (recInoOff 0)
        WELCOMEFILE_INODE_NUMBER := rfl
  rw [h, recIs, Block.streq_congr (c := b.write 0 (welcomeName.bytes ++ List.replicate 17 0))]
  · rw [Block.streq_iff]
    have hlen := Block.read_write b 0 (welcomeName.bytes ++ List.replicate 17 0)
    rw [show (welcomeName.bytes ++ List.replicate 17 (0 : UInt8)).length = 9 + 16 from rfl,
      Block.read_add] at hlen
    have hsplit : welcomeName.bytes ++ List.replicate 17 (0 : UInt8) =
        (welcomeName.bytes ++ [0]) ++ List.replicate 16 0 := rfl
    rw [hsplit] at hlen
    exact (List.append_inj hlen (Block.length_read _ _ _)).1
  · intro i hi
    have hi' : i < 9 := hi
    refine Block.putLE_outside (Or.inl ?_)
    simp only [recName, recInoOff, recSize]
    omega

/-- The only record of the initial image names the welcome file. -/
theorem mkfs_entry {d r k : ℕ} : (mkfs dev junk).Entry d r k ↔ d = 0 ∧ r = 0 ∧ k = 1 := by
  constructor
  · intro h
    obtain rfl := mkfs_liveDir.1 h.dir
    have hr : r < 1 := h.counted
    obtain rfl : r = 0 := by omega
    refine ⟨rfl, rfl, ?_⟩
    have hino := h.ino
    rw [mkfs_recIno] at hino
    rcases mkfs_live.1 h.live with rfl | rfl
    · exact absurd hino (show ¬ (2 = 1) by omega)
    · rfl
  · rintro ⟨rfl, rfl, rfl⟩
    exact ⟨mkfs_liveDir.2 rfl, show 0 < 1 by omega, mkfs_live.2 (Or.inr rfl), mkfs_recIno⟩

/-- **`mkfs-simplefs` establishes the store invariant.** -/
theorem mkfs_inv [Target] : StoreInv (mkfs dev junk) where
  magic := rfl
  blockSize := rfl
  count_pos := show 0 < 2 by omega
  count_le := show 2 ≤ 64 by omega
  root_no := rfl
  root_dir := show S_ISDIR S_IFDIR = true by decide
  number_ne i hi := by
    rcases mkfs_counted hi with rfl | rfl
    · show 1 ≠ 0; omega
    · show 2 ≠ 0; omega
  number_inj i hi j hj h := by
    rcases mkfs_counted hi with rfl | rfl <;> rcases mkfs_counted hj with rfl | rfl
    · rfl
    · exact absurd h (show ¬ (1 = 2) by omega)
    · exact absurd h (show ¬ (2 = 1) by omega)
    · rfl
  number_lt i hi := by
    rcases mkfs_counted hi with rfl | rfl
    · show 1 < 10; omega
    · show 2 < 10; omega
  block_ge i hi := by
    rcases mkfs_counted hi with rfl | rfl
    · show 2 ≤ 2; omega
    · show 2 ≤ 3; omega
  block_inj i hi j hj h := by
    rcases mkfs_counted hi with rfl | rfl <;> rcases mkfs_counted hj with rfl | rfl
    · rfl
    · exact absurd h (show ¬ (2 = 3) by omega)
    · exact absurd h (show ¬ (3 = 2) by omega)
    · rfl
  block_free i hi h3 := by
    rcases mkfs_counted hi with rfl | rfl
    · exact absurd h3 (show ¬ (3 ≤ 2) by omega)
    · show (~~~ (1#32 <<< 3)).signExtend 64 &&& oneShl 3 = 0
      simp only [oneShl, show (3 < 32) = True by simp, if_true]
      decide
  kind k hk := by
    rcases mkfs_live.1 hk with rfl | rfl
    · exact Or.inl (show S_ISDIR S_IFDIR = true by decide)
    · exact Or.inr (show S_ISREG S_IFREG = true by decide)
  children_lt d hd := by
    obtain rfl := mkfs_liveDir.1 hd
    show 1 < 2
    omega
  names_live d r hd hr _ := by
    obtain rfl := mkfs_liveDir.1 hd
    have hr' : r < 1 := hr
    exact ⟨1, mkfs_entry.2 ⟨rfl, by omega, rfl⟩⟩
  entry_inj d r d' r' k h h' := by
    obtain ⟨rfl, rfl, -⟩ := mkfs_entry.1 h
    obtain ⟨rfl, rfl, -⟩ := mkfs_entry.1 h'
    exact ⟨rfl, rfl⟩
  root_unnamed d r h := by
    obtain ⟨-, -, h⟩ := mkfs_entry.1 h
    omega
  walk k hk := by
    rcases mkfs_live.1 hk with rfl | rfl
    · exact ⟨[], .root⟩
    · exact ⟨[welcomeName], .step .root (mkfs_entry.2 ⟨rfl, rfl, rfl⟩) mkfs_recIs⟩
  name d r k h := by
    obtain ⟨rfl, rfl, -⟩ := mkfs_entry.1 h
    exact ⟨welcomeName, show 8 < 25 by omega, mkfs_recIs⟩
  name_inj d r r' k k' x h h' _ _ := by
    obtain ⟨-, rfl, -⟩ := mkfs_entry.1 h
    obtain ⟨-, rfl, -⟩ := mkfs_entry.1 h'
    rfl

end

/-! ## Mounting -/

/-- A freshly mounted image: the root inode is the only one in memory. -/
structure Mounted (g : Image) (s : Fs) : Prop where
  image : s.toImage = g
  inodes : s.inodes = Function.update (fun _ => none) rootAddr
    (some ⟨SIMPLEFS_ROOTDIR_INODE_NUMBER, S_IFDIR, some (g.store 0)⟩)
  dcache : s.dcache = fun _ _ => none

namespace Mounted
variable {g : Image} {s : Fs} (M : Mounted g s)
include M

theorem inode {p : ℕ} {v : Inode} (h : s.inodes p = some v) :
    p = rootAddr ∧ v = ⟨SIMPLEFS_ROOTDIR_INODE_NUMBER, S_IFDIR, some (g.store 0)⟩ := by
  rw [M.inodes] at h
  by_cases hp : p = rootAddr
  · subst hp
    rw [Function.update_self] at h
    exact ⟨rfl, (Option.some.inj h).symm⟩
  · rw [Function.update_of_ne hp] at h
    simp at h

theorem root_bound [Target] (H : StoreInv g) :
    Bound s.toImage ⟨SIMPLEFS_ROOTDIR_INODE_NUMBER, S_IFDIR, some (g.store 0)⟩ 0 := by
  have hdir := H.root_dir
  rw [M.image]
  refine ⟨H.live_root, rfl, H.root_no.symm, ?_, ?_⟩
  · rw [hdir]
    show S_ISDIR S_IFDIR = true
    decide
  · have : S_ISREG (g.store 0).mode = false := by
      by_contra h
      rw [Bool.not_eq_false] at h
      rw [not_dir_of_reg h] at hdir
      simp at hdir
    rw [this]
    show S_ISREG S_IFDIR = false
    decide

/-- **A mounted image satisfies the invariant.** -/
theorem inv [Target] (H : StoreInv g) : FsInv s where
  toStoreInv := by rw [M.image]; exact H
  root_at := ⟨_, by rw [M.inodes, Function.update_self], M.root_bound H⟩
  inode p v hv := by
    obtain ⟨-, rfl⟩ := M.inode hv
    exact ⟨0, Or.inl (M.root_bound H)⟩
  at_inj p q k hp hq := by
    obtain ⟨v, hv, -⟩ := hp
    obtain ⟨w, hw, -⟩ := hq
    rw [(M.inode hv).1, (M.inode hw).1]
  dentry d x p h := by
    rw [M.dcache] at h
    simp at h
  hashed p k hp hroot := by
    obtain ⟨v, hv, -⟩ := hp
    exact absurd (M.inode hv).1 hroot

end Mounted

theorem mount_spec [Target] {g : Image} (H : StoreInv g) :
    ∃ s, fillSuper g = .ok s ∧ Mounted g s := by
  have hget : getInode g SIMPLEFS_ROOTDIR_INODE_NUMBER = some (g.store 0) := by
    rw [← H.root_no]
    exact H.getInode_live H.live_root
  refine ⟨{ g with
    inodes := Function.update (fun _ => none) rootAddr
      (some ⟨SIMPLEFS_ROOTDIR_INODE_NUMBER, S_IFDIR, some (g.store 0)⟩)
    dcache := fun _ _ => none }, ?_, rfl, rfl, rfl⟩
  rw [fillSuper, if_neg (not_not.2 H.magic), if_neg (not_not.2 H.blockSize), hget]

theorem fillSuper_image {g : Image} {s : Fs} (h : fillSuper g = .ok s) : s.toImage = g := by
  unfold fillSuper at h
  split_ifs at h
  cases h
  rfl

/-! ## A blank device -/

/-- A device of zeros. -/
def blankDisk : Image := ⟨⟨0, 0, 0, 0, 0⟩, fun _ => default, fun _ _ => 0⟩

/-- The state after `mkfs-simplefs` and a mount of it. -/
def blankFs : Fs :=
  { mkfs blankDisk 0 with
    inodes := Function.update (fun _ => none) rootAddr
      (some ⟨SIMPLEFS_ROOTDIR_INODE_NUMBER, S_IFDIR, some ((mkfs blankDisk 0).store 0)⟩)
    dcache := fun _ _ => none }

theorem blankFs_mount : fillSuper (mkfs blankDisk 0) = .ok blankFs := rfl

/-- `"a"` -/
def nameA : Name := ⟨[97], by decide, by decide, by decide⟩

end Simplefs
