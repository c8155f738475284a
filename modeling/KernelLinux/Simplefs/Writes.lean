/-
  simplefs — writes at a position.

  `simplefs_write` stores its bytes at the position and then sets the size of the file to
  the position behind them, also where the file goes on.  `write_iff`: a write keeps the
  rest of the file exactly if it reaches the end of it, and two writes inside the file
  never give the same content in either order.
-/
import KernelLinux.Simplefs.Reads

namespace Simplefs

open Bytes Prog

/-- The inode at address `p` has its private inode. -/
def Opened (s : Fs) (p : ℕ) : Prop := ∃ v z, s.inodes p = some v ∧ v.priv = some z

/-- The write of all of `d` at `o` succeeds. -/
def WriteOk (s : Fs) (p o : ℕ) (d : List UInt8) : Prop :=
  ((write (.ok (o, d.length)) p d).exec s).1 = .ok d.length

/-- The state after the write. -/
def afterWrite (s : Fs) (p o : ℕ) (d : List UInt8) : Fs := ((write (.ok (o, d.length)) p d).exec s).2

/-- The bytes `c` with those from `o` on replaced by `d`, or extended. -/
def overwritten (c : List UInt8) (o : ℕ) (d : List UInt8) : List UInt8 :=
  c.take o ++ d ++ c.drop (o + d.length)

/-- Two ranges of bytes without a common one. -/
def Apart (o n o' n' : ℕ) : Prop := o + n ≤ o' ∨ o' + n' ≤ o

section
variable {s : Fs} {p o : ℕ} {d : List UInt8}

/-- The state of a write before the private inode is saved to its slot. -/
theorem afterWrite_eq : afterWrite s p o d =
    saveSlot p ((s.setBlock (s.sfs p).dataBlockNumber fun b => b.write o d).setSfs p
      fun z => { z with size := o + d.length }) := by
  have hall : copyFromUser d d.length = d := by simp [copyFromUser]
  rw [afterWrite, exec_write]
  dsimp only
  rw [if_neg (Nat.lt_irrefl _), hall]

theorem afterWrite_sfs (hp : Opened s p) :
    (afterWrite s p o d).sfs p = { s.sfs p with size := o + d.length } := by
  obtain ⟨v, z, hv, hz⟩ := hp
  rw [afterWrite_eq, Fs.sfs, saveSlot_inodes, Fs.sfs_eq hv hz]
  exact Fs.setSfs_sfs (s := s.setBlock _ _) _ hv hz

theorem afterWrite_data :
    (afterWrite s p o d).data (s.sfs p).dataBlockNumber =
      (s.data (s.sfs p).dataBlockNumber).write o d := by
  rw [afterWrite_eq, saveSlot_data]
  exact Function.update_self _ _ _

theorem Opened.afterWrite (hp : Opened s p) : Opened (afterWrite s p o d) p := by
  obtain ⟨v, z, hv, hz⟩ := hp
  rw [afterWrite_eq]
  let z' : SimplefsInode := { z with size := o + d.length }
  refine ⟨{ v with priv := some z' }, z', ?_, rfl⟩
  rw [saveSlot_inodes, Fs.setSfs_inodes _ (s := s.setBlock _ _) hv hz, Function.update_self]

/-- What a write leaves: the block up to the position, and the bytes written. -/
theorem fileBytes_afterWrite (hp : Opened s p) : fileBytes (afterWrite s p o d) p =
    (s.data (s.sfs p).dataBlockNumber).read 0 o ++ d := by
  rw [fileBytes, afterWrite_sfs hp]
  dsimp only
  rw [afterWrite_data]
  exact Block.read_write_end _ o d

/-- The content after a write inside the file or at its end. -/
theorem fileBytes_afterWrite_take (hp : Opened s p) (ho : o ≤ (fileBytes s p).length) :
    fileBytes (afterWrite s p o d) p = (fileBytes s p).take o ++ d := by
  rw [length_fileBytes] at ho
  rw [fileBytes_afterWrite hp, fileBytes, Block.take_read, Nat.min_eq_left ho]

theorem length_afterWrite (hp : Opened s p) :
    (fileBytes (afterWrite s p o d) p).length = o + d.length := by
  rw [length_fileBytes, afterWrite_sfs hp]
  rfl

end

/-- **Which writes keep the rest of the file**: those that reach its end; and two writes inside the
    file, to places without a common byte, leave it with the end of the one that came last. -/
theorem write_iff {s : Fs} {p : ℕ} (hp : Opened s p) :
    (∀ o d, d ≠ [] → o ≤ (fileBytes s p).length →
      o + d.length ≤ SIMPLEFS_DEFAULT_BLOCK_SIZE → WriteOk s p o d →
      (fileBytes (afterWrite s p o d) p = overwritten (fileBytes s p) o d ↔
        (fileBytes s p).length ≤ o + d.length)) ∧
    ∀ o d o' d', d ≠ [] → d' ≠ [] → o + d.length ≤ (fileBytes s p).length →
      o' + d'.length ≤ (fileBytes s p).length → Apart o d.length o' d'.length →
      WriteOk s p o d → WriteOk (afterWrite s p o d) p o' d' → WriteOk s p o' d' →
      WriteOk (afterWrite s p o' d') p o d →
      fileBytes (afterWrite (afterWrite s p o d) p o' d') p ≠
        fileBytes (afterWrite (afterWrite s p o' d') p o d) p := by
  constructor
  · intro o d _ ho _ _
    rw [fileBytes_afterWrite_take hp ho, overwritten, List.self_eq_append_right, List.drop_eq_nil_iff]
  · intro o d o' d' hd hd' _ _ hdisj _ _ _ _ h
    have hpos := List.length_pos_iff.2 hd
    have hpos' := List.length_pos_iff.2 hd'
    have hlen := congrArg List.length h
    rw [length_afterWrite hp.afterWrite, length_afterWrite hp.afterWrite] at hlen
    rcases hdisj with hle | hle <;> omega

theorem vanakkamFs_opened : Opened vanakkamFs 1 := ⟨_, _, rfl, rfl⟩

/-- `write_iff` for the file `vanakkam`: a byte is appended, and its first two bytes are written in
    either order. -/
theorem write_iff_vanakkam :
    (fileBytes (afterWrite vanakkamFs 1 41 [33]) 1 = overwritten (fileBytes vanakkamFs 1) 41 [33] ↔
      (fileBytes vanakkamFs 1).length ≤ 42) ∧
    fileBytes (afterWrite (afterWrite vanakkamFs 1 0 [97]) 1 1 [98]) 1 ≠
      fileBytes (afterWrite (afterWrite vanakkamFs 1 1 [98]) 1 0 [97]) 1 := by
  obtain ⟨hkeep, hcomm⟩ := write_iff vanakkamFs_opened
  exact ⟨hkeep 41 [33] (by decide) (by decide) (by decide) rfl,
    hcomm 0 [97] 1 [98] (by decide) (by decide) (by decide) (by decide) (Or.inl le_rfl) rfl rfl rfl rfl⟩

/-- A write of the first byte cuts the file behind it. -/
theorem vanakkam_cut : WriteOk vanakkamFs 1 0 [97] ∧
    fileBytes (afterWrite vanakkamFs 1 0 [97]) 1 = [97] ∧ (fileBytes vanakkamFs 1).length = 41 := by
  refine ⟨rfl, ?_, rfl⟩
  rw [fileBytes_afterWrite_take vanakkamFs_opened (Nat.zero_le _)]
  rfl

end Simplefs
