/-
  simplefs — reads at a position.

  `simplefs_read` copies from the first byte of the data block, whatever the
  position is, and clamps the length to the file size, not to what is left of the
  file.  `read_iff`: the reads that deliver the bytes at the position, and the
  sequences of reads that deliver the file.
-/
import KernelLinux.Simplefs.Exec
import KernelLinux.Simplefs.Mount

namespace Simplefs

open Bytes Prog

/-- The content of the file at address `p`. -/
def fileBytes (s : Fs) (p : ℕ) : List UInt8 :=
  (s.data (s.sfs p).dataBlockNumber).read 0 (s.sfs p).fileSize

/-- The read delivers the bytes of the file at the position, and moves it behind them. -/
def ReadsAt (s : Fs) (p pos len room : ℕ) : Prop :=
  ((read p pos len room).exec s).1 =
    .ok (((fileBytes s p).drop pos).take len, pos + min len ((s.sfs p).fileSize - pos))

/-- The bytes of `c` from `pos` on are those that the read copies: it starts at the first byte, or
    behind the file, or what is asked for lies inside the file and is the same at both places. -/
def SameBytes (c : List UInt8) (pos len : ℕ) : Prop :=
  pos = 0 ∨ c.length ≤ pos ∨ len ≤ c.length - pos ∧ c.take len = (c.drop pos).take len

instance (c : List UInt8) (pos len : ℕ) : Decidable (SameBytes c pos len) :=
  inferInstanceAs (Decidable (_ ∨ _))

/-- Reads of the lengths `ns` one after the other, up to the end of the file. -/
def readChunks (s : Fs) (p : ℕ) : ℕ → List ℕ → List UInt8
  | _, [] => []
  | pos, n :: ns =>
    match ((read p pos n n).exec s).1 with
    | .ok ([], _) => []
    | .ok (bs, pos') => bs ++ readChunks s p pos' ns
    | .error _ => []

/-- `SameBytes` for reads of the lengths `ns`, from `pos` on. -/
def SameChunks (c : List UInt8) : ℕ → List ℕ → Prop
  | _, [] => True
  | pos, n :: ns => SameBytes c pos n ∧ SameChunks c (pos + n) ns

/-! ## One read -/

section
variable {s : Fs} {p pos len room : ℕ}

@[simp] theorem length_fileBytes : (fileBytes s p).length = (s.sfs p).fileSize := by simp [fileBytes]

/-- What a read does: the first bytes of the file are copied. -/
theorem read_first (hroom : len ≤ room) : ((read p pos len room).exec s).1 =
    if (s.sfs p).fileSize ≤ pos then .ok ([], pos)
    else .ok ((fileBytes s p).take len, pos + min (s.sfs p).fileSize len) := by
  have htake : (s.data (s.sfs p).dataBlockNumber).read 0 (min (s.sfs p).fileSize len) =
      (fileBytes s p).take len := by
    rw [fileBytes, Block.take_read, Nat.min_comm]
  simp only [read, exec_reads, htake]
  split_ifs with hend hfault
  · rfl
  · omega
  · rfl

theorem sameBytes_of_end (h : (s.sfs p).fileSize ≤ pos) : SameBytes (fileBytes s p) pos len :=
  Or.inr (Or.inl (by rwa [length_fileBytes]))

/-- Where the bytes are the same, the read is the one at the position. -/
theorem SameBytes.take_eq {c : List UInt8} (h : SameBytes c pos len) (hpos : pos < c.length) :
    c.take len = (c.drop pos).take len := by
  rcases h with rfl | hend | ⟨-, heq⟩
  · rw [List.drop_zero]
  · omega
  · exact heq

theorem SameBytes.min_eq {c : List UInt8} (h : SameBytes c pos len) (hpos : pos < c.length) :
    min c.length len = min len (c.length - pos) := by
  rcases h with rfl | hend | ⟨hle, -⟩ <;> omega

/-- The lengths agree only if the read stays inside the file. -/
theorem sameBytes_of_take_eq {c : List UInt8} (hpos : pos < c.length)
    (h : c.take len = (c.drop pos).take len) : SameBytes c pos len := by
  have hlen := congrArg List.length h
  rw [List.length_take, List.length_take, List.length_drop] at hlen
  rcases Nat.eq_zero_or_pos pos with h0 | h0
  · exact Or.inl h0
  · exact Or.inr (Or.inr ⟨by omega, h⟩)

/-- **One read.** -/
theorem readsAt_iff (hroom : len ≤ room) :
    ReadsAt s p pos len room ↔ SameBytes (fileBytes s p) pos len := by
  rw [ReadsAt, read_first hroom]
  split_ifs with hend
  · refine iff_of_true ?_ (sameBytes_of_end hend)
    rw [List.drop_eq_nil_of_le (by rwa [length_fileBytes]), List.take_nil]
    simp [Nat.sub_eq_zero_of_le hend]
  · have hpos : pos < (fileBytes s p).length := by rwa [length_fileBytes, ← Nat.not_le]
    constructor
    · intro h
      exact sameBytes_of_take_eq hpos (congrArg Prod.fst (Except.ok.inj h))
    · intro h
      have hmin := h.min_eq hpos
      rw [length_fileBytes] at hmin
      rw [h.take_eq hpos, hmin]

/-! ## Reads one after the other -/

theorem sameChunks_of_end {ns : List ℕ} {c : List UInt8} (h : c.length ≤ pos) : SameChunks c pos ns := by
  induction ns generalizing pos with
  | nil => trivial
  | cons n ns ih => exact ⟨Or.inr (Or.inl h), ih (by omega)⟩

theorem readChunks_end {ns : List ℕ} (h : (s.sfs p).fileSize ≤ pos) : readChunks s p pos ns = [] := by
  cases ns with
  | nil => rfl
  | cons n ns => rw [readChunks, read_first le_rfl, if_pos h]

theorem readChunks_cons {n : ℕ} {ns : List ℕ} (hn : 0 < n) (h : pos < (s.sfs p).fileSize) :
    readChunks s p pos (n :: ns) = (fileBytes s p).take n ++
      readChunks s p (pos + min (s.sfs p).fileSize n) ns := by
  rw [readChunks, read_first le_rfl, if_neg (Nat.not_le.2 h)]
  cases htake : (fileBytes s p).take n with
  | nil =>
    have hlen := congrArg List.length htake
    rw [List.length_take, length_fileBytes, List.length_nil] at hlen
    omega
  | cons => rfl

/-- The first bytes tell whether the read was the one at the position. -/
theorem sameBytes_of_append {c l : List UInt8} {n m : ℕ} (hpos : pos < c.length)
    (h : c.take n ++ l = (c.drop pos).take (n + m)) : SameBytes c pos n := by
  have hfirst := congrArg (List.take (min n c.length)) h
  rw [List.take_left' (by rw [List.length_take]), List.take_take,
    Nat.min_eq_left (by omega : min n c.length ≤ n + m), List.take_eq_take_min] at hfirst
  rcases sameBytes_of_take_eq hpos hfirst with h0 | hend | ⟨hle, heq⟩
  · exact Or.inl h0
  · exact Or.inr (Or.inl hend)
  · rcases Nat.eq_zero_or_pos pos with h0 | h0
    · exact Or.inl h0
    · rw [Nat.min_eq_left (by omega)] at hle heq
      exact Or.inr (Or.inr ⟨hle, heq⟩)

/-- **Reads one after the other**: by induction on them; a wrong one shows in what was read. -/
theorem readChunks_iff {ns : List ℕ} (hns : ∀ n ∈ ns, 0 < n) (pos : ℕ) :
    readChunks s p pos ns = ((fileBytes s p).drop pos).take ns.sum ↔
      SameChunks (fileBytes s p) pos ns := by
  induction ns generalizing pos with
  | nil => simp [readChunks, SameChunks]
  | cons n ns ih =>
    obtain ⟨hn, hns⟩ := List.forall_mem_cons.1 hns
    have hlen := @length_fileBytes s p
    rcases Nat.lt_or_ge pos (s.sfs p).fileSize with hpos | hend
    · rw [readChunks_cons hn hpos, List.sum_cons, SameChunks]
      rw [← hlen] at hpos
      by_cases hsame : SameBytes (fileBytes s p) pos n
      · rw [List.take_add, ← hsame.take_eq hpos, List.append_cancel_left_eq, List.drop_drop,
          ← hlen, hsame.min_eq hpos, and_iff_right hsame]
        rcases Nat.le_total n ((fileBytes s p).length - pos) with hle | hge
        · rw [Nat.min_eq_left hle]
          exact ih hns (pos + n)
        · refine iff_of_true ?_ (sameChunks_of_end (by omega))
          rw [readChunks_end (by omega), List.drop_eq_nil_of_le (by omega), List.take_nil]
      · exact iff_of_false (fun h => hsame (sameBytes_of_append hpos h)) fun h => hsame h.1
    · refine iff_of_true ?_ (sameChunks_of_end (by rwa [hlen]))
      rw [readChunks_end hend, List.drop_eq_nil_of_le (by rwa [hlen]), List.take_nil]

end

/-- **Which reads are right**: those of which the bytes are the same at the position and at the
    beginning of the file; and a file is read to its end by reads that are all right. -/
theorem read_iff (s : Fs) (p : ℕ) :
    (∀ pos len room, len ≤ room → (ReadsAt s p pos len room ↔ SameBytes (fileBytes s p) pos len)) ∧
      ∀ ns, (∀ n ∈ ns, 0 < n) → (s.sfs p).fileSize ≤ ns.sum →
        (readChunks s p 0 ns = fileBytes s p ↔ SameChunks (fileBytes s p) 0 ns) := by
  refine ⟨fun pos len room hroom => readsAt_iff hroom, fun ns hns hsum => ?_⟩
  rw [← readChunks_iff hns, List.drop_zero, List.take_of_length_le (by rwa [length_fileBytes])]

/-- A new file system, with the inode of `vanakkam` at address 1. -/
def vanakkamFs : Fs :=
  { blankFs with
    inodes := Function.update blankFs.inodes 1 (some ⟨2, S_IFREG, some ((mkfs blankDisk 0).store 1)⟩) }

theorem read_iff_vanakkam :
    (ReadsAt vanakkamFs 1 0 5 5 ↔ SameBytes (fileBytes vanakkamFs 1) 0 5) ∧
      (readChunks vanakkamFs 1 0 [40, 1] = fileBytes vanakkamFs 1 ↔
        SameChunks (fileBytes vanakkamFs 1) 0 [40, 1]) :=
  ⟨(read_iff vanakkamFs 1).1 0 5 5 le_rfl, (read_iff vanakkamFs 1).2 [40, 1] (by decide) (by decide)⟩

/-- A read of the second byte delivers the first one. -/
theorem not_readsAt_second : ¬ ReadsAt vanakkamFs 1 1 1 1 := by
  rw [readsAt_iff le_rfl]
  decide +kernel

end Simplefs
