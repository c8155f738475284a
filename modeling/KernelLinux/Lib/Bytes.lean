/-
  Byte memory: blocks addressed by offset, copies into and out of them,
  little-endian integers and C strings stored in them.

  A block is a total map from offsets to bytes.  Offsets past its nominal size
  stand for whatever lies behind it, so a copy that runs over the end is
  represented and not silently cut off.

  * `Block.write`/`Block.read` are `memcpy` into and out of a block;
  * `Block.putLE`/`Block.getLE` store and load an unsigned integer of `w` bytes;
  * `Block.strcpy`/`Block.streq` are `strcpy` and `!strcmp` against a string
    without NUL.
-/
import Mathlib.Data.List.Basic
import Mathlib.Data.Nat.Basic
import Mathlib.Tactic.Ring

namespace Bytes

/-- A block of memory. -/
abbrev Block := ℕ → UInt8

namespace Block

/-- `memcpy(b + o, bs, n)`. -/
def write (b : Block) (o : ℕ) (bs : List UInt8) : Block :=
  fun a => if a < o then b a else (bs[a - o]?).getD (b a)

/-- The `n` bytes at offset `o`. -/
def read (b : Block) (o n : ℕ) : List UInt8 := (List.range n).map fun i => b (o + i)

@[simp] theorem length_read (b : Block) (o n : ℕ) : (b.read o n).length = n := by simp [read]

@[simp] theorem read_zero (b : Block) (o : ℕ) : b.read o 0 = [] := rfl

@[simp] theorem write_nil (b : Block) (o : ℕ) : b.write o [] = b := by
  funext a; simp [write]

theorem write_before {b : Block} {o a : ℕ} {bs : List UInt8} (h : a < o) : b.write o bs a = b a := by
  simp [write, h]

theorem write_after {b : Block} {o a : ℕ} {bs : List UInt8} (h : o + bs.length ≤ a) :
    b.write o bs a = b a := by
  have : bs[a - o]? = none := List.getElem?_eq_none (by omega)
  simp [write, this]

/-- A write changes nothing outside the range it covers. -/
theorem write_outside {b : Block} {o a : ℕ} {bs : List UInt8} (h : a < o ∨ o + bs.length ≤ a) :
    b.write o bs a = b a := h.elim write_before write_after

theorem write_inside {b : Block} {o i : ℕ} {bs : List UInt8} (h : i < bs.length) :
    b.write o bs (o + i) = bs[i] := by
  simp [write, List.getElem?_eq_getElem h]

theorem write_one (b : Block) (o : ℕ) (v : UInt8) : b.write o [v] o = v := by simp [write]

theorem getElem?_read (b : Block) (o n i : ℕ) :
    (b.read o n)[i]? = if i < n then some (b (o + i)) else none := by
  simp only [read, List.getElem?_map]
  split_ifs with h
  · rw [List.getElem?_range h]; rfl
  · rw [List.getElem?_eq_none (by simpa using h)]; rfl

theorem read_congr {b c : Block} {o n : ℕ} (h : ∀ i < n, b (o + i) = c (o + i)) :
    b.read o n = c.read o n := by
  simp only [read]
  exact List.map_congr_left fun i hi => h i (List.mem_range.1 hi)

/-- What was written is read back. -/
@[simp] theorem read_write (b : Block) (o : ℕ) (bs : List UInt8) :
    (b.write o bs).read o bs.length = bs := by
  refine List.ext_getElem (by simp) fun i h₁ h₂ => ?_
  simp only [read, List.getElem_map, List.getElem_range]
  exact write_inside h₂

/-- A read disjoint from a write does not see it. -/
theorem read_write_disjoint {b : Block} {o o' n : ℕ} {bs : List UInt8}
    (h : o' + n ≤ o ∨ o + bs.length ≤ o') : (b.write o bs).read o' n = b.read o' n :=
  read_congr fun i hi => write_outside (by omega)

/-- A read inside of what was copied sees the source. -/
theorem read_write_copy {b c : Block} {o o' n d w : ℕ} (h : d + w ≤ n) :
    (b.write o (c.read o' n)).read (o + d) w = c.read (o' + d) w := by
  simp only [read]
  refine List.map_congr_left fun i hi => ?_
  have hlt : d + i < ((List.range n).map fun j => c (o' + j)).length := by
    have := List.mem_range.1 hi
    simp only [List.length_map, List.length_range]
    omega
  rw [Nat.add_assoc, write_inside hlt, List.getElem_map, List.getElem_range, Nat.add_assoc]

/-- Reading `n + m` bytes is reading `n` bytes and then `m` more. -/
theorem read_add (b : Block) (o n m : ℕ) : b.read o (n + m) = b.read o n ++ b.read (o + n) m := by
  simp only [read, List.range_add, List.map_append, List.map_map]
  congr 1
  exact List.map_congr_left fun i _ => by simp [Nat.add_assoc]

theorem take_read (b : Block) (o n m : ℕ) : (b.read o n).take m = b.read o (min m n) := by
  simp only [read, ← List.map_take, List.take_range]

theorem drop_read (b : Block) (o n m : ℕ) : (b.read o n).drop m = b.read (o + m) (n - m) := by
  refine List.ext_getElem (by simp) fun i _ _ => ?_
  simp [read, Nat.add_assoc]

/-- A write at `o`, read from an earlier offset up to its end, is what was there followed by
    what was written. -/
theorem read_write_end (b : Block) (o : ℕ) (bs : List UInt8) :
    (b.write o bs).read 0 (o + bs.length) = b.read 0 o ++ bs := by
  rw [read_add, Nat.zero_add, read_write, read_write_disjoint (Or.inl (by omega))]

end Block

namespace Block

/-- A byte-wise copy of `n` bytes from offset `src` to offset `dst`, in ascending order. -/
def copyAsc (b : Block) (dst src : ℕ) : ℕ → Block
  | 0 => b
  | n + 1 => (b.copyAsc dst src n).write (dst + n) [b.copyAsc dst src n (src + n)]

theorem copyAsc_outside {b : Block} {dst src n a : ℕ} (h : a < dst ∨ dst + n ≤ a) :
    b.copyAsc dst src n a = b a := by
  induction n with
  | zero => rfl
  | succ n ih =>
    rw [copyAsc, write_outside (by simp only [List.length_singleton]; omega), ih (by omega)]

/-- An ascending copy to a lower offset moves the bytes, even where the ranges overlap. -/
theorem copyAsc_inside {b : Block} {dst src n i : ℕ} (h : dst ≤ src) (hi : i < n) :
    b.copyAsc dst src n (dst + i) = b (src + i) := by
  induction n with
  | zero => omega
  | succ n ih =>
    rw [copyAsc]
    by_cases hin : i = n
    · subst hin
      rw [write_one, copyAsc_outside (by omega)]
    · rw [write_outside (by simp only [List.length_singleton]; omega), ih (by omega)]

theorem read_copyAsc {b : Block} {dst src n : ℕ} (h : dst ≤ src) :
    (b.copyAsc dst src n).read dst n = b.read src n :=
  List.map_congr_left fun _ hi => copyAsc_inside h (List.mem_range.1 hi)

end Block

/-! ## User memory -/

/-- `copy_from_user` of `len` bytes when only the bytes `user` are accessible: what arrives, the
    rest being zeroed. -/
def copyFromUser (user : List UInt8) (len : ℕ) : List UInt8 :=
  user.take len ++ List.replicate (len - user.length) 0

theorem length_copyFromUser (user : List UInt8) (len : ℕ) : (copyFromUser user len).length = len := by
  simp [copyFromUser]
  omega

theorem copyFromUser_of_le {user : List UInt8} {len : ℕ} (h : len ≤ user.length) :
    copyFromUser user len = user.take len := by
  simp [copyFromUser, Nat.sub_eq_zero_of_le h]

/-! ## Little-endian integers -/

/-- The `w` bytes of `v`, least significant first; higher bytes of `v` are dropped. -/
def leBytes : ℕ → ℕ → List UInt8
  | 0, _ => []
  | w + 1, v => UInt8.ofNat v :: leBytes w (v / 256)

/-- The integer stored in a list of bytes. -/
def leNat : List UInt8 → ℕ
  | [] => 0
  | c :: cs => c.toNat + 256 * leNat cs

@[simp] theorem length_leBytes : ∀ w v : ℕ, (leBytes w v).length = w
  | 0, _ => rfl
  | w + 1, v => by simp [leBytes, length_leBytes w]

/-- Storing and loading an integer reduces it modulo the width. -/
theorem leNat_leBytes : ∀ w v : ℕ, leNat (leBytes w v) = v % 256 ^ w
  | 0, v => by simp [leBytes, leNat, Nat.mod_one]
  | w + 1, v => by
    rw [leBytes, leNat, leNat_leBytes w, UInt8.toNat_ofNat', pow_succ' 256 w, Nat.mod_mul]

/-- The bytes of the integer stored in a list of bytes. -/
theorem leBytes_leNat : ∀ l : List UInt8, leBytes l.length (leNat l) = l
  | [] => rfl
  | c :: cs => by
    have hc := c.toNat_lt
    have hlow : UInt8.ofNat (c.toNat + 256 * leNat cs) = c := by
      rw [← UInt8.toNat_inj, UInt8.toNat_ofNat']
      omega
    have hhigh : (c.toNat + 256 * leNat cs) / 256 = leNat cs := by omega
    rw [List.length_cons, leBytes, leNat, hlow, hhigh, leBytes_leNat cs]

namespace Block

/-- Load an unsigned integer of `w` bytes. -/
def getLE (b : Block) (w o : ℕ) : ℕ := leNat (b.read o w)

/-- Store an unsigned integer of `w` bytes. -/
def putLE (b : Block) (w o v : ℕ) : Block := b.write o (leBytes w v)

theorem getLE_lt (b : Block) (w o : ℕ) : b.getLE w o < 256 ^ w := by
  have hbytes := leBytes_leNat (b.read o w)
  rw [length_read] at hbytes
  rw [getLE, ← hbytes, leNat_leBytes]
  exact Nat.mod_lt _ (Nat.pow_pos (by norm_num))

theorem getLE_putLE {b : Block} {w o v : ℕ} (h : v < 256 ^ w) : (b.putLE w o v).getLE w o = v := by
  have := read_write b o (leBytes w v)
  rw [length_leBytes] at this
  rw [getLE, putLE, this, leNat_leBytes, Nat.mod_eq_of_lt h]

theorem getLE_write_disjoint {b : Block} {w o o' : ℕ} {bs : List UInt8}
    (h : o' + w ≤ o ∨ o + bs.length ≤ o') : (b.write o bs).getLE w o' = b.getLE w o' := by
  rw [getLE, getLE, read_write_disjoint h]

theorem getLE_write_copy {b c : Block} {o o' n d w : ℕ} (h : d + w ≤ n) :
    (b.write o (c.read o' n)).getLE w (o + d) = c.getLE w (o' + d) := by
  rw [getLE, getLE, read_write_copy h]

theorem getLE_putLE_disjoint {b : Block} {w w' o o' v : ℕ} (h : o' + w' ≤ o ∨ o + w ≤ o') :
    (b.putLE w o v).getLE w' o' = b.getLE w' o' :=
  getLE_write_disjoint (by simpa using h)

theorem putLE_outside {b : Block} {w o a v : ℕ} (h : a < o ∨ o + w ≤ a) :
    b.putLE w o v a = b a := write_outside (by simpa using h)

/-- The first byte of an integer is its least significant one. -/
theorem putLE_first (b : Block) (w o v : ℕ) : b.putLE (w + 1) o v o = UInt8.ofNat v := by
  simp [putLE, write, leBytes]

/-! ## C strings -/

/-- `strcpy(b + o, s)`, with the terminating NUL. -/
def strcpy (b : Block) (o : ℕ) (s : List UInt8) : Block := b.write o (s ++ [0])

/-- `!strcmp(b + o, s)` for a string `s` without NUL. -/
def streq (b : Block) (o : ℕ) : List UInt8 → Bool
  | [] => b o == 0
  | c :: s => b o == c && streq b (o + 1) s

theorem streq_iff {b : Block} : ∀ {s : List UInt8} {o : ℕ},
    b.streq o s = true ↔ b.read o (s.length + 1) = s ++ [0]
  | [], o => by simp [streq, read, List.range_succ]
  | c :: s, o => by
    have h := read_add b o 1 (s.length + 1)
    rw [streq, Bool.and_eq_true, streq_iff (s := s), beq_iff_eq, List.length_cons,
      show s.length + 1 + 1 = 1 + (s.length + 1) by omega, h]
    simp [read, List.range_succ]

/-- Two strings compared equal at the same place are the same string. -/
theorem streq_unique {b : Block} : ∀ {s t : List UInt8} {o : ℕ}, (0 : UInt8) ∉ s → (0 : UInt8) ∉ t →
    b.streq o s = true → b.streq o t = true → s = t
  | [], [], _, _, _, _, _ => rfl
  | [], c :: t, o, _, ht, h₁, h₂ => by
    simp only [streq, Bool.and_eq_true, beq_iff_eq] at h₁ h₂
    exact absurd (by rw [← h₁, h₂.1]; simp) ht
  | c :: s, [], o, hs, _, h₁, h₂ => by
    simp only [streq, Bool.and_eq_true, beq_iff_eq] at h₁ h₂
    exact absurd (by rw [← h₂, h₁.1]; simp) hs
  | c :: s, d :: t, o, hs, ht, h₁, h₂ => by
    simp only [streq, Bool.and_eq_true, beq_iff_eq] at h₁ h₂
    have hst := streq_unique (List.not_mem_of_not_mem_cons hs) (List.not_mem_of_not_mem_cons ht)
      h₁.2 h₂.2
    rw [hst, ← h₁.1, ← h₂.1]

theorem streq_strcpy (b : Block) (o : ℕ) (s : List UInt8) : (b.strcpy o s).streq o s = true := by
  rw [streq_iff]
  have := read_write b o (s ++ [0])
  rwa [List.length_append] at this

theorem streq_congr {b c : Block} {o : ℕ} {s : List UInt8}
    (h : ∀ i < s.length + 1, b (o + i) = c (o + i)) : b.streq o s = c.streq o s := by
  rw [Bool.eq_iff_iff, streq_iff, streq_iff, read_congr h]

end Block

end Bytes
