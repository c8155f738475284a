/-
  A flat array of bytes.

  `Flat n` is an array of `n` bytes: a transfer that lies inside it reads or stores
  consecutive bytes, any other transfers nothing.  Memory that is used as an array
  is one (`Block.flat`), as long as the transfers stay inside.
-/
import KernelLinux.Lib.Bytes

namespace Bytes

/-- An array of `n` bytes. -/
structure Flat (n : ℕ) where
  bytes : List UInt8
  length_bytes : bytes.length = n

namespace Flat
variable {n : ℕ}

@[ext] theorem ext {d d' : Flat n} (h : d.bytes = d'.bytes) : d = d' := by
  cases d
  cases d'
  cases h
  rfl

/-- The `k` bytes from `o` on, if they lie inside. -/
def read (d : Flat n) (o k : ℕ) : Option (List UInt8) :=
  if o + k ≤ n then some ((d.bytes.drop o).take k) else none

/-- `bs` at `o`, if it lies inside. -/
def write (d : Flat n) (o : ℕ) (bs : List UInt8) : Flat n :=
  if h : o + bs.length ≤ n then
    ⟨d.bytes.take o ++ bs ++ d.bytes.drop (o + bs.length), by
      have := d.length_bytes
      simp only [List.length_append, List.length_take, List.length_drop]
      omega⟩
  else d

theorem read_outside (d : Flat n) {o k : ℕ} (h : ¬ o + k ≤ n) : d.read o k = none := if_neg h

@[simp] theorem write_nil (d : Flat n) (o : ℕ) : d.write o [] = d := by
  apply ext
  rw [write]
  split_ifs <;> simp

theorem write_outside (d : Flat n) {o : ℕ} {bs : List UInt8} (h : ¬ o + bs.length ≤ n) :
    d.write o bs = d := dif_neg h

end Flat

/-- The first `n` bytes of `b`. -/
def Block.flat (n : ℕ) (b : Block) : Flat n := ⟨b.read 0 n, b.length_read 0 n⟩

section
variable {n o : ℕ} (b : Block)

/-- All bytes are stored. -/
theorem flat_all {bs : List UInt8} (h : bs.length = n) : (b.write 0 bs).flat n = ⟨bs, h⟩ := by
  subst h
  exact Flat.ext (b.read_write 0 bs)

theorem flat_read {k : ℕ} (h : o + k ≤ n) : (b.flat n).read o k = some (b.read o k) := by
  rw [Flat.read, if_pos h, Block.flat, Block.drop_read, Block.take_read, Nat.zero_add,
    Nat.min_eq_left (by omega)]

theorem flat_write {bs : List UInt8} (h : o + bs.length ≤ n) :
    (b.write o bs).flat n = (b.flat n).write o bs := by
  obtain ⟨r, rfl⟩ := Nat.exists_eq_add_of_le h
  apply Flat.ext
  rw [Flat.write, dif_pos h]
  have hbefore : (b.write o bs).read 0 o = b.read 0 o :=
    Block.read_write_disjoint (Or.inl (by omega))
  have hafter : (b.write o bs).read (o + bs.length) r = b.read (o + bs.length) r :=
    Block.read_write_disjoint (Or.inr le_rfl)
  simp only [Block.flat, Block.read_add, Nat.zero_add, hbefore, Block.read_write, hafter]
  simp [List.drop_append]

end

end Bytes
