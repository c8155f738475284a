/-
  globalmem — the device of `ch7/globalmem.c` and the files that are open on it.

  A cursor is a `loff_t`, the position of a transfer an `unsigned long` of `w` bits
  and its count an `unsigned int`.  `Files.Step` is an array of `GLOBALMEM_SIZE`
  bytes with one cursor for each file; `globalmem_array`: every run of calls is one
  of it.
-/
import KernelLinux.Lib.Flat
import KernelLinux.Lib.Run
import Mathlib.Logic.Function.Basic

namespace Globalmem

open Bytes

def GLOBALMEM_SIZE : ℕ := 0x1000
def MEM_CLEAR : ℕ := 0x1

/-- Error codes, returned negated in C. -/
inductive Errno where
  | efault | einval
  deriving DecidableEq

/-- A call and its arguments.  Of the user buffer, `room` bytes can be written, or the bytes `buf`
    can be read. -/
inductive Call where
  | llseek (offset : ℤ) (orig : ℤ)
  | read (size room : ℕ)
  | write (size : ℕ) (buf : List UInt8)
  | ioctl (cmd : ℕ)

/-- What a call returns, and the bytes that arrive in the user buffer. -/
structure Ret where
  ret : Except Errno ℤ
  user : List UInt8

structure State where
  /-- `dev->mem`, and the memory behind it -/
  mem : Block
  /-- `filp->f_pos` of each file -/
  fPos : ℕ → ℤ

/-- The result of `loff_t` arithmetic. -/
def toLoff (x : ℤ) : ℤ := x.bmod (2 ^ 64)

/-- `(unsigned int)x` -/
def toUint (x : ℤ) : ℕ := (x % 2 ^ 32).toNat

namespace State
variable (s : State) (i : ℕ)

/-- `filp->f_pos = pos` -/
def setPos (pos : ℤ) : State := { s with fPos := Function.update s.fPos i pos }

/-- `globalmem_llseek` -/
def globalmemLlseek (offset orig : ℤ) : State × Ret :=
  match orig with
  | 0 =>
    if offset < 0 then (s, ⟨.error .einval, []⟩)
    else if GLOBALMEM_SIZE < toUint offset then (s, ⟨.error .einval, []⟩)
    else (s.setPos i (toUint offset), ⟨.ok (toUint offset), []⟩)
  | 1 =>
    let pos := toLoff (s.fPos i + offset)
    if GLOBALMEM_SIZE < pos then (s, ⟨.error .einval, []⟩)
    else if pos < 0 then (s, ⟨.error .einval, []⟩)
    else (s.setPos i pos, ⟨.ok pos, []⟩)
  | _ => (s, ⟨.error .einval, []⟩)

/-- `p`, an `unsigned long` of `w` bits. -/
def position (w : ℕ) : ℕ := (s.fPos i % 2 ^ w).toNat

/-- `count`, an `unsigned int`, after it was clamped. -/
def clamped (p size : ℕ) : ℕ :=
  if GLOBALMEM_SIZE - p < size % 2 ^ 32 then GLOBALMEM_SIZE - p else size % 2 ^ 32

/-- `globalmem_read` -/
def globalmemRead (w size room : ℕ) : State × Ret :=
  let p := s.position i w
  let count := clamped p size
  if GLOBALMEM_SIZE ≤ p then (s, ⟨.ok 0, []⟩)
  else if room < count then (s, ⟨.error .efault, s.mem.read p room⟩)
  else (s.setPos i (toLoff (s.fPos i + count)), ⟨.ok count, s.mem.read p count⟩)

/-- `globalmem_write` -/
def globalmemWrite (w size : ℕ) (buf : List UInt8) : State × Ret :=
  let p := s.position i w
  let count := clamped p size
  if GLOBALMEM_SIZE ≤ p then (s, ⟨.ok 0, []⟩)
  else if buf.length < count then
    ({ s with mem := s.mem.write p (copyFromUser buf count) }, ⟨.error .efault, []⟩)
  else
    ({ s with mem := s.mem.write p (buf.take count) }.setPos i (toLoff (s.fPos i + count)),
      ⟨.ok count, []⟩)

/-- `globalmem_ioctl` -/
def globalmemIoctl (cmd : ℕ) : State × Ret :=
  if cmd = MEM_CLEAR then
    ({ s with mem := s.mem.write 0 (List.replicate GLOBALMEM_SIZE 0) }, ⟨.ok 0, []⟩)
  else (s, ⟨.error .einval, []⟩)

/-- A call on the file `i`. -/
def call (w : ℕ) : Call → State × Ret
  | .llseek offset orig => s.globalmemLlseek i offset orig
  | .read size room => s.globalmemRead i w size room
  | .write size buf => s.globalmemWrite i w size buf
  | .ioctl cmd => s.globalmemIoctl cmd

end State

/-- The requested size is one that the VFS lets pass. -/
def Call.Vfs : Call → Prop
  | read size _ => size < 2 ^ 31
  | write size _ => size < 2 ^ 31
  | llseek _ _ | ioctl _ => True

instance : (c : Call) → Decidable c.Vfs
  | .read size _ => inferInstanceAs (Decidable (size < 2 ^ 31))
  | .write size _ => inferInstanceAs (Decidable (size < 2 ^ 31))
  | .llseek _ _ | .ioctl _ => inferInstanceAs (Decidable True)

/-- A call on a file, and what it returned. -/
structure Event where
  file : ℕ
  call : Call
  ret : Ret

/-- The calls of the VFS. -/
def Step (w : ℕ) (s : State) (e : Event) (t : State) : Prop :=
  e.call.Vfs ∧ s.call e.file w e.call = (t, e.ret)

/-- The device after `kzalloc`, with the cursors of files that were opened. -/
def init (mem : Block) : State := ⟨mem.write 0 (List.replicate GLOBALMEM_SIZE 0), fun _ => 0⟩

/-! ## An array with cursors -/

/-- A position in the array, or its end. -/
abbrev Cursor := Fin (GLOBALMEM_SIZE + 1)

/-- `GLOBALMEM_SIZE` zeros. -/
def zeros : Flat GLOBALMEM_SIZE := ⟨List.replicate GLOBALMEM_SIZE 0, List.length_replicate⟩

/-- An array, and a cursor of each file. -/
structure Files where
  array : Flat GLOBALMEM_SIZE
  cursor : ℕ → Cursor

namespace Files

/-- How many of `n` bytes there are from a cursor on. -/
def upTo (p : Cursor) (n : ℕ) : ℕ := min n (GLOBALMEM_SIZE - p)

variable (f : Files)

/-- The cursor of the file `i` is moved. -/
def move (i : ℕ) (p : Cursor) : Files := { f with cursor := Function.update f.cursor i p }

/-- What a call may do, and return. -/
inductive Step : Files → Event → Files → Prop
  | sought {f i offset orig} (p : Cursor) :
    Step f ⟨i, .llseek offset orig, ⟨.ok p, []⟩⟩ (f.move i p)
  | notSought {f i offset orig} : Step f ⟨i, .llseek offset orig, ⟨.error .einval, []⟩⟩ f
  /-- the bytes at the cursor are returned, and it moves behind them -/
  | read {f i n room bs} {p : Cursor} (hbs : f.array.read (f.cursor i) (upTo (f.cursor i) n) = some bs)
      (hp : (p : ℕ) = f.cursor i + bs.length) :
    Step f ⟨i, .read n room, ⟨.ok bs.length, bs⟩⟩ (f.move i p)
  | notRead {f i n room bs} : Step f ⟨i, .read n room, ⟨.error .efault, bs⟩⟩ f
  /-- the first bytes of the buffer are stored at the cursor, and it moves behind them -/
  | written {f i n buf bs} {p : Cursor} (hbs : bs = buf.take (upTo (f.cursor i) n))
      (hlen : bs.length = upTo (f.cursor i) n) (hp : (p : ℕ) = f.cursor i + bs.length) :
    Step f ⟨i, .write n buf, ⟨.ok bs.length, []⟩⟩
      ({ f with array := f.array.write (f.cursor i) bs }.move i p)
  /-- no cursor moves, and only bytes of the transfer change -/
  | notWritten {f i n buf bs} (hlen : bs.length = upTo (f.cursor i) n) :
    Step f ⟨i, .write n buf, ⟨.error .efault, []⟩⟩
      { f with array := f.array.write (f.cursor i) bs }
  | cleared {f i} : Step f ⟨i, .ioctl MEM_CLEAR, ⟨.ok 0, []⟩⟩ { f with array := zeros }
  | notCleared {f i cmd} : Step f ⟨i, .ioctl cmd, ⟨.error .einval, []⟩⟩ f

/-- All cursors are at the start of zeros. -/
def init : Files := ⟨zeros, fun _ => 0⟩

end Files

/-- The device is the array, and has touched nothing of `mem` behind it. -/
structure Shows (mem : Block) (s : State) (f : Files) : Prop where
  array : s.mem.flat GLOBALMEM_SIZE = f.array
  cursor : ∀ i, s.fPos i = (f.cursor i : ℕ)
  behind : ∀ a, GLOBALMEM_SIZE ≤ a → s.mem a = mem a

/-! ## Every call is one on the array -/

theorem toLoff_eq {x : ℤ} (h₀ : 0 ≤ x) (h : x < 2 ^ 63) : toLoff x = x := by
  simp only [toLoff, Int.bmod]
  split <;> omega

theorem Files.upTo_le (p : Cursor) (n : ℕ) : p + Files.upTo p n ≤ GLOBALMEM_SIZE := by
  have := p.isLt
  rw [Files.upTo]
  omega

theorem clamped_eq {size : ℕ} (h : size < 2 ^ 31) (p : Cursor) :
    State.clamped p size = Files.upTo p size := by
  rw [State.clamped, Files.upTo, Nat.mod_eq_of_lt (by omega)]
  split_ifs <;> omega

theorem flat_zeros (b : Block) :
    (b.write 0 (List.replicate GLOBALMEM_SIZE 0)).flat GLOBALMEM_SIZE = zeros :=
  flat_all b List.length_replicate

theorem zeros_behind (b : Block) {a : ℕ} (h : GLOBALMEM_SIZE ≤ a) :
    b.write 0 (List.replicate GLOBALMEM_SIZE 0) a = b a :=
  Block.write_after (by rwa [List.length_replicate, Nat.zero_add])

section
variable {mem : Block} {s : State} {f : Files} {i w : ℕ}

theorem Shows.init (mem : Block) : Shows mem (Globalmem.init mem) Files.init :=
  ⟨flat_zeros mem, fun _ => rfl, fun _ => zeros_behind mem⟩

/-- A cursor fits in an `unsigned long`. -/
theorem Shows.position (h : Shows mem s f) (hw : 32 ≤ w) : s.position i w = f.cursor i := by
  have hcur := (f.cursor i).isLt
  have hpow : (2 : ℤ) ^ 32 ≤ 2 ^ w := mod_cast Nat.pow_le_pow_right (by decide) hw
  rw [State.position, h.cursor, Int.emod_eq_of_lt (by omega) (by unfold GLOBALMEM_SIZE at hcur; omega)]
  rfl

theorem Shows.move (h : Shows mem s f) (p : Cursor) : Shows mem (s.setPos i (p : ℕ)) (f.move i p) := by
  refine ⟨h.array, fun j => ?_, h.behind⟩
  rcases eq_or_ne j i with rfl | hj
  · simp [State.setPos, Files.move]
  · simp [State.setPos, Files.move, hj, h.cursor j]

/-- A transfer inside the array. -/
theorem Shows.write (h : Shows mem s f) {o : ℕ} {bs : List UInt8} (ho : o + bs.length ≤ GLOBALMEM_SIZE) :
    Shows mem { s with mem := s.mem.write o bs } { f with array := f.array.write o bs } := by
  refine ⟨?_, h.cursor, fun a ha => ?_⟩
  · rw [flat_write _ ho, h.array]
  · exact (Block.write_after (ho.trans ha)).trans (h.behind a ha)

theorem Files.move_self (f : Files) (i : ℕ) : f.move i (f.cursor i) = f := by
  simp [Files.move]

/-- The cursor behind a transfer of `n` bytes. -/
theorem Shows.advance (h : Shows mem s f) {n : ℕ} (hn : f.cursor i + n ≤ GLOBALMEM_SIZE) :
    ∃ p : Cursor, (p : ℕ) = f.cursor i + n ∧ toLoff (s.fPos i + n) = (p : ℕ) := by
  refine ⟨⟨f.cursor i + n, Nat.lt_succ_of_le hn⟩, rfl, ?_⟩
  rw [h.cursor, toLoff_eq (by omega) (by unfold GLOBALMEM_SIZE at hn; omega)]
  rfl

theorem Shows.llseek (h : Shows mem s f) (offset orig : ℤ) : ∃ g,
    Files.Step f ⟨i, .llseek offset orig, (s.globalmemLlseek i offset orig).2⟩ g ∧
      Shows mem (s.globalmemLlseek i offset orig).1 g := by
  have hmoved : ∀ pos : ℤ, 0 ≤ pos → pos ≤ GLOBALMEM_SIZE → ∃ p : Cursor, pos = (p : ℕ) :=
    fun pos h₀ h₁ => ⟨⟨pos.toNat, by omega⟩, by simp [h₀]⟩
  simp only [State.globalmemLlseek]
  split
  · split_ifs with hneg hbig
    · exact ⟨f, .notSought, h⟩
    · exact ⟨f, .notSought, h⟩
    · obtain ⟨p, hp⟩ := hmoved (toUint offset) (by omega) (by omega)
      rw [hp]
      exact ⟨_, .sought p, h.move p⟩
  · split_ifs with hbig hneg
    · exact ⟨f, .notSought, h⟩
    · exact ⟨f, .notSought, h⟩
    · obtain ⟨p, hp⟩ := hmoved (toLoff (s.fPos i + offset)) (by omega) (by omega)
      rw [hp]
      exact ⟨_, .sought p, h.move p⟩
  · exact ⟨f, .notSought, h⟩

theorem Shows.read (h : Shows mem s f) (hw : 32 ≤ w) {size : ℕ} (hsize : size < 2 ^ 31) (room : ℕ) :
    ∃ g, Files.Step f ⟨i, .read size room, (s.globalmemRead i w size room).2⟩ g ∧
      Shows mem (s.globalmemRead i w size room).1 g := by
  have hle := Files.upTo_le (f.cursor i) size
  have hread : f.array.read (f.cursor i) (Files.upTo (f.cursor i) size) =
      some (s.mem.read (f.cursor i) (Files.upTo (f.cursor i) size)) := by
    rw [← h.array, flat_read _ hle]
  obtain ⟨p, hp, hpos⟩ := h.advance hle
  simp only [State.globalmemRead, h.position hw, clamped_eq hsize]
  split_ifs with hend hroom
  · -- nothing is left behind the cursor
    have hzero : Files.upTo (f.cursor i) size = 0 := by omega
    rw [hzero, Block.read_zero, ← hzero] at hread
    have hstep := @Files.Step.read f i size room _ (f.cursor i) hread rfl
    rw [Files.move_self] at hstep
    exact ⟨f, hstep, h⟩
  · exact ⟨f, .notRead, h⟩
  · rw [hpos]
    have hstep := @Files.Step.read f i size room _ p hread (by rw [hp, Block.length_read])
    rw [Block.length_read] at hstep
    exact ⟨_, hstep, h.move p⟩

theorem Shows.written (h : Shows mem s f) (hw : 32 ≤ w) {size : ℕ} (hsize : size < 2 ^ 31)
    (buf : List UInt8) : ∃ g, Files.Step f ⟨i, .write size buf, (s.globalmemWrite i w size buf).2⟩ g ∧
      Shows mem (s.globalmemWrite i w size buf).1 g := by
  have hle := Files.upTo_le (f.cursor i) size
  obtain ⟨p, hp, hpos⟩ := h.advance hle
  simp only [State.globalmemWrite, h.position hw, clamped_eq hsize]
  split_ifs with hend hbuf
  · have hzero : Files.upTo (f.cursor i) size = 0 := by omega
    have hstep := @Files.Step.written f i size buf [] (f.cursor i) (by rw [hzero]; rfl)
      (by rw [hzero]; rfl) rfl
    rw [Flat.write_nil, Files.move_self] at hstep
    exact ⟨f, hstep, h⟩
  · have hlen := length_copyFromUser buf (Files.upTo (f.cursor i) size)
    exact ⟨_, .notWritten hlen, h.write (by rwa [hlen])⟩
  · have hlen : (buf.take (Files.upTo (f.cursor i) size)).length = Files.upTo (f.cursor i) size := by
      rw [List.length_take, Nat.min_eq_left (by omega)]
    have hstep := @Files.Step.written f i size buf _ p rfl hlen (by rw [hp, hlen])
    rw [hlen] at hstep
    rw [hpos]
    exact ⟨_, hstep, (h.write (by rwa [hlen])).move p⟩

theorem Shows.ioctl (h : Shows mem s f) (cmd : ℕ) : ∃ g,
    Files.Step f ⟨i, .ioctl cmd, (s.globalmemIoctl cmd).2⟩ g ∧ Shows mem (s.globalmemIoctl cmd).1 g := by
  rw [State.globalmemIoctl]
  split_ifs with hcmd
  · subst hcmd
    exact ⟨_, .cleared, flat_zeros _, h.cursor, fun a ha => (zeros_behind _ ha).trans (h.behind a ha)⟩
  · exact ⟨f, .notCleared, h⟩

/-- **One call** is one on the array. -/
theorem Shows.step (hw : 32 ≤ w) {e : Event} {t : State} (h : Shows mem s f) (hstep : Step w s e t) :
    ∃ g, Files.Step f e g ∧ Shows mem t g := by
  obtain ⟨i, c, r⟩ := e
  obtain ⟨hvfs, hcall⟩ := hstep
  obtain ⟨rfl, rfl⟩ : (s.call i w c).1 = t ∧ (s.call i w c).2 = r := by
    rw [hcall]
    exact ⟨rfl, rfl⟩
  cases c with
  | llseek offset orig => exact h.llseek offset orig
  | read size room => exact h.read hw hvfs room
  | write size buf => exact h.written hw hvfs buf
  | ioctl cmd => exact h.ioctl cmd

end

/-- **Every run of calls** is one on an array with cursors: the cursors stay inside it, a transfer
    moves its own cursor behind the bytes that it read or stored, and one that fails moves none. -/
theorem globalmem_array {w : ℕ} (hw : 32 ≤ w) {mem : Block} {es : List Event} {s : State}
    (h : Run (Step w) (init mem) es s) : ∃ f, Run Files.Step Files.init es f ∧ Shows mem s f := by
  have := h.simulation (R := Shows mem) id (fun _ _ _ _ hs hstep => hs.step hw hstep) (Shows.init mem)
  rwa [List.map_id] at this

/-- The device after a write of two bytes through one file, -/
def afterWrite : State := ((init fun _ => 0).call 0 64 (.write 2 [7, 8])).1

/-- and after a read through another. -/
def afterRead : State := (afterWrite.call 1 64 (.read 1 4)).1

theorem globalmem_array_afterRead : ∃ f, Run Files.Step Files.init
    [⟨0, .write 2 [7, 8], ⟨.ok 2, []⟩⟩, ⟨1, .read 1 4, ⟨.ok 1, [7]⟩⟩] f ∧
      Shows (fun _ => 0) afterRead f := by
  have hwrite : Step 64 (init fun _ => 0) ⟨0, .write 2 [7, 8], ⟨.ok 2, []⟩⟩ afterWrite :=
    ⟨by decide, rfl⟩
  have hread : Step 64 afterWrite ⟨1, .read 1 4, ⟨.ok 1, [7]⟩⟩ afterRead := ⟨by decide, rfl⟩
  exact globalmem_array (w := 64) (by decide) ((Run.single hwrite).snoc hread)

end Globalmem
