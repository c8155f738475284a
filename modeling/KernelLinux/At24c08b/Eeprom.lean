/-
  at24c08b — the driver of `c7/i2c/at24c08newstyle.c`, over an EEPROM without bus errors.

  The EEPROM has 256 cells, and an SMBus command is the low byte of `offset + i`.  `at24c08b_write` and
  `at24c08b_read` move the bytes through arrays of `MAX_BUF_RW` bytes on the stack; neither looks at
  how large `count` is.  The arrays are blocks here, and the indices that are used are recorded.

  * `Client`: the adapter's functionality and the cells;
  * `at24c08bWrite`, `at24c08bRead`: the two calls;
  * `write_cells`, `read_user`: which cells and bytes a call leaves, while no command repeats;
  * `inverse_iff`: the calls are inverse and stay inside of their arrays if and only if
    `count ≤ MAX_BUF_RW`.
-/
import KernelLinux.Lib.Bytes
import Mathlib.Logic.Function.Basic

namespace At24c08b

open Bytes

def MAX_BUF_RW : ℕ := 256

def I2C_FUNC_SMBUS_READ_BYTE_DATA : ℕ := 0x00080000
def I2C_FUNC_SMBUS_WRITE_BYTE_DATA : ℕ := 0x00100000
def I2C_FUNC_SMBUS_BYTE_DATA : ℕ := I2C_FUNC_SMBUS_READ_BYTE_DATA ||| I2C_FUNC_SMBUS_WRITE_BYTE_DATA

/-- The EEPROM behind its adapter. -/
structure Client where
  functionality : ℕ
  cells : Fin 256 → UInt8

/-- The `u8` that a command is cut to. -/
def command (c : ℤ) : Fin 256 := ⟨(c % 256).toNat, by omega⟩

namespace Client
variable (client : Client)

/-- `i2c_check_functionality` -/
def checkFunctionality (func : ℕ) : Bool := func &&& client.functionality = func

/-- `i2c_smbus_read_byte_data` -/
def readByteData (c : ℤ) : UInt8 := client.cells (command c)

/-- `i2c_smbus_write_byte_data` -/
def writeByteData (c : ℤ) (value : UInt8) : Client :=
  { client with cells := Function.update client.cells (command c) value }

end Client

/-- `*ppos` as an `int` -/
def toInt (ppos : ℤ) : ℤ := ppos.bmod (2 ^ 32)

/-- What a call leaves: its result, the EEPROM, the user's buffer, and the indices of the array on the
    stack that were used. -/
structure Call where
  ret : ℕ
  client : Client
  user : Block
  used : List ℕ

/-- An array on the stack, and the indices that were used. -/
structure Stack where
  arr : Block
  used : List ℕ

/-- The loop of `at24c08b_read` with `n` bytes left; `i` is `transferred` as well. -/
def readLoop (client : Client) (offset : ℤ) : ℕ → ℕ → Stack → Stack
  | 0, _, bufRead => bufRead
  | n + 1, i, bufRead =>
    readLoop client offset n (i + 1)
      ⟨bufRead.arr.write i [client.readByteData (offset + i)], bufRead.used ++ [i]⟩

/-- `at24c08b_read` to the user's buffer `user`; `bufRead` is what the stack held. -/
def at24c08bRead (client : Client) (user : Block) (count : ℕ) (ppos : ℤ) (bufRead : Block) : Call :=
  let offset := toInt ppos
  if client.checkFunctionality I2C_FUNC_SMBUS_READ_BYTE_DATA then
    let bufRead := readLoop client offset count 0 ⟨bufRead, []⟩
    ⟨count, client, user.write 0 (bufRead.arr.read 0 count), bufRead.used ++ List.range count⟩
  else ⟨0, client, user, []⟩

/-- The loop of `at24c08b_write` with `n` bytes left. -/
def writeLoop (offset : ℤ) (bufWrite : Block) : ℕ → ℕ → Client × List ℕ → Client × List ℕ
  | 0, _, s => s
  | n + 1, transferred, (client, used) =>
    writeLoop offset bufWrite n (transferred + 1)
      (client.writeByteData (offset + transferred) (bufWrite transferred), used ++ [transferred])

/-- `at24c08b_write` from the user's buffer `user`; `bufWrite` is what the stack held. -/
def at24c08bWrite (client : Client) (user : Block) (count : ℕ) (ppos : ℤ) (bufWrite : Block) : Call :=
  let offset := toInt ppos
  if client.checkFunctionality I2C_FUNC_SMBUS_BYTE_DATA then
    let bufWrite := bufWrite.write 0 (user.read 0 count)
    let s := writeLoop offset bufWrite count 0 (client, List.range count)
    ⟨count, s.1, user, s.2⟩
  else ⟨0, client, user, []⟩

/-- `at24c08b_write` of `count` bytes, and `at24c08b_read` of as many bytes from the same offset. -/
structure Inverse (client : Client) (user dst : Block) (count : ℕ) (ppos : ℤ)
    (bufWrite bufRead : Block) : Prop where
  write_ret : (at24c08bWrite client user count ppos bufWrite).ret = count
  /-- no other cell changes -/
  frame : ∀ a, (∀ i < count, a ≠ command (ppos + i)) →
    (at24c08bWrite client user count ppos bufWrite).client.cells a = client.cells a
  read_ret : (at24c08bRead (at24c08bWrite client user count ppos bufWrite).client dst count ppos
    bufRead).ret = count
  bytes : (at24c08bRead (at24c08bWrite client user count ppos bufWrite).client dst count ppos
    bufRead).user.read 0 count = user.read 0 count
  write_inside : ∀ i ∈ (at24c08bWrite client user count ppos bufWrite).used, i < MAX_BUF_RW
  read_inside : ∀ i ∈ (at24c08bRead (at24c08bWrite client user count ppos bufWrite).client dst count
    ppos bufRead).used, i < MAX_BUF_RW

/-! ## Commands -/

/-- What the `int` loses of `*ppos` is not in a command. -/
theorem command_toInt (ppos i : ℤ) : command (toInt ppos + i) = command (ppos + i) := by
  obtain ⟨k, hk⟩ := Int.dvd_bmod_sub_self (x := ppos) (m := 2 ^ 32)
  have htoInt : toInt ppos = ppos + 4294967296 * k := by
    rw [toInt]
    norm_num at hk ⊢
    omega
  rw [command, command, Fin.mk.injEq, htoInt]
  omega

/-- No command repeats within 256 bytes. -/
theorem command_inj {c : ℤ} {i j : ℕ} (h : command (c + i) = command (c + j)) (hij : i < j + 256)
    (hji : j < i + 256) : i = j := by
  rw [command, command, Fin.mk.injEq] at h
  omega

theorem checkFunctionality_read {client : Client}
    (h : client.checkFunctionality I2C_FUNC_SMBUS_BYTE_DATA) :
    client.checkFunctionality I2C_FUNC_SMBUS_READ_BYTE_DATA := by
  have hpart : I2C_FUNC_SMBUS_READ_BYTE_DATA =
      I2C_FUNC_SMBUS_READ_BYTE_DATA &&& I2C_FUNC_SMBUS_BYTE_DATA := by decide
  rw [Client.checkFunctionality, decide_eq_true_eq] at h ⊢
  conv_lhs => rw [hpart]
  rw [Nat.and_assoc, h, ← hpart]

/-! ## The loops -/

section
variable {client : Client} {offset : ℤ} {n i j : ℕ}

/-- The index of a round, and those of the rounds behind it. -/
theorem mem_used_succ {used : List ℕ} :
    j ∈ used ++ [i] ∨ i + 1 ≤ j ∧ j < i + 1 + n ↔ j ∈ used ∨ i ≤ j ∧ j < i + (n + 1) := by
  rw [List.mem_append, List.mem_singleton, or_assoc]
  refine or_congr_right ?_
  omega

theorem mem_readLoop {s : Stack} :
    j ∈ (readLoop client offset n i s).used ↔ j ∈ s.used ∨ i ≤ j ∧ j < i + n := by
  induction n generalizing i s with
  | zero =>
    rw [readLoop, or_iff_left]
    omega
  | succ n ih =>
    rw [readLoop, ih]
    exact mem_used_succ

theorem readLoop_before {s : Stack} (h : j < i) : (readLoop client offset n i s).arr j = s.arr j := by
  induction n generalizing i s with
  | zero => rfl
  | succ n ih =>
    rw [readLoop, ih (by omega)]
    exact Block.write_before h

/-- The loop fetches the cells. -/
theorem readLoop_arr {s : Stack} (hij : i ≤ j) (hj : j < i + n) :
    (readLoop client offset n i s).arr j = client.cells (command (offset + j)) := by
  induction n generalizing i s with
  | zero => omega
  | succ n ih =>
    rw [readLoop]
    rcases Nat.eq_or_lt_of_le hij with rfl | hlt
    · rw [readLoop_before (Nat.lt_succ_self i)]
      exact Block.write_one _ _ _
    · exact ih hlt (by omega)

variable {bufWrite : Block}

theorem mem_writeLoop {s : Client × List ℕ} :
    j ∈ (writeLoop offset bufWrite n i s).2 ↔ j ∈ s.2 ∨ i ≤ j ∧ j < i + n := by
  induction n generalizing i s with
  | zero =>
    rw [writeLoop, or_iff_left]
    omega
  | succ n ih =>
    rw [writeLoop, ih]
    exact mem_used_succ

/-- The loop changes no cell but those of its commands. -/
theorem writeLoop_frame {s : Client × List ℕ} {a : Fin 256}
    (h : ∀ j, i ≤ j → j < i + n → a ≠ command (offset + j)) :
    (writeLoop offset bufWrite n i s).1.cells a = s.1.cells a := by
  induction n generalizing i s with
  | zero => rfl
  | succ n ih =>
    rw [writeLoop, ih fun j hij hj => h j (by omega) (by omega)]
    exact Function.update_of_ne (h i le_rfl (by omega)) _ _

/-- The loop stores the bytes, while no command repeats. -/
theorem writeLoop_cells {s : Client × List ℕ} (hn : n ≤ 256) (hij : i ≤ j) (hj : j < i + n) :
    (writeLoop offset bufWrite n i s).1.cells (command (offset + j)) = bufWrite j := by
  induction n generalizing i s with
  | zero => omega
  | succ n ih =>
    rw [writeLoop]
    rcases Nat.eq_or_lt_of_le hij with rfl | hlt
    · rw [writeLoop_frame]
      · exact Function.update_self _ _ _
      · intro k hik hk heq
        have := command_inj heq (by omega) (by omega)
        omega
    · exact ih (by omega) hlt (by omega)

end

/-! ## The calls -/

section
variable {client : Client} {count : ℕ} (user bufWrite bufRead : Block) (ppos : ℤ)

/-- **What `at24c08b_write` leaves in the EEPROM.** -/
theorem write_cells (hf : client.checkFunctionality I2C_FUNC_SMBUS_BYTE_DATA)
    (hcount : count ≤ MAX_BUF_RW) {i : ℕ} (hi : i < count) :
    (at24c08bWrite client user count ppos bufWrite).client.cells (command (ppos + i)) = user i := by
  have hbyte : (bufWrite.write 0 (user.read 0 count)) i = user i := by
    have hlt : i < (user.read 0 count).length := by rwa [Block.length_read]
    have hwrite := Block.write_inside (b := bufWrite) (o := 0) hlt
    rw [Nat.zero_add] at hwrite
    rw [hwrite]
    simp [Block.read]
  rw [at24c08bWrite, if_pos hf, ← command_toInt]
  dsimp only
  rw [writeLoop_cells hcount (Nat.zero_le i) (by omega), hbyte]

theorem write_frame (hf : client.checkFunctionality I2C_FUNC_SMBUS_BYTE_DATA) {a : Fin 256}
    (h : ∀ i < count, a ≠ command (ppos + i)) :
    (at24c08bWrite client user count ppos bufWrite).client.cells a = client.cells a := by
  rw [at24c08bWrite, if_pos hf]
  refine writeLoop_frame fun j _ hj => ?_
  rw [command_toInt]
  exact h j (by omega)

/-- **What `at24c08b_read` leaves in the user's buffer.** -/
theorem read_user (hf : client.checkFunctionality I2C_FUNC_SMBUS_READ_BYTE_DATA) :
    (at24c08bRead client user count ppos bufRead).user.read 0 count =
      (List.range count).map fun i : ℕ => client.cells (command (ppos + i)) := by
  rw [at24c08bRead, if_pos hf]
  dsimp only
  have hread := Block.read_write user 0
    ((readLoop client (toInt ppos) count 0 ⟨bufRead, []⟩).arr.read 0 count)
  rw [Block.length_read] at hread
  rw [hread, Block.read]
  refine List.map_congr_left fun i hi => ?_
  rw [Nat.zero_add, readLoop_arr (Nat.zero_le i) (by simpa using hi), command_toInt]

/-- Both calls use the indices below `count`. -/
theorem mem_write_used (hf : client.checkFunctionality I2C_FUNC_SMBUS_BYTE_DATA) {i : ℕ} :
    i ∈ (at24c08bWrite client user count ppos bufWrite).used ↔ i < count := by
  rw [at24c08bWrite, if_pos hf]
  dsimp only
  rw [mem_writeLoop, List.mem_range]
  omega

theorem mem_read_used (hf : client.checkFunctionality I2C_FUNC_SMBUS_READ_BYTE_DATA) {i : ℕ} :
    i ∈ (at24c08bRead client user count ppos bufRead).used ↔ i < count := by
  rw [at24c08bRead, if_pos hf]
  dsimp only
  rw [List.mem_append, mem_readLoop, List.mem_range, or_iff_right List.not_mem_nil]
  omega

end

theorem writeLoop_functionality {offset : ℤ} {bufWrite : Block} {n i : ℕ} {s : Client × List ℕ} :
    (writeLoop offset bufWrite n i s).1.functionality = s.1.functionality := by
  induction n generalizing i s with
  | zero => rfl
  | succ n ih =>
    rw [writeLoop, ih]
    rfl

/-- **When the calls are inverse**: as far as the arrays on the stack reach. -/
theorem inverse_iff {client : Client} (hf : client.checkFunctionality I2C_FUNC_SMBUS_BYTE_DATA)
    (user dst : Block) (count : ℕ) (ppos : ℤ) (bufWrite bufRead : Block) :
    Inverse client user dst count ppos bufWrite bufRead ↔ count ≤ MAX_BUF_RW := by
  have hread : (at24c08bWrite client user count ppos bufWrite).client.checkFunctionality
      I2C_FUNC_SMBUS_READ_BYTE_DATA := by
    have hkeep := checkFunctionality_read hf
    rw [Client.checkFunctionality] at hkeep ⊢
    rw [at24c08bWrite, if_pos hf]
    dsimp only
    rwa [writeLoop_functionality]
  constructor
  · intro h
    by_contra hlt
    have hused := (mem_write_used user bufWrite ppos hf).2 (Nat.lt_of_not_le hlt)
    exact (h.write_inside _ hused).false
  · intro hcount
    constructor
    · rw [at24c08bWrite, if_pos hf]
    · exact fun a ha => write_frame user bufWrite ppos hf ha
    · rw [at24c08bRead, if_pos hread]
    · rw [read_user _ _ _ hread, Block.read]
      refine List.map_congr_left fun i hi => ?_
      rw [write_cells user bufWrite ppos hf hcount (List.mem_range.1 hi), Nat.zero_add]
    · exact fun i hi => ((mem_write_used user bufWrite ppos hf).1 hi).trans_le hcount
    · exact fun i hi => ((mem_read_used dst bufRead ppos hread).1 hi).trans_le hcount

/-- An adapter for bytes and an EEPROM of zeros. -/
def blank : Client := ⟨I2C_FUNC_SMBUS_BYTE_DATA, fun _ => 0⟩

theorem blank_inverse : blank.checkFunctionality I2C_FUNC_SMBUS_BYTE_DATA ∧
    Inverse blank (fun i => UInt8.ofNat i) (fun _ => 0) 4 254 (fun _ => 0) fun _ => 0 :=
  ⟨by decide, (inverse_iff (by decide) _ _ _ _ _ _).2 (by decide)⟩

/-- One byte more than the arrays have. -/
theorem count_overruns : blank.checkFunctionality I2C_FUNC_SMBUS_BYTE_DATA ∧
    ¬ Inverse blank (fun _ => 0) (fun _ => 0) 257 0 (fun _ => 0) fun _ => 0 := by
  refine ⟨by decide, fun h => ?_⟩
  have hused : 256 ∈ (at24c08bWrite blank (fun _ => 0) 257 0 fun _ => 0).used :=
    (mem_write_used _ _ _ (by decide)).2 (Nat.lt_succ_self 256)
  exact (h.write_inside _ hused).false

end At24c08b
