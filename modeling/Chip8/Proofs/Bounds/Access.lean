import Chip8.Proofs.Memory
import Chip8.State.Basic

/-!
# Checked accesses

A cell is reached at a computed position, and numbers are computed that have to fit into a fixed
number of bits.  The checked operations here yield nothing where the position lies outside of the
cells or the number does not fit.  Whatever is composed of them yields nothing if a single access or
a single number on the way is out of bounds, so a checked computation that is equal to `some` of the
plain one shows that all of them are in bounds.

Next to each operation stands the law that says where it succeeds and what it is then.  The loops go
over the offsets from the index register, in ascending order: `State.fill?` reads memory into a
buffer of sixteen bytes, and `State.spill?` writes the registers to memory.
-/

namespace Chip8

namespace Checked

variable {α : Type}

/-! ## Numbers and cells -/

/-- A value, if the number that it stands for is one of the first `size` numbers. -/
def fit (size n : Nat) (a : α) : Option α :=
  if n < size then some a else none

theorem fit_of_lt {size n : Nat} (h : n < size) (a : α) : fit size n a = some a :=
  if_pos h

def add16 (a b : UInt16) : Option UInt16 := fit UInt16.size (a.toNat + b.toNat) (a + b)

def mul16 (a b : UInt16) : Option UInt16 := fit UInt16.size (a.toNat * b.toNat) (a * b)

def mul32 (a b : UInt32) : Option UInt32 := fit UInt32.size (a.toNat * b.toNat) (a * b)

/-- A sum of two numbers that count things or number cells, which have 64 bits. -/
def addSize (a b : Nat) : Option Nat := fit UInt64.size (a + b) (a + b)

def subSize (a b : Nat) : Option Nat := if b ≤ a then some (a - b) else none

def store {n : Nat} (cells : Vector α n) (i : Nat) (a : α) : Option (Vector α n) :=
  if h : i < n then some (cells.set i a h) else none

/-- The first `k` cells. -/
def front {n : Nat} (cells : Vector α n) (k : Nat) : Option (List α) :=
  if k ≤ n then some (cells.toList.take k) else none

theorem addSize_of_lt {a b : Nat} (h : a + b < UInt64.size) : addSize a b = some (a + b) :=
  fit_of_lt h _

theorem addSize_of_small {a b : Nat} (h : a + b < 0x100000000) : addSize a b = some (a + b) :=
  addSize_of_lt (Nat.lt_of_lt_of_le h (by decide))

theorem subSize_of_le {a b : Nat} (h : b ≤ a) : subSize a b = some (a - b) := if_pos h

theorem store_of_lt {n i : Nat} (cells : Vector α n) (a : α) (h : i < n) :
    store cells i a = some (cells.set i a h) := dif_pos h

theorem front_of_le {n k : Nat} (cells : Vector α n) (h : k ≤ n) :
    front cells k = some (cells.toList.take k) := if_pos h

/-- A loop over the first numbers goes through its last number at the end. -/
theorem foldlM_range_succ {β : Type} (f : β → Nat → Option β) (b : β) (n : Nat) :
    (List.range (n + 1)).foldlM f b = (List.range n).foldlM f b >>= fun c => f c n := by
  rw [List.range_succ, List.foldlM_append]
  simp

theorem toNat_byte_lt (b : UInt8) : b.toUInt16.toNat < 256 := by
  rw [UInt8.toNat_toUInt16]
  exact b.toNat_lt

/-- Sixteen bits hold the sum of an address and a byte. -/
theorem add16_byte {a : UInt16} (h : a.toNat < 4096) (b : UInt8) :
    add16 a b.toUInt16 = some (a + b.toUInt16) := by
  have hbyte := toNat_byte_lt b
  exact fit_of_lt (show _ < 0x10000 by omega) _

theorem add16_bytes (a b : UInt8) :
    add16 a.toUInt16 b.toUInt16 = some (a.toUInt16 + b.toUInt16) := by
  have hbyte := toNat_byte_lt a
  exact add16_byte (by omega) b

end Checked

open Checked

/-! ## Memory -/

namespace Memory

theorem read?_mod (m : Memory) (address : Nat) :
    m.read? (address % 4096) = some (m.read address) := by
  simp only [read?, read, Vector.getElem?_eq_getElem (Nat.mod_lt address (by omega : 0 < 4096))]

theorem write?_mod (m : Memory) (address : Nat) (byte : UInt8) :
    m.write? (address % 4096) byte = some (m.write address byte) := by
  simp only [write?, write, Nat.mod_mod, Nat.mod_lt address (by omega : 0 < 4096), if_true]

theorem writeAll_append (m : Memory) (address : Nat) (bytes more : List UInt8) :
    m.writeAll address (bytes ++ more) =
      (m.writeAll address bytes).writeAll (address + bytes.length) more := by
  induction bytes generalizing m address with
  | nil => rfl
  | cons byte bytes ih =>
    rw [List.cons_append, writeAll, writeAll, ih, List.length_cons]
    congr 1
    omega

/-- Copy bytes to a range of memory. -/
def copy? (m : Memory) (start : Nat) (bytes : List UInt8) : Option Memory := do
  let stop ← addSize start bytes.length
  if stop ≤ 4096 then some (m.writeAll start bytes) else none

theorem copy?_of_fits (m : Memory) {start : Nat} {bytes : List UInt8}
    (h : start + bytes.length ≤ 4096) : m.copy? start bytes = some (m.writeAll start bytes) := by
  rw [copy?, addSize_of_small (by omega)]
  exact if_pos h

/-- Memory of which every byte is zero. -/
def zeros : Memory := ⟨Vector.replicate 4096 0⟩

/-- Clear memory, copy the glyphs to its start and a program behind them. -/
def boot? (program : Program) : Option Memory := do
  let glyphs ← zeros.copy? 0 font.toList
  glyphs.copy? programStart program.toList

/-- Memory without a program holds the glyphs and zeros. -/
theorem writeAll_font : zeros.writeAll 0 font.toList = boot #[] := by
  apply ext_read
  intro address haddress
  have hdistance : distance 0 address = address := by
    unfold distance
    omega
  rw [read_writeAll _ _ _ (by simp), read_boot, Nat.mod_eq_of_lt haddress, hdistance]
  by_cases hglyph : address < 80
  · simp [bootByte, hglyph]
  · simp [bootByte, hglyph, zeros, read]

theorem boot?_of_fits {program : Program} (hfits : program.size ≤ programCapacity) :
    boot? program = some (boot program) := by
  have hshort : program.size ≤ 3584 := hfits
  have hglyphs : zeros.copy? 0 font.toList = some (boot #[]) := by
    rw [copy?_of_fits _ (by simp), writeAll_font]
  have hend : programStart + program.toList.length ≤ 4096 := by
    rw [Array.length_toList, programStart]
    omega
  rw [boot?, hglyphs, boot_eq_writeAll hfits]
  exact copy?_of_fits _ hend

end Memory

/-! ## Offsets from the index -/

namespace State

/-- The address at an offset from the index, wrapped to memory. -/
def indexed? (s : State) (offset : Nat) : Option Nat := do
  let address ← addSize s.index.toNat offset
  return address % 4096

theorem indexed?_of_lt (s : State) {offset : Nat} (h : offset < 0x10000) :
    s.indexed? offset = some ((s.index.toNat + offset) % 4096) := by
  have hindex : s.index.toNat < 0x10000 := s.index.toNat_lt
  rw [indexed?, addSize_of_small (by omega)]
  rfl

/-- A buffer with the bytes from the index on in place of its first `n`. -/
def filled (s : State) (buffer : Vector UInt8 16) (n : Nat) : Vector UInt8 16 :=
  Vector.ofFn fun k => if k.val < n then s.memory.read (s.index.toNat + k) else buffer.get k

theorem getElem_filled (s : State) (buffer : Vector UInt8 16) (n : Nat) {i : Nat} (hi : i < 16) :
    (s.filled buffer n)[i] = if i < n then s.memory.read (s.index.toNat + i) else buffer[i] := by
  rw [filled, Vector.getElem_ofFn]
  rfl

theorem filled_zero (s : State) (buffer : Vector UInt8 16) : s.filled buffer 0 = buffer := by
  apply Vector.ext
  intro i hi
  rw [getElem_filled]
  rfl

theorem filled_succ (s : State) (buffer : Vector UInt8 16) {n : Nat} (hn : n < 16) :
    s.filled buffer (n + 1) =
      (s.filled buffer n).set n (s.memory.read (s.index.toNat + n)) hn := by
  apply Vector.ext
  intro i hi
  rw [Vector.getElem_set, getElem_filled, getElem_filled]
  grind

theorem take_filled (s : State) (buffer : Vector UInt8 16) {n : Nat} (h : n ≤ 16) :
    (s.filled buffer n).toList.take n = s.memory.slice s.index.toNat n := by
  apply List.ext_getElem
  · simp [Memory.slice, h]
  · intro i hi hi'
    have hinside : i < n := by simpa [Memory.slice] using hi'
    simp [Memory.slice, hinside, getElem_filled]

/-- Read memory from the index on into the first `n` bytes of a buffer. -/
def fill? (s : State) (buffer : Vector UInt8 16) (n : Nat) : Option (Vector UInt8 16) :=
  (List.range n).foldlM (fun buffer k => do
    let address ← s.indexed? k
    let byte ← s.memory.read? address
    store buffer k byte) buffer

theorem fill?_of_le (s : State) (buffer : Vector UInt8 16) {n : Nat} (h : n ≤ 16) :
    s.fill? buffer n = some (s.filled buffer n) := by
  -- By induction on the number of bytes: the newest one lies behind those that are filled already.
  induction n with
  | zero =>
    rw [filled_zero]
    rfl
  | succ n ih =>
    have hn : n < 16 := h
    have haddress : s.indexed? n = some ((s.index.toNat + n) % 4096) :=
      s.indexed?_of_lt (by omega)
    rw [fill?, foldlM_range_succ, ← fill?, ih (by omega), filled_succ s buffer hn]
    simp only [Option.bind_eq_bind, Option.bind_some, haddress, Memory.read?_mod,
      store_of_lt _ _ hn]

/-- Write the first `n` registers to memory, from the index on. -/
def spill? (s : State) (n : Nat) : Option Memory :=
  (List.range n).foldlM (fun memory k => do
    let address ← s.indexed? k
    let byte ← s.regs[k]?
    memory.write? address byte) s.memory

theorem spill?_of_le (s : State) {n : Nat} (h : n ≤ 16) :
    s.spill? n = some (s.memory.writeAll s.index.toNat (s.regs.toList.take n)) := by
  induction n with
  | zero => rfl
  | succ n ih =>
    have hn : n < 16 := h
    have haddress : s.indexed? n = some ((s.index.toNat + n) % 4096) :=
      s.indexed?_of_lt (by omega)
    have hregister : s.regs.toList.take (n + 1) = s.regs.toList.take n ++ [s.regs[n]] := by
      rw [List.take_succ_eq_append_getElem (by simpa using hn)]
      rfl
    have hlength : (s.regs.toList.take n).length = n := by
      simp
      omega
    rw [spill?, foldlM_range_succ, ← spill?, ih (by omega), hregister, Memory.writeAll_append,
      hlength]
    simp only [Option.bind_eq_bind, Option.bind_some, haddress, Vector.getElem?_eq_getElem hn,
      Memory.write?_mod]
    rfl

end State
end Chip8
