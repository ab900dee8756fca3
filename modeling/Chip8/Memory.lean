import Chip8.Instr.Basic

/-!
# Memory

The machine has 4096 bytes.  The glyphs of the sixteen digits lie at its start and a program is
loaded at `0x200`.  Every access by an instruction wraps around the end of memory, so any number is
an address; a host that inspects memory is told when it reaches outside.
-/

namespace Chip8

/-- The bytes of a program file. -/
abbrev Program := Array UInt8

/-- The whole address space. -/
structure Memory where
  bytes : Vector UInt8 4096
  deriving DecidableEq

namespace Memory

/-- The address of a program's first byte. -/
def programStart : Nat := 0x200

/-- The size of the largest program: what lies between its start and the end of memory. -/
def programCapacity : Nat := 4096 - programStart

/-- The rows of one glyph. -/
def glyphHeight : Nat := 5

/-- Five rows for each of the digits `0` to `F`. -/
def font : Vector UInt8 80 :=
  #v[0xF0, 0x90, 0x90, 0x90, 0xF0,
     0x20, 0x60, 0x20, 0x20, 0x70,
     0xF0, 0x10, 0xF0, 0x80, 0xF0,
     0xF0, 0x10, 0xF0, 0x10, 0xF0,
     0x90, 0x90, 0xF0, 0x10, 0x10,
     0xF0, 0x80, 0xF0, 0x10, 0xF0,
     0xF0, 0x80, 0xF0, 0x90, 0xF0,
     0xF0, 0x10, 0x20, 0x40, 0x40,
     0xF0, 0x90, 0xF0, 0x90, 0xF0,
     0xF0, 0x90, 0xF0, 0x10, 0xF0,
     0xF0, 0x90, 0xF0, 0x90, 0x90,
     0xE0, 0x90, 0xE0, 0x90, 0xE0,
     0xF0, 0x80, 0x80, 0x80, 0xF0,
     0xE0, 0x90, 0x90, 0x90, 0xE0,
     0xF0, 0x80, 0xF0, 0x80, 0xF0,
     0xF0, 0x80, 0xF0, 0x80, 0x80]

/-- The byte at an address after loading: glyphs, then the program in its place, and zeros. -/
def bootByte (program : Program) (address : Nat) : UInt8 :=
  if h : address < 80 then font[address]
  else if programStart ≤ address then program.getD (address - programStart) 0
  else 0

/-- Memory with nothing but the glyphs and a program. -/
def boot (program : Program) : Memory :=
  ⟨Vector.ofFn fun address => bootByte program address⟩

/-- The byte at an address, wrapped to memory. -/
def read (m : Memory) (address : Nat) : UInt8 :=
  m.bytes[address % 4096]

/-- Replace the byte at an address, wrapped to memory. -/
def write (m : Memory) (address : Nat) (byte : UInt8) : Memory :=
  ⟨m.bytes.set (address % 4096) byte⟩

/-- The byte at an address inside memory. -/
def read? (m : Memory) (address : Nat) : Option UInt8 :=
  m.bytes[address]?

/-- Replace the byte at an address inside memory. -/
def write? (m : Memory) (address : Nat) (byte : UInt8) : Option Memory :=
  if address < 4096 then some (m.write address byte) else none

/-- The word at an address, its high byte first. -/
def word (m : Memory) (address : Nat) : Word :=
  (m.read address).toUInt16 <<< 8 ||| (m.read (address + 1)).toUInt16

/-- The bytes at the `n` addresses from `address` on. -/
def slice (m : Memory) (address n : Nat) : List UInt8 :=
  (List.range n).map fun k => m.read (address + k)

/-- Write the listed bytes at consecutive addresses. -/
def writeAll (m : Memory) (address : Nat) : List UInt8 → Memory
  | [] => m
  | byte :: bytes => (m.write address byte).writeAll (address + 1) bytes

theorem read_mod (m : Memory) (address : Nat) : m.read (address % 4096) = m.read address := by
  simp [read]

/-- A word is its high byte times 256 plus its low byte. -/
theorem toNat_word (m : Memory) (address : Nat) :
    (m.word address).toNat = (m.read address).toNat * 256 + (m.read (address + 1)).toNat := by
  have hlow : (m.read (address + 1)).toNat < 2 ^ 8 := (m.read (address + 1)).toNat_lt
  have hhigh : (m.read address).toNat < 2 ^ 8 := (m.read address).toNat_lt
  have hshift : (m.read address).toNat <<< 8 = (m.read address).toNat * 256 := Nat.shiftLeft_eq _ 8
  rw [word, UInt16.toNat_or, UInt16.toNat_shiftLeft, UInt8.toNat_toUInt16, UInt8.toNat_toUInt16]
  rw [show (8 : UInt16).toNat % 16 = 8 from rfl, hshift, Nat.mod_eq_of_lt (by omega), ← hshift,
    Nat.shiftLeft_add_eq_or_of_lt hlow]

theorem read_write (m : Memory) (a b : Nat) (byte : UInt8) :
    (m.write a byte).read b = if a % 4096 = b % 4096 then byte else m.read b := by
  simp [read, write, Vector.getElem_set]

theorem read_boot (program : Program) (address : Nat) :
    (boot program).read address = bootByte program (address % 4096) := by
  simp [boot, read]

end Memory
end Chip8
