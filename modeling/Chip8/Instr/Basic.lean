import Chip8.Nibble

/-!
# Instructions

The instruction set as data.  Operands have the types of what they name, so a register operand is
one of sixteen registers and an address operand lies inside memory by construction.

Two families of opcodes share a shape, and each of them is one constructor over a small type: the
nine register-to-register operations (`AluOp`) and the six conditional skips (`Test`).
-/

namespace Chip8

/-- Two consecutive bytes of memory, as fetched. -/
abbrev Word := UInt16

/-- One of the registers `V0` to `VF`. -/
abbrev Reg := Nibble

/-- An address that an instruction word can hold: twelve bits. -/
abbrev Addr := Fin 4096

namespace Reg

/-- Register `V0`, which offsets a jump. -/
def offset : Reg := Nibble.ofNat 0

/-- Register `VF`, which receives carries, borrows and collisions. -/
def flag : Reg := Nibble.ofNat 15

end Reg

/-- The operations `8xyN` on two registers. -/
inductive AluOp where
  /-- The value of `Vy`. -/
  | copy
  | or
  | and
  | xor
  | add
  /-- The difference `Vx - Vy`. -/
  | sub
  /-- Half of `Vy`. -/
  | shiftRight
  /-- The difference `Vy - Vx`. -/
  | subFrom
  /-- Twice `Vy`. -/
  | shiftLeft
  deriving DecidableEq, Repr

/-- The conditions under which the next instruction is skipped. -/
inductive Test where
  | eqByte (x : Reg) (byte : UInt8)
  | neByte (x : Reg) (byte : UInt8)
  | eqReg (x y : Reg)
  | neReg (x y : Reg)
  /-- The key named by the register is down. -/
  | pressed (x : Reg)
  /-- The key named by the register is up. -/
  | released (x : Reg)
  deriving DecidableEq, Repr

/-- A decoded instruction. -/
inductive Instr where
  /-- Opcode `00E0`: turn every cell of the screen off. -/
  | clear
  /-- Opcode `00EE`: return from a subroutine. -/
  | ret
  /-- Opcode `1nnn`: jump. -/
  | jump (target : Addr)
  /-- Opcode `2nnn`: call a subroutine. -/
  | call (target : Addr)
  /-- Opcode `Bnnn`: jump to the sum of an address and `V0`. -/
  | jumpOffset (base : Addr)
  /-- Opcodes `3xnn`, `4xnn`, `5xy0`, `9xy0`, `Ex9E`, `ExA1`: skip one instruction if the test
  holds. -/
  | skipIf (test : Test)
  /-- Opcode `6xnn`: load a byte. -/
  | setByte (x : Reg) (byte : UInt8)
  /-- Opcode `7xnn`: add a byte and leave the flag alone. -/
  | addByte (x : Reg) (byte : UInt8)
  /-- Opcode `8xyN`: combine `Vx` with `Vy`. -/
  | alu (op : AluOp) (x y : Reg)
  /-- Opcode `Annn`: load the index register. -/
  | setIndex (target : Addr)
  /-- Opcode `Cxnn`: load a random byte under a mask. -/
  | random (x : Reg) (mask : UInt8)
  /-- Opcode `Dxyn`: draw a sprite of `rows` rows at the position held by two registers. -/
  | draw (x y : Reg) (rows : Nibble)
  /-- Opcode `Fx07`: read the delay timer. -/
  | getDelay (x : Reg)
  /-- Opcode `Fx0A`: wait for a key and load its number. -/
  | waitKey (x : Reg)
  /-- Opcode `Fx15`: set the delay timer. -/
  | setDelay (x : Reg)
  /-- Opcode `Fx18`: set the sound timer. -/
  | setSound (x : Reg)
  /-- Opcode `Fx1E`: add to the index register. -/
  | addIndex (x : Reg)
  /-- Opcode `Fx29`: point the index register at the glyph of a digit. -/
  | glyph (x : Reg)
  /-- Opcode `Fx33`: store the three decimal digits of a register. -/
  | storeDecimal (x : Reg)
  /-- Opcode `Fx55`: store `V0` to `Vx`. -/
  | storeRegs (x : Reg)
  /-- Opcode `Fx65`: load `V0` to `Vx`. -/
  | loadRegs (x : Reg)
  deriving DecidableEq, Repr

end Chip8
