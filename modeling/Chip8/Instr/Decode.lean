import Chip8.Instr.Basic

/-!
# Decoding instruction words

A word has an opcode in its highest nibble and operands at fixed places below it.  `Instr.decode?`
reads a word as the one instruction it stands for, and refuses the words that stand for none: the
machine-code calls `0nnn`, and every word whose unused bits are not those of an instruction.
-/

namespace Chip8
namespace Word

/-- The highest nibble, which selects the family of instructions. -/
def opcode (w : Word) : Nat := w.toNat / 4096

/-- The register named by the second nibble. -/
def x (w : Word) : Reg := Nibble.ofNat (w.toNat / 256)

/-- The register named by the third nibble. -/
def y (w : Word) : Reg := Nibble.ofNat (w.toNat / 16)

/-- The lowest nibble. -/
def nibble (w : Word) : Nibble := Nibble.ofNat w.toNat

/-- The lower byte. -/
def byte (w : Word) : UInt8 := w.toUInt8

/-- The lowest twelve bits. -/
def addr (w : Word) : Addr := Fin.ofNat 4096 w.toNat

end Word

/-- The operation that the lowest nibble of `8xyN` selects. -/
def AluOp.ofNibble? : Nat → Option AluOp
  | 0x0 => some .copy
  | 0x1 => some .or
  | 0x2 => some .and
  | 0x3 => some .xor
  | 0x4 => some .add
  | 0x5 => some .sub
  | 0x6 => some .shiftRight
  | 0x7 => some .subFrom
  | 0xE => some .shiftLeft
  | _ => none

namespace Instr

/-- The instructions `ExNN`, which test the key named by a register. -/
def ofKeyTest? (x : Reg) : Nat → Option Instr
  | 0x9E => some (.skipIf (.pressed x))
  | 0xA1 => some (.skipIf (.released x))
  | _ => none

/-- The instructions `FxNN`, which have one register and a selecting byte. -/
def ofSelector? (x : Reg) : Nat → Option Instr
  | 0x07 => some (.getDelay x)
  | 0x0A => some (.waitKey x)
  | 0x15 => some (.setDelay x)
  | 0x18 => some (.setSound x)
  | 0x1E => some (.addIndex x)
  | 0x29 => some (.glyph x)
  | 0x33 => some (.storeDecimal x)
  | 0x55 => some (.storeRegs x)
  | 0x65 => some (.loadRegs x)
  | _ => none

/-- The instruction that a word stands for, if it stands for one. -/
def decode? (w : Word) : Option Instr :=
  match w.opcode with
  | 0x0 => if w = 0x00E0 then some .clear else if w = 0x00EE then some .ret else none
  | 0x1 => some (.jump w.addr)
  | 0x2 => some (.call w.addr)
  | 0x3 => some (.skipIf (.eqByte w.x w.byte))
  | 0x4 => some (.skipIf (.neByte w.x w.byte))
  | 0x5 => if w.nibble.val = 0 then some (.skipIf (.eqReg w.x w.y)) else none
  | 0x6 => some (.setByte w.x w.byte)
  | 0x7 => some (.addByte w.x w.byte)
  | 0x8 => (AluOp.ofNibble? w.nibble).map fun op => .alu op w.x w.y
  | 0x9 => if w.nibble.val = 0 then some (.skipIf (.neReg w.x w.y)) else none
  | 0xA => some (.setIndex w.addr)
  | 0xB => some (.jumpOffset w.addr)
  | 0xC => some (.random w.x w.byte)
  | 0xD => some (.draw w.x w.y w.nibble)
  | 0xE => ofKeyTest? w.x w.byte.toNat
  | 0xF => ofSelector? w.x w.byte.toNat
  | _ => none

end Instr
end Chip8
