import Chip8.Hex
import Chip8.Instr.Basic

/-!
# Mnemonics

The assembler text of an instruction: its name, then its operands separated by commas.  Several
instructions share a name, and their operands tell them apart, since every kind of operand has a
form of its own.
-/

namespace Chip8

/-- One operand of a mnemonic. -/
inductive Operand where
  | reg (x : Reg)
  | byte (n : UInt8)
  | addr (a : Addr)
  | nibble (n : Nibble)
  | index
  | indirect
  | delay
  | sound
  | key
  | font
  | decimal
  deriving DecidableEq, Repr

/-- Registers are `V` and a digit; bytes, addresses and nibbles have two, three digits and one. -/
def Operand.text : Operand → String
  | .reg x => "V" ++ Hex.fixed 1 x
  | .byte n => Hex.fixed 2 n.toNat
  | .addr a => Hex.fixed 3 a
  | .nibble n => Hex.fixed 1 n
  | .index => "I"
  | .indirect => "[I]"
  | .delay => "DT"
  | .sound => "ST"
  | .key => "K"
  | .font => "F"
  | .decimal => "B"

/-- The name of a register operation. -/
def AluOp.name : AluOp → String
  | .copy => "LD"
  | .or => "OR"
  | .and => "AND"
  | .xor => "XOR"
  | .add => "ADD"
  | .sub => "SUB"
  | .shiftRight => "SHR"
  | .subFrom => "SUBN"
  | .shiftLeft => "SHL"

namespace Test

/-- The name of the skip with this test. -/
def name : Test → String
  | .eqByte _ _ => "SE"
  | .neByte _ _ => "SNE"
  | .eqReg _ _ => "SE"
  | .neReg _ _ => "SNE"
  | .pressed _ => "SKP"
  | .released _ => "SKNP"

/-- What the test compares. -/
def operands : Test → List Operand
  | .eqByte x n => [.reg x, .byte n]
  | .neByte x n => [.reg x, .byte n]
  | .eqReg x y => [.reg x, .reg y]
  | .neReg x y => [.reg x, .reg y]
  | .pressed x => [.reg x]
  | .released x => [.reg x]

end Test

namespace Instr

/-- The first word of the mnemonic. -/
def name : Instr → String
  | .clear => "CLS"
  | .ret => "RET"
  | .jump _ => "JP"
  | .call _ => "CALL"
  | .jumpOffset _ => "JP"
  | .skipIf test => test.name
  | .setByte _ _ => "LD"
  | .addByte _ _ => "ADD"
  | .alu op _ _ => op.name
  | .setIndex _ => "LD"
  | .random _ _ => "RND"
  | .draw _ _ _ => "DRW"
  | .getDelay _ => "LD"
  | .waitKey _ => "LD"
  | .setDelay _ => "LD"
  | .setSound _ => "LD"
  | .addIndex _ => "ADD"
  | .glyph _ => "LD"
  | .storeDecimal _ => "LD"
  | .storeRegs _ => "LD"
  | .loadRegs _ => "LD"

/-- The operands in the order in which they are written, the destination first. -/
def operands : Instr → List Operand
  | .clear => []
  | .ret => []
  | .jump a => [.addr a]
  | .call a => [.addr a]
  | .jumpOffset a => [.reg Reg.offset, .addr a]
  | .skipIf test => test.operands
  | .setByte x n => [.reg x, .byte n]
  | .addByte x n => [.reg x, .byte n]
  | .alu _ x y => [.reg x, .reg y]
  | .setIndex a => [.index, .addr a]
  | .random x n => [.reg x, .byte n]
  | .draw x y n => [.reg x, .reg y, .nibble n]
  | .getDelay x => [.reg x, .delay]
  | .waitKey x => [.reg x, .key]
  | .setDelay x => [.delay, .reg x]
  | .setSound x => [.sound, .reg x]
  | .addIndex x => [.index, .reg x]
  | .glyph x => [.font, .reg x]
  | .storeDecimal x => [.decimal, .reg x]
  | .storeRegs x => [.indirect, .reg x]
  | .loadRegs x => [.reg x, .indirect]

/-- The name alone, or the name, a blank and the operands. -/
def mnemonic (i : Instr) : String :=
  match i.operands with
  | [] => i.name
  | operands => i.name ++ " " ++ ", ".intercalate (operands.map Operand.text)

end Instr
end Chip8
