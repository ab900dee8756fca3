import Chip8.Core.Arithmetic
import Chip8.Core.Basic
import Chip8.Fault
import Chip8.Instr.Decode
import Chip8.Timing

/-!
# Executing instructions

`Core.execute` gives the meaning of every instruction, and `Core.step` fetches, decodes and executes
the one at the program counter.  While a key wait is pending a step does nothing but poll the
keypad.

Three things can go wrong, and each of them is a `Trap`: the word stands for no instruction, a call
finds no free cell on the stack, or a return finds no open call.
-/

namespace Chip8

namespace State

/-- The decimal digits of a byte, hundreds first. -/
def decimalDigits (n : UInt8) : List UInt8 :=
  [n / 100 % 10, n / 10 % 10, n % 10]

/-- Store the decimal digits of a register at the index. -/
def storeDecimal (s : State) (x : Reg) : State :=
  { s with memory := s.memory.writeAll s.index.toNat (decimalDigits (s.reg x)) }

/-- Move the index past the bytes of `V0` to `Vx`. -/
def skipRegs (s : State) (x : Reg) : State :=
  { s with index := s.index + UInt16.ofNat (x.val + 1) }

/-- Store `V0` to `Vx` at the index, and move the index past them. -/
def storeRegs (s : State) (x : Reg) : State :=
  { s with
    memory := s.memory.writeAll s.index.toNat (s.regs.toList.take (x.val + 1)) }.skipRegs x

/-- Load `V0` to `Vx` from the index, and move the index past them. -/
def loadRegs (s : State) (x : Reg) : State :=
  { s with
    regs := Vector.ofFn fun k =>
      if k ≤ x then s.memory.read (s.index.toNat + k) else s.reg k }.skipRegs x

/-- Draw the sprite at the index, and set the flag if a cell went off. -/
def drawSprite (s : State) (x y : Reg) (rows : Nat) : State :=
  let drawn := s.screen.draw (s.reg x).toNat (s.reg y).toNat (s.memory.slice s.index.toNat rows)
  { s with screen := drawn.screen }.setFlag drawn.erased

/-- Point the index at the glyph of a register's low digit. -/
def selectGlyph (s : State) (x : Reg) : State :=
  { s with index := (s.reg x &&& 0xF).toUInt16 * UInt16.ofNat Memory.glyphHeight }

end State

namespace Core

/-- Execute an instruction that lies at the program counter. -/
def execute (c : Core) (i : Instr) : Except Trap Retired :=
  let s := c.state
  -- Where control goes unless the instruction says otherwise.
  let next := s.advance
  match i with
  | .clear => .ok (c.retire { next with screen := Screen.blank } .draw)
  | .ret =>
    match s.stack.pop? with
    | none => .error (.callStackUnderflow s.pc)
    | some (address, stack) => .ok (c.retire { s with pc := address, stack := stack } .jump)
  | .jump target => .ok (c.retire { s with pc := UInt16.ofNat target } .jump)
  | .call target =>
    -- The subroutine returns to the instruction after the call.
    match s.stack.push? next.pc with
    | none => .error (.callStackOverflow s.pc)
    | some stack => .ok (c.retire { s with pc := UInt16.ofNat target, stack := stack } .jump)
  | .jumpOffset base =>
    .ok (c.retire { s with pc := UInt16.ofNat base + (s.reg Reg.offset).toUInt16 } .jump)
  | .skipIf test => .ok (c.retire (if test.holds s c.keypad then next.advance else next) .next)
  | .setByte x n => .ok (c.retire (next.setReg x n) .next)
  | .addByte x n => .ok (c.retire (next.setRegLow x ((s.reg x).toUInt16 + n.toUInt16)) .next)
  | .alu op x y => .ok (c.retire (next.combine op x y) .next)
  | .setIndex target => .ok (c.retire { next with index := UInt16.ofNat target } .next)
  | .random x mask =>
    -- A random number is taken even where the mask lets nothing of it through.
    let random := c.random.byte
    let c := { c with random := c.random.advance }
    .ok (c.retire (next.setReg x (random &&& mask)) .next)
  | .draw x y rows => .ok (c.retire (next.drawSprite x y rows) .draw)
  | .getDelay x => .ok (c.retire (next.setReg x s.delay) .next)
  -- Control stays here until a key is down, which may be at once.
  | .waitKey x => .ok ({ c with state := { s with keyWait := some x } }.answerWait x)
  | .setDelay x => .ok (c.retire { next with delay := s.reg x } .next)
  | .setSound x =>
    .ok { c.retire { next with sound := s.reg x } .sound with
          cue := if s.reg x = 0 then none else some (Timing.buzzerMillis (s.reg x)) }
  | .addIndex x => .ok (c.retire { next with index := s.index + (s.reg x).toUInt16 } .next)
  | .glyph x => .ok (c.retire (next.selectGlyph x) .next)
  | .storeDecimal x => .ok (c.retire (next.storeDecimal x) .next)
  | .storeRegs x => .ok (c.retire (next.storeRegs x) .next)
  | .loadRegs x => .ok (c.retire (next.loadRegs x) .next)

/-- Execute the instruction at the program counter, or poll the keypad while a key wait is
pending. -/
def step (c : Core) : Except Trap Retired :=
  match c.state.keyWait with
  | some x => .ok (c.answerWait x)
  | none =>
    match Instr.decode? c.state.fetch with
    | none => .error (.unknownOpcode c.state.fetch c.state.pc)
    | some i => c.execute i

end Core
end Chip8
