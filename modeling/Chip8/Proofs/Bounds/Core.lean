import Chip8.Proofs.Bounds.Drawing
import Chip8.Proofs.Machine.Step

/-!
# Checked steps of the core

The instructions once more, composed of checked accesses: registers, memory, the call stack and the
display buffer are reached by position, and every number that is computed without wrapping around
has to fit into its width.  `Core.step?` yields nothing if one access or one number of a step is out
of bounds.

It never does, as long as the call stack is no deeper than its cells reach (`Core.step?_eq`).  All
other bounds come from the widths of the operands: a register operand is below sixteen, a sprite has
at most fifteen rows, an address operand has twelve bits, and everything else is a byte.
-/

namespace Chip8

open Checked

/-! ## Registers and the program counter -/

namespace State

def reg? (s : State) (x : Nat) : Option UInt8 := s.regs[x]?

def writeReg? (s : State) (x : Nat) (value : UInt8) : Option State := do
  let regs ← store s.regs x value
  return { s with regs := regs }

def writeRegLow? (s : State) (x : Nat) (value : UInt16) : Option State :=
  s.writeReg? x value.toUInt8

def writeFlag? (s : State) (flag : Bool) : Option State :=
  s.writeReg? 15 (if flag then 1 else 0)

def fetch? (s : State) : Option Word := do
  let second ← addSize s.pc.toNat 1
  let high ← s.memory.read? (s.pc.toNat % 4096)
  let low ← s.memory.read? (second % 4096)
  return high.toUInt16 <<< 8 ||| low.toUInt16

@[simp] theorem reg?_val (s : State) (x : Reg) : s.reg? x.val = some (s.reg x) :=
  Vector.getElem?_eq_getElem x.isLt

@[simp] theorem writeReg?_val (s : State) (x : Reg) (value : UInt8) :
    s.writeReg? x.val value = some (s.setReg x value) := by
  rw [writeReg?, store_of_lt _ _ x.isLt]
  rfl

@[simp] theorem writeRegLow?_val (s : State) (x : Reg) (value : UInt16) :
    s.writeRegLow? x.val value = some (s.setRegLow x value) :=
  s.writeReg?_val x value.toUInt8

@[simp] theorem writeFlag?_eq (s : State) (flag : Bool) : s.writeFlag? flag = some (s.setFlag flag) :=
  s.writeReg?_val Reg.flag _

theorem fetch?_eq (s : State) : s.fetch? = some s.fetch := by
  have hpc : s.pc.toNat < 0x10000 := s.pc.toNat_lt
  rw [fetch?, addSize_of_small (by omega)]
  simp only [Option.bind_eq_bind, Option.bind_some, Memory.read?_mod]
  rfl

end State

/-! ## The call stack

The outer option is that of the accesses, the inner one that of the call stack: a return without an
open call and a call without a free cell are in bounds, and refused.
-/

namespace CallStack

def leave? (s : CallStack) : Option (Option (UInt16 × CallStack)) :=
  match s.depth with
  | 0 => some none
  | depth + 1 => do
    let address ← s.cells[depth]?
    return some (address, ⟨s.cells, depth⟩)

def enter? (s : CallStack) (address : UInt16) : Option (Option CallStack) :=
  if capacity ≤ s.depth then some none
  else do
    let cells ← store s.cells s.depth address
    let depth ← addSize s.depth 1
    return some ⟨cells, depth⟩

/-- The addresses in use, cut out of the cells. -/
def calls? (s : CallStack) : Option (List UInt16) := front s.cells s.depth

theorem calls?_eq {s : CallStack} (hdepth : s.depth ≤ capacity) : s.calls? = some s.toList :=
  front_of_le s.cells hdepth

theorem leave?_eq {s : CallStack} (hdepth : s.depth ≤ capacity) : s.leave? = some s.pop? := by
  rcases s with ⟨cells, depth⟩
  cases depth with
  | zero => rfl
  | succ depth =>
    have hinside : depth < 12 := hdepth
    simp [leave?, pop?, Vector.getElem?_eq_getElem hinside]

/-- A thirteenth address would lie behind the cells. -/
example : (CallStack.mk (Vector.replicate 12 0) 13).leave? = none := rfl

theorem enter?_eq (s : CallStack) (address : UInt16) :
    s.enter? address = some (s.push? address) := by
  by_cases hroom : s.depth < 12
  · have hfree : ¬ capacity ≤ s.depth := Nat.not_le.mpr hroom
    rw [enter?, if_neg hfree, store_of_lt _ _ hroom, addSize_of_small (by omega)]
    simp [push?, hroom]
  · have hfull : capacity ≤ s.depth := Nat.not_lt.mp hroom
    rw [enter?, if_pos hfull, (push?_eq_none_iff s address).mpr hfull]

end CallStack

/-! ## Operands and results -/

def Timing.buzzerMillis? (sound : UInt8) : Option UInt32 := do
  let scaled ← mul32 sound.toUInt32 1000
  return scaled / 60

theorem Timing.buzzerMillis?_eq (sound : UInt8) :
    buzzerMillis? sound = some (buzzerMillis sound) := by
  have hbyte : sound.toUInt32.toNat < 256 := by
    rw [UInt8.toNat_toUInt32]
    exact sound.toNat_lt
  have hfits : sound.toUInt32.toNat * (1000 : UInt32).toNat < 0x100000000 := by
    rw [show (1000 : UInt32).toNat = 1000 from rfl]
    omega
  rw [buzzerMillis?, mul32, fit_of_lt hfits]
  rfl

def Test.holds? (test : Test) (s : State) (keypad : Keypad) : Option Bool :=
  match test with
  | .eqByte x n => do
    let a ← s.reg? x
    return a == n
  | .neByte x n => do
    let a ← s.reg? x
    return a != n
  | .eqReg x y => do
    let a ← s.reg? x
    let b ← s.reg? y
    return a == b
  | .neReg x y => do
    let a ← s.reg? x
    let b ← s.reg? y
    return a != b
  | .pressed x => do
    let key ← s.reg? x
    return keypad.isDown (Nibble.ofNat key.toNat)
  | .released x => do
    let key ← s.reg? x
    return !keypad.isDown (Nibble.ofNat key.toNat)

theorem Test.holds?_eq (test : Test) (s : State) (keypad : Keypad) :
    test.holds? s keypad = some (test.holds s keypad) := by
  cases test <;> simp [holds?, holds]

/-- Only an addition computes a number that could be too wide. -/
def AluOp.eval? (op : AluOp) (a b : UInt8) : Option AluResult :=
  match op with
  | .add => do
    let sum ← add16 a.toUInt16 b.toUInt16
    return ⟨sum, some (decide (sum > 0xFF))⟩
  | op => some (op.eval a b)

theorem AluOp.eval?_eq (op : AluOp) (a b : UInt8) : op.eval? a b = some (op.eval a b) := by
  cases op with
  | add =>
    rw [eval?, add16_bytes]
    rfl
  | _ => rfl

/-! ## What instructions do to the state -/

namespace State

def combine? (s : State) (op : AluOp) (x y : Reg) : Option State := do
  let a ← s.reg? x
  let b ← s.reg? y
  let result ← op.eval? a b
  let s ← s.writeRegLow? x result.value
  match result.flag with
  | none => return s
  | some flag => s.writeFlag? flag

def addByte? (s : State) (x : Reg) (n : UInt8) : Option State := do
  let a ← s.reg? x
  let sum ← add16 a.toUInt16 n.toUInt16
  s.writeRegLow? x sum

def jumpOffset? (s : State) (base : Addr) : Option State := do
  let offset ← s.reg? 0
  let pc ← add16 (UInt16.ofNat base) offset.toUInt16
  return { s with pc := pc }

def storeDecimal? (s : State) (x : Reg) : Option State := do
  let n ← s.reg? x
  let hundreds ← s.indexed? 0
  let tens ← s.indexed? 1
  let ones ← s.indexed? 2
  let memory ← s.memory.write? hundreds (n / 100 % 10)
  let memory ← memory.write? tens (n / 10 % 10)
  let memory ← memory.write? ones (n % 10)
  return { s with memory := memory }

def skipRegs? (s : State) (x : Reg) : Option State := do
  let count ← add16 (UInt16.ofNat x) 1
  return { s with index := s.index + count }

def storeRegs? (s : State) (x : Reg) : Option State := do
  let memory ← s.spill? (x + 1)
  { s with memory := memory }.skipRegs? x

def loadRegs? (s : State) (x : Reg) : Option State := do
  let regs ← s.fill? s.regs (x + 1)
  { s with regs := regs }.skipRegs? x

def drawSprite? (s : State) (x y : Reg) (rows : Nat) : Option State := do
  let column ← s.reg? x
  let line ← s.reg? y
  -- The rows are gathered before anything is drawn.
  let buffer ← s.fill? (Vector.replicate 16 0) rows
  let sprite ← front buffer rows
  let drawn ← (Screen.Buffer.mk s.screen.bytes false).drawRows? column.toNat line.toNat 0 sprite
  let screen ← Screen.ofBytes? drawn.cells
  { s with screen := screen }.writeFlag? drawn.erased

def selectGlyph? (s : State) (x : Reg) : Option State := do
  let digit ← s.reg? x
  let offset ← mul16 (digit &&& 0xF).toUInt16 (UInt16.ofNat Memory.glyphHeight)
  let address ← add16 0 offset
  return { s with index := address }

theorem combine?_eq (s : State) (op : AluOp) (x y : Reg) :
    s.combine? op x y = some (s.combine op x y) := by
  simp only [combine?, reg?_val, AluOp.eval?_eq, writeRegLow?_val, Option.bind_eq_bind,
    Option.bind_some, combine, writeResult]
  cases (op.eval (s.reg x) (s.reg y)).flag with
  | none => rfl
  | some flag => exact writeFlag?_eq _ flag

theorem addByte?_eq (s : State) (x : Reg) (n : UInt8) :
    s.addByte? x n = some (s.setRegLow x ((s.reg x).toUInt16 + n.toUInt16)) := by
  simp [addByte?, add16_bytes]

theorem jumpOffset?_eq (s : State) (base : Addr) :
    s.jumpOffset? base =
      some { s with pc := UInt16.ofNat base + (s.reg Reg.offset).toUInt16 } := by
  have hoffset : s.reg? 0 = some (s.reg Reg.offset) := s.reg?_val Reg.offset
  have hbase : (UInt16.ofNat base).toNat < 4096 := by
    have htwelve := base.isLt
    rw [UInt16.toNat_ofNat']
    omega
  rw [jumpOffset?, hoffset, Option.bind_eq_bind, Option.bind_some, add16_byte hbase]
  rfl

theorem storeDecimal?_eq (s : State) (x : Reg) :
    s.storeDecimal? x = some (s.storeDecimal x) := by
  simp [storeDecimal?, indexed?_of_lt, Memory.write?_mod, storeDecimal, decimalDigits,
    Memory.writeAll]

theorem skipRegs?_eq (s : State) (x : Reg) : s.skipRegs? x = some (s.skipRegs x) := by
  have hx := x.isLt
  have hfits : (UInt16.ofNat x).toNat + (1 : UInt16).toNat < 0x10000 := by
    rw [UInt16.toNat_ofNat', show (1 : UInt16).toNat = 1 from rfl]
    omega
  rw [skipRegs?, add16, fit_of_lt hfits, skipRegs, UInt16.ofNat_add]
  rfl

theorem storeRegs?_eq (s : State) (x : Reg) : s.storeRegs? x = some (s.storeRegs x) := by
  rw [storeRegs?, spill?_of_le s x.isLt, Option.bind_eq_bind, Option.bind_some, skipRegs?_eq]
  rfl

theorem loadRegs?_eq (s : State) (x : Reg) : s.loadRegs? x = some (s.loadRegs x) := by
  have hfilled : s.filled s.regs (x + 1) =
      Vector.ofFn fun k => if k ≤ x then s.memory.read (s.index.toNat + k) else s.reg k := by
    simp only [filled, Nat.lt_succ_iff, Fin.le_def]
    rfl
  rw [loadRegs?, fill?_of_le s _ x.isLt, Option.bind_eq_bind, Option.bind_some, skipRegs?_eq,
    hfilled]
  rfl

theorem drawSprite?_eq (s : State) (x y : Reg) {rows : Nat} (h : rows ≤ 16) :
    s.drawSprite? x y rows = some (s.drawSprite x y rows) := by
  have hx : (s.reg x).toNat < 256 := (s.reg x).toNat_lt
  have hy : (s.reg y).toNat < 256 := (s.reg y).toNat_lt
  have hlength : (s.memory.slice s.index.toNat rows).length = rows := by
    simp [Memory.slice]
  have hend : (s.reg y).toNat + 0 + (s.memory.slice s.index.toNat rows).length < 0x100000000 := by
    omega
  have hdrawn := Screen.drawRows?_buffer ⟨s.screen, false⟩ 0 _ hx hend
  simp only [drawSprite?, reg?_val, Option.bind_eq_bind, Option.bind_some, fill?_of_le s _ h,
    front_of_le _ h, take_filled s _ h]
  rw [show Screen.Buffer.mk s.screen.bytes false = (Screen.Drawn.mk s.screen false).buffer from rfl,
    hdrawn]
  simp only [Option.bind_some, Screen.Drawn.buffer, Screen.ofBytes?_bytes, writeFlag?_eq]
  rfl

theorem selectGlyph?_eq (s : State) (x : Reg) : s.selectGlyph? x = some (s.selectGlyph x) := by
  have hbyte := toNat_byte_lt (s.reg x &&& 0xF)
  have hheight : (UInt16.ofNat Memory.glyphHeight).toNat = 5 := rfl
  have hproduct : (s.reg x &&& 0xF).toUInt16.toNat * (UInt16.ofNat Memory.glyphHeight).toNat <
      0x10000 := by
    rw [hheight]
    omega
  have hsum (offset : UInt16) : add16 0 offset = some offset := by
    have hfits : (0 : UInt16).toNat + offset.toNat < UInt16.size := by
      simpa using offset.toNat_lt
    rw [add16, fit_of_lt hfits, UInt16.zero_add]
  rw [selectGlyph?, reg?_val, Option.bind_eq_bind, Option.bind_some, mul16, fit_of_lt hproduct,
    Option.bind_eq_bind, Option.bind_some, hsum]
  rfl

end State

/-! ## Executing an instruction -/

namespace Core

def answerWait? (c : Core) (x : Reg) : Option Retired :=
  match c.keypad.first? with
  | none => some (c.retire c.state .waitKey)
  | some key => do
    let s ← c.state.writeReg? x (UInt8.ofNat key)
    return {
      core :=
        { c with
          state := { s.advance with keyWait := none }
          keypad := c.keypad.release key }
      flow := .next
      cue := none }

def execute? (c : Core) (i : Instr) : Option (Except Trap Retired) :=
  let s := c.state
  let next := s.advance
  match i with
  -- Nothing is read or computed here.
  | .clear => some (c.execute .clear)
  | .jump target => some (c.execute (.jump target))
  | .setIndex target => some (c.execute (.setIndex target))
  | .ret => do
    match ← s.stack.leave? with
    | none => return .error (.callStackUnderflow s.pc)
    | some (address, stack) =>
      return .ok (c.retire { s with pc := address, stack := stack } .jump)
  | .call target => do
    match ← s.stack.enter? next.pc with
    | none => return .error (.callStackOverflow s.pc)
    | some stack =>
      return .ok (c.retire { s with pc := UInt16.ofNat target, stack := stack } .jump)
  | .jumpOffset base => do
    let s ← s.jumpOffset? base
    return .ok (c.retire s .jump)
  | .skipIf test => do
    let skips ← test.holds? s c.keypad
    return .ok (c.retire (if skips then next.advance else next) .next)
  | .setByte x n => do
    let s ← next.writeReg? x n
    return .ok (c.retire s .next)
  | .addByte x n => do
    let s ← next.addByte? x n
    return .ok (c.retire s .next)
  | .alu op x y => do
    let s ← next.combine? op x y
    return .ok (c.retire s .next)
  | .random x mask => do
    let s ← next.writeReg? x (c.random.byte &&& mask)
    return .ok ({ c with random := c.random.advance }.retire s .next)
  | .draw x y rows => do
    let s ← next.drawSprite? x y rows
    return .ok (c.retire s .draw)
  | .getDelay x => do
    let s ← next.writeReg? x s.delay
    return .ok (c.retire s .next)
  | .waitKey x => do
    let r ← { c with state := { s with keyWait := some x } }.answerWait? x
    return .ok r
  | .setDelay x => do
    let delay ← s.reg? x
    return .ok (c.retire { next with delay := delay } .next)
  | .setSound x => do
    let sound ← s.reg? x
    let r := c.retire { next with sound := sound } .sound
    if sound = 0 then
      return .ok r
    else
      let millis ← Timing.buzzerMillis? sound
      return .ok { r with cue := some millis }
  | .addIndex x => do
    let offset ← s.reg? x
    return .ok (c.retire { next with index := s.index + offset.toUInt16 } .next)
  | .glyph x => do
    let s ← next.selectGlyph? x
    return .ok (c.retire s .next)
  | .storeDecimal x => do
    let s ← next.storeDecimal? x
    return .ok (c.retire s .next)
  | .storeRegs x => do
    let s ← next.storeRegs? x
    return .ok (c.retire s .next)
  | .loadRegs x => do
    let s ← next.loadRegs? x
    return .ok (c.retire s .next)

def step? (c : Core) : Option (Except Trap Retired) :=
  match c.state.keyWait with
  | some x => do
    let r ← c.answerWait? x
    return .ok r
  | none => do
    let word ← c.state.fetch?
    match Instr.decode? word with
    | none => return .error (.unknownOpcode word c.state.pc)
    | some i => c.execute? i

theorem answerWait?_eq (c : Core) (x : Reg) : c.answerWait? x = some (c.answerWait x) := by
  unfold answerWait? answerWait
  cases c.keypad.first? with
  | none => rfl
  | some key => simp

/-- Every access of an instruction is in bounds, and so is every number it computes. -/
theorem execute?_eq {c : Core} (hdepth : c.state.stack.depth ≤ CallStack.capacity) (i : Instr) :
    c.execute? i = some (c.execute i) := by
  -- Only a return relies on the depth; the other instructions on the widths of their operands.
  cases i with
  | clear => rfl
  | jump target => rfl
  | setIndex target => rfl
  | ret =>
    simp only [execute?, execute, CallStack.leave?_eq hdepth, Option.bind_eq_bind, Option.bind_some]
    cases c.state.stack.pop? <;> rfl
  | call target =>
    simp only [execute?, execute, CallStack.enter?_eq, Option.bind_eq_bind, Option.bind_some]
    cases c.state.stack.push? c.state.advance.pc <;> rfl
  | draw x y rows =>
    have hrows : rows.val ≤ 16 := Nat.le_of_lt rows.isLt
    simp [execute?, execute, State.drawSprite?_eq _ x y hrows]
  | waitKey x => simp [execute?, execute, answerWait?_eq]
  | setSound x =>
    by_cases hsilent : c.state.reg x = 0 <;>
      simp [execute?, execute, Timing.buzzerMillis?_eq, hsilent, retire]
  | addByte x n =>
    simp only [execute?, State.addByte?_eq, Option.bind_eq_bind, Option.bind_some]
    rfl
  | _ =>
    simp [execute?, execute, State.jumpOffset?_eq, Test.holds?_eq, State.combine?_eq,
      State.selectGlyph?_eq, State.storeDecimal?_eq, State.storeRegs?_eq, State.loadRegs?_eq]

theorem step?_eq {c : Core} (hdepth : c.state.stack.depth ≤ CallStack.capacity) :
    c.step? = some c.step := by
  cases hwait : c.state.keyWait with
  | some x => simp [step?, hwait, answerWait?_eq, step_of_waiting hwait]
  | none =>
    cases hword : Instr.decode? c.state.fetch with
    | none => simp [step?, hwait, State.fetch?_eq, hword, step_of_unknown hwait hword]
    | some i =>
      simp [step?, hwait, State.fetch?_eq, hword, step_of_decoded hwait hword, execute?_eq hdepth]

end Core
end Chip8
