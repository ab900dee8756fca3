import Chip8.State.Basic

/-!
# Register arithmetic

The nine operations on two registers.  Both operands are read before anything is written, the result
is written first and the flag after it, so the flag stays when the destination is `VF`.
-/

namespace Chip8

/-- The result of an operation: a register takes its low byte, and `VF` the flag if there is one. -/
structure AluResult where
  value : UInt16
  flag : Option Bool

/-- The operation on the values `a` of the destination and `b` of the source.

The flag of an addition is its carry and that of a subtraction the absence of a borrow.  The shifts
move the source, and their flag is the bit that falls out. -/
def AluOp.eval (op : AluOp) (a b : UInt8) : AluResult :=
  match op with
  | .copy => ⟨b.toUInt16, none⟩
  | .or => ⟨(a ||| b).toUInt16, none⟩
  | .and => ⟨(a &&& b).toUInt16, none⟩
  | .xor => ⟨(a ^^^ b).toUInt16, none⟩
  -- Sixteen bits hold the sum and its carry.
  | .add => ⟨a.toUInt16 + b.toUInt16, some (decide (a.toUInt16 + b.toUInt16 > 0xFF))⟩
  | .sub => ⟨(a - b).toUInt16, some (decide (b ≤ a))⟩
  | .shiftRight => ⟨(b >>> 1).toUInt16, some (b &&& 1 == 1)⟩
  | .subFrom => ⟨(b - a).toUInt16, some (decide (a ≤ b))⟩
  | .shiftLeft => ⟨b.toUInt16 <<< 1, some (b >>> 7 == 1)⟩

namespace State

/-- Set the flag register, where an operation has a flag. -/
def setFlag? (s : State) : Option Bool → State
  | none => s
  | some flag => s.setFlag flag

/-- Write the result of an operation. -/
def writeResult (s : State) (x : Reg) (result : AluResult) : State :=
  (s.setRegLow x result.value).setFlag? result.flag

/-- Combine `Vx` with `Vy`. -/
def combine (s : State) (op : AluOp) (x y : Reg) : State :=
  s.writeResult x (op.eval (s.reg x) (s.reg y))

end State
end Chip8
