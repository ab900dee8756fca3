import Chip8.Hex
import Chip8.Instr.Basic

/-!
# Faults

What can go wrong, by cause, and the wording of each cause in one place.  A `Trap` is what a program
does wrong; a `Fault` is a trap or a failure around the program.
-/

namespace Chip8

/-- A reason why an instruction cannot be executed.  The address is that of the instruction. -/
inductive Trap where
  | unknownOpcode (word : Word) (address : UInt16)
  | callStackOverflow (address : UInt16)
  | callStackUnderflow (address : UInt16)
  deriving DecidableEq, Repr

/-- A reason why an operation fails. -/
inductive Fault where
  /-- The program did something that has no meaning. -/
  | trap (cause : Trap)
  /-- The program does not fit into memory. -/
  | programTooLarge (size capacity : Nat)
  /-- An earlier fault stopped the machine. -/
  | halted
  /-- A file could not be read. -/
  | io (text : String)
  /-- A listing could not be written. -/
  | format
  /-- A run plan is not valid. -/
  | config (text : String)
  deriving DecidableEq, Repr

/-- The wording of a trap. -/
def Trap.message : Trap → String
  | .unknownOpcode word address =>
    "unrecognized opcode " ++ Hex.fixed 4 word.toNat ++ " at " ++ Hex.fixed 4 address.toNat
  | .callStackOverflow address => "call stack overflow at " ++ Hex.fixed 4 address.toNat
  | .callStackUnderflow address => "call stack underflow at " ++ Hex.fixed 4 address.toNat

namespace Fault

/-- The wording of a failure to write a listing. -/
def formatText : String := "an error occurred when formatting an argument"

/-- The wording of a fault. -/
def message : Fault → String
  | .trap cause => cause.message
  | .programTooLarge size capacity =>
    "program of " ++ size.repr ++ " bytes too large for VM memory (" ++ capacity.repr ++
      " bytes available)"
  | .halted => "machine is halted, load a program to continue"
  | .io text => text
  | .format => formatText
  | .config text => "configuration error: " ++ text

/-- Whether the fault stops the machine until the next program is loaded. -/
def isFatal : Fault → Bool
  | .trap _ => true
  | .programTooLarge _ _ => true
  | _ => false

/-- The wording of the failure beneath a fault that passes it on. -/
def source? : Fault → Option String
  | .io text => some text
  | .format => some formatText
  | _ => none

end Fault
end Chip8
