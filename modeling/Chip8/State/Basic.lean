import Chip8.CallStack
import Chip8.Keypad
import Chip8.Memory
import Chip8.Screen
import Chip8.Timing

/-!
# The state of the processor

Everything that a program can change and that stepping backwards restores.  The keypad and the
random numbers are outside: they belong to the world, which does not run backwards.
-/

namespace Chip8

/-- Registers, timers, memory, call stack and screen. -/
structure State where
  /-- The address of the next instruction.  All sixteen bits are kept. -/
  pc : UInt16
  stack : CallStack
  regs : Vector UInt8 16
  /-- The address register `I`.  All sixteen bits are kept. -/
  index : UInt16
  delay : UInt8
  sound : UInt8
  /-- The register that waits for a key while the program is suspended. -/
  keyWait : Option Reg
  memory : Memory
  screen : Screen
  deriving DecidableEq

namespace State

/-- The state in which a program starts. -/
def boot (program : Program) : State where
  pc := UInt16.ofNat Memory.programStart
  stack := CallStack.empty
  regs := Vector.replicate 16 0
  index := 0
  delay := 0
  sound := 0
  keyWait := none
  memory := Memory.boot program
  screen := Screen.blank

/-- The state after power is switched on, before a program is loaded. -/
def powerOn : State := boot #[]

/-- The value of a register. -/
def reg (s : State) (x : Reg) : UInt8 := s.regs[x]

/-- Set a register. -/
def setReg (s : State) (x : Reg) (value : UInt8) : State :=
  { s with regs := s.regs.set x value }

/-- Set a register to the low byte of a wider value. -/
def setRegLow (s : State) (x : Reg) (value : UInt16) : State :=
  s.setReg x value.toUInt8

/-- Set the flag register to one or zero. -/
def setFlag (s : State) (flag : Bool) : State :=
  s.setReg Reg.flag (if flag then 1 else 0)

/-- Go on to the next instruction. -/
def advance (s : State) : State := { s with pc := s.pc + 2 }

/-- Count both timers down. -/
def countDown (s : State) : State :=
  { s with delay := Timing.countDown s.delay, sound := Timing.countDown s.sound }

/-- The word at the program counter, wrapped to memory. -/
def fetch (s : State) : Word := s.memory.word s.pc.toNat

theorem reg_setReg (s : State) (x y : Reg) (value : UInt8) :
    (s.setReg x value).reg y = if x = y then value else s.reg y := by
  simp only [setReg, reg, Fin.getElem_fin, Vector.getElem_set, Fin.ext_iff]

end State
end Chip8
