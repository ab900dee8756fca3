import Chip8.Flow
import Chip8.Random.Source
import Chip8.State.Basic

/-!
# The core

The core is the state of the processor together with the two inputs that instructions read: the
keypad and the random numbers.  A step yields the next core, a flow and possibly a sound, as one
value (`Retired`), so a step that fails has changed nothing.
-/

namespace Chip8

/-- The processor and its inputs. -/
structure Core where
  state : State
  keypad : Keypad
  random : Random

/-- The outcome of a step that was executed. -/
structure Retired where
  core : Core
  flow : Flow
  /-- The milliseconds for which the buzzer is to sound. -/
  cue : Option UInt32

namespace Core

/-- A step that changes nothing but the state. -/
def retire (c : Core) (s : State) (flow : Flow) : Retired :=
  ⟨{ c with state := s }, flow, none⟩

/-- Finish the key wait of a register, if a key is down.

The lowest key goes into the register and is released, so holding it down satisfies no second
wait. -/
def answerWait (c : Core) (x : Reg) : Retired :=
  match c.keypad.first? with
  | none => c.retire c.state .waitKey
  | some key =>
    { core :=
        { c with
          state := { (c.state.setReg x (UInt8.ofNat key)).advance with keyWait := none }
          keypad := c.keypad.release key }
      flow := .next
      cue := none }

end Core

/-- Whether a test holds.  The low four bits of a register name the key it tests. -/
def Test.holds (test : Test) (s : State) (keypad : Keypad) : Bool :=
  match test with
  | .eqByte x n => s.reg x == n
  | .neByte x n => s.reg x != n
  | .eqReg x y => s.reg x == s.reg y
  | .neReg x y => s.reg x != s.reg y
  | .pressed x => keypad.isDown (Nibble.ofNat (s.reg x).toNat)
  | .released x => !keypad.isDown (Nibble.ofNat (s.reg x).toNat)

end Chip8
