import Chip8.Fault
import Chip8.Screen

/-!
# What the devices received

A machine without real devices records what it sends to them: the frames, the sounds and the faults
that stopped it.
-/

namespace Chip8

/-- Everything that was sent to the devices. -/
structure Recording where
  /-- The frame that was presented last. -/
  frame : Option Screen
  /-- The number of frames presented. -/
  frames : Nat
  /-- The durations of all sounds, in milliseconds. -/
  cues : Array UInt32
  /-- The faults that stopped the machine. -/
  faults : Array Fault
  deriving DecidableEq

namespace Recording

/-- Nothing was sent. -/
def empty : Recording := ⟨none, 0, #[], #[]⟩

/-- Present a frame. -/
def present (r : Recording) (screen : Screen) : Recording :=
  { r with frame := some screen, frames := r.frames + 1 }

/-- Let the buzzer sound. -/
def cue (r : Recording) (millis : UInt32) : Recording :=
  { r with cues := r.cues.push millis }

/-- Let the buzzer sound, if there is something to sound. -/
def cue? (r : Recording) : Option UInt32 → Recording
  | none => r
  | some millis => r.cue millis

/-- Tell the host that a fault stopped the machine. -/
def report (r : Recording) (fault : Fault) : Recording :=
  { r with faults := r.faults.push fault }

end Recording
end Chip8
