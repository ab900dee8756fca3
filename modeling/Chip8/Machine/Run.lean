import Chip8.Core.Execute
import Chip8.Machine.Basic

/-!
# Steps and frames

A step records the state before it, so that it can be taken back.  A frame is a batch of steps after
which the timers count down, the buzzer is cued and the screen is presented; a fault in the batch
leaves the frame unfinished.
-/

namespace Chip8
namespace Machine

/-- Take over an executed step: remember the state before it and tell devices and observers. -/
def commit (m : Machine) (r : Retired) : Machine :=
  { m with
    core := r.core
    -- The state as it was before the step.
    history := m.history.push m.state
    recording := m.recording.cue? r.cue }.announce .retired

/-- Execute one instruction. -/
def step (m : Machine) : Outcome × Machine :=
  if m.halted then (.error .halted, m)
  else
    match m.core.step with
    | .ok r => (.ok r.flow, m.commit r)
    | .error cause => (.error (.trap cause), m.stopOn (.trap cause))

/-- Execute instructions until one fails, and answer with the flow of the last one, or with the
given flow if there is none. -/
def stepsFrom (flow : Flow) : Nat → Machine → Outcome × Machine
  | 0, m => (.ok flow, m)
  | n + 1, m =>
    match m.step with
    | (.ok flow, m) => stepsFrom flow n m
    | (.error fault, m) => (.error fault, m)

/-- Execute a number of instructions outside of any frame. -/
def steps (m : Machine) (n : Nat) : Outcome × Machine :=
  stepsFrom .next n m

/-- Let the buzzer sound for what is left of the sound timer. -/
def cueBuzzer (m : Machine) : Machine :=
  if m.state.sound = 0 then m
  else { m with recording := m.recording.cue (Timing.buzzerMillis m.state.sound) }

/-- End a frame: count the timers down, cue the buzzer and present the screen. -/
def finishFrame (m : Machine) : Machine :=
  (m.withState m.state.countDown).cueBuzzer.present .frameEnd

/-- Execute a frame of the given number of instructions. -/
def frame (m : Machine) (instructions : Nat) : Outcome × Machine :=
  match m.steps instructions with
  | (.ok flow, m) => (.ok flow, m.finishFrame)
  | (.error fault, m) => (.error fault, m)

/-- Execute a frame at the machine's clock. -/
def clockedFrame (m : Machine) : Outcome × Machine :=
  m.frame m.stepsPerFrame

end Machine
end Chip8
