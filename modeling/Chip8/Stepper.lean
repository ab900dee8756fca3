import Chip8.Machine.Run

/-!
# Stepping a paused machine

A stepper executes single instructions and ends a frame after as many of them as a frame has, so the
timers keep their pace.  It can go back as far as the history of its machine reaches.
-/

namespace Chip8

/-- A paused machine and the number of steps until its next frame ends. -/
structure Stepper where
  machine : Machine
  countdown : Nat

/-- Steps in a frame of a paused machine.  Never zero, so that a slow clock ends frames as well. -/
def Machine.frameSteps (m : Machine) : Nat :=
  max m.stepsPerFrame 1

namespace Stepper

/-- Pause a machine at the start of a frame. -/
def start (m : Machine) : Stepper := ⟨m, m.frameSteps⟩

/-- Execute one instruction, and end the frame if it is the last one. -/
def forward (s : Stepper) : Outcome × Stepper :=
  match s.machine.step with
  | (.error fault, m) => (.error fault, { s with machine := m })
  | (.ok flow, m) =>
    if s.countdown - 1 = 0 then (.ok flow, ⟨m.finishFrame, m.frameSteps⟩)
    else (.ok flow, ⟨m, s.countdown - 1⟩)

/-- Take back the newest step, if there is one. -/
def backward (s : Stepper) : Bool × Stepper :=
  match s.machine.undo with
  | (false, m) => (false, { s with machine := m })
  | (true, m) => (true, ⟨m, min (s.countdown + 1) m.frameSteps⟩)

/-- Take back steps until there are none left, but no more than a number of them. -/
def backwardUpTo : Nat → Stepper → Stepper
  | 0, s => s
  | n + 1, s =>
    match s.backward with
    | (true, s) => backwardUpTo n s
    | (false, s) => s

/-- Take back every step that the history holds. -/
def backwardAll (s : Stepper) : Stepper :=
  -- Each step back takes one entry from the history.
  backwardUpTo s.machine.history.size s

end Stepper
end Chip8
