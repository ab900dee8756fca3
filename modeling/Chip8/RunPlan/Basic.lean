import Chip8.Machine.Run

/-!
# Run plans

A run plan says how a machine is set up, how many frames it runs and which keys go down or up before
which frame.  Playing a plan is a fold over its frames that stops at the first fault.
-/

namespace Chip8

/-- A key that goes down or up before a frame. -/
structure KeyChange where
  frame : Nat
  key : Key
  down : Bool
  deriving DecidableEq, Repr

/-- A run without a host at the keyboard. -/
structure RunPlan where
  settings : Settings := {}
  /-- The number of frames to run. -/
  frames : Nat := 600
  /-- Whether the frames are paced at the frame rate.  It has no part in what the run computes. -/
  throttle : Bool := false
  keys : List KeyChange := []
  deriving DecidableEq, Repr

namespace RunPlan

/-- The key changes before a frame, in the order of the plan. -/
def changesBefore (plan : RunPlan) (frame : Nat) : List KeyChange :=
  plan.keys.filter fun change => change.frame == frame

/-- Make the listed key changes one after the other. -/
def applyKeys (m : Machine) (changes : List KeyChange) : Machine :=
  changes.foldl (fun m change => m.setKey change.key change.down) m

/-- Run one frame of a plan. -/
def playFrame (plan : RunPlan) (frame : Nat) (m : Machine) : Outcome × Machine :=
  (applyKeys m (plan.changesBefore frame)).clockedFrame

/-- Run a number of frames from a given one on, until one fails. -/
def playFrom (plan : RunPlan) (flow : Flow) (frame : Nat) : (count : Nat) → Machine →
    Outcome × Machine
  | 0, m => (.ok flow, m)
  | count + 1, m =>
    match plan.playFrame frame m with
    | (.ok flow, m) => playFrom plan flow (frame + 1) count m
    | (.error fault, m) => (.error fault, m)

/-- Run all frames of a plan. -/
def play (plan : RunPlan) (m : Machine) : Outcome × Machine :=
  playFrom plan .next 0 plan.frames m

end RunPlan
end Chip8
