/-!
# Flow

What a host can see of an executed step without looking at the state: where control went and which
device the step was about.
-/

namespace Chip8

/-- The kind of a successful step. -/
inductive Flow where
  /-- Control went on to the next instruction, or skipped one. -/
  | next
  /-- The program counter was loaded. -/
  | jump
  /-- The screen was drawn on or cleared. -/
  | draw
  /-- The sound timer was set. -/
  | sound
  /-- The program is suspended until a key is pressed. -/
  | waitKey
  deriving DecidableEq, Repr

/-- The name under which a trace shows a flow. -/
def Flow.name : Flow → String
  | .next => "Ok"
  | .jump => "Jump"
  | .draw => "Draw"
  | .sound => "Sound"
  | .waitKey => "KeyWait"

end Chip8
