import Chip8.Command
import Chip8.Proofs.Machine.Batch

/-!
# Playback — a plan frame by frame

`RunPlan.before` is the machine before each frame of a plan, and `RunPlan.started` the machine on
which the frame is executed, with the key changes of the frame made.  Either every frame succeeds,
and a play ends with the machine after the last one, or there is a first frame that fails
(`RunPlan.FailsAt`), and the play ends there.  On a running machine it is a trap that makes a frame
fail, and the machine is left as it was before the instruction that met the trap.
-/

namespace Chip8

/-- What a report tells, leaving aside the pace of its frames. -/
structure Report.Says (report : Report) (status : Nat) (output : String)
    (complaints : List Complaint) : Prop where
  status_eq : report.status = status
  output_eq : report.output = output
  complaints_eq : report.complaints = complaints

namespace Machine

variable {m n : Machine} {flow : Flow}

end Machine

namespace RunPlan

variable {plan plan' : RunPlan} {m n : Machine} {flow : Flow} {fault : Fault} {frame first count : Nat}

/-- The machine before a frame, if all frames before it succeed. -/
def before (plan : RunPlan) (m : Machine) : (frame : Nat) → Machine
  | 0 => m
  | frame + 1 => (plan.playFrame frame (plan.before m frame)).2

/-- The machine that executes a frame: the keys that change before the frame have changed. -/
def started (plan : RunPlan) (m : Machine) (frame : Nat) : Machine :=
  applyKeys (plan.before m frame) (plan.changesBefore frame)

/-- All frames before a frame succeed. -/
def Reaches (plan : RunPlan) (m : Machine) (frame : Nat) : Prop :=
  ∀ earlier < frame, (plan.playFrame earlier (plan.before m earlier)).1.isOk = true

/-- A frame of the plan is the first to fail. -/
structure FailsAt (plan : RunPlan) (m : Machine) (frame : Nat) : Prop where
  lt : frame < plan.frames
  reaches : plan.Reaches m frame
  fails : (plan.playFrame frame (plan.before m frame)).1.isOk = false

theorem Reaches.mono {earlier : Nat} (h : plan.Reaches m frame) (hle : earlier ≤ frame) :
    plan.Reaches m earlier :=
  fun f hf => h f (Nat.lt_of_lt_of_le hf hle)

theorem Reaches.ok {earlier : Nat} (h : plan.Reaches m frame) (hlt : earlier < frame) :
    ∃ flow, plan.playFrame earlier (plan.before m earlier) =
      (.ok flow, plan.before m (earlier + 1)) := by
  have hok := h earlier hlt
  cases hplay : plan.playFrame earlier (plan.before m earlier) with
  | mk outcome next =>
    rw [hplay] at hok
    cases outcome with
    | error fault => cases hok
    | ok flow => exact ⟨flow, by rw [before, hplay]⟩

theorem Reaches.succ (h : plan.Reaches m frame)
    (hok : (plan.playFrame frame (plan.before m frame)).1.isOk = true) :
    plan.Reaches m (frame + 1) := by
  intro earlier hlt
  rcases Nat.lt_succ_iff_lt_or_eq.mp hlt with hlt | rfl
  · exact h earlier hlt
  · exact hok

end RunPlan

namespace Command

open RunPlan

variable {files : Files} {entropy : Nat → UInt32} {program : String} {rest : List String}
  {plan : RunPlan} {m n : Machine} {fault : Fault} {frame : Nat}

/-! ## The report on a run -/

/-- The machine of a run, after the attempt to load the program. -/
def loaded (files : Files) (entropy : Nat → UInt32) (program : String) (plan : RunPlan) : Machine :=
  ((Machine.new plan.settings entropy).loadContents (files program)).2

end Command
end Chip8
