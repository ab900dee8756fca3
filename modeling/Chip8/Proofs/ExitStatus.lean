import Mathlib.Data.Nat.Digits.Defs
import Chip8.Proofs.Playback
import Chip8.Proofs.SelfCheck

/-!
# Exit status — what decides the end of a command

A report is decided in stages: the arguments are a command or not (`Command.Misused`), the files that
it names can be read or not, the program fits or not, and the machine gets to the end or meets a trap.
`Command.RunAnswer` and `Command.StepAnswer` say for each stage what the report tells if the command
ends there, and `Command.PlayAnswer` and `Command.TraceAnswer` say it for the machine.  A machine that
plays or traces was never stopped before, so nobody hears of a halted machine.

What is printed is told by its lines: those of the usage (`Command.UsageAnswer`), of the machine at the
end of a run (`Machine.ShownBy`), and of the steps of a trace (`Stepper.Shows`).
-/

namespace Chip8

/-! ## Counts -/

namespace Numeral

end Numeral

namespace Command

open Listing Numeral RunPlan Stepper

/-- Nothing is printed but the usage, which has these lines. -/
structure UsageAnswer (report : Report) : Prop where
  status_eq : report.status = 64
  lines_eq : lines report.output = List.map String.toList
    ["Chip8 v0.1.0",
     "",
     "usage: chip8 CMD ROM [ARGS]",
     "",
     "commands:",
     "    run     Run the target ROM file headless, then print the display",
     "    step    Execute single instructions, then rewind them all",
     "",
     "examples:",
     "    chip8 run breakout.rom",
     "    chip8 run breakout.rom breakout.yaml",
     "    chip8 step breakout.rom 20",
     "",
     ""]
  complaints_eq : report.complaints = []
  pacedFrames_eq : report.pacedFrames = 0

/-- How a play is answered. -/
inductive PlayAnswer (plan : RunPlan) (m : Machine) (report : Report) : Prop where
  /-- All frames succeed, and the machine is shown behind the last one. -/
  | completed (text : String) (hreach : plan.Reaches m plan.frames)
      (htext : (plan.before m plan.frames).ShownBy text) (h : report.Says 0 text [])
  /-- A frame is the first to fail.  The machine is shown as the instruction found it that met the
  trap, in the middle of the frame. -/
  | trapped (text : String) (frame k : Nat) (cause : Trap) (hfails : plan.FailsAt m frame)
      (hk : k < (plan.started m frame).stepsPerFrame)
      (hok : ∀ i < k, ((plan.started m frame).after i).step.1.isOk = true)
      (htrap : ((plan.started m frame).after k).step.1 = .error (.trap cause))
      (htext : ((plan.started m frame).after k).ShownBy text)
      (h : report.Says 65 text [.fault (.trap cause)])

/-- How a run is answered, stage by stage. -/
structure RunAnswer (files : Files) (entropy : Nat → UInt32) (program : String)
    (path : Option String) (report : Report) : Prop where
  unreadable_plan : ∀ name text, path = some name → files name = .error text →
    report.Says 74 "" [.fault (.io text)]
  garbled_plan : ∀ name bytes, path = some name → files name = .ok bytes →
    String.fromUTF8? ⟨bytes⟩ = none →
    report.Says 74 "" [.fault (.io "stream did not contain valid UTF-8")]
  invalid_plan : ∀ name bytes text cause, path = some name → files name = .ok bytes →
    String.fromUTF8? ⟨bytes⟩ = some text → RunPlan.ofText text = .error cause →
    report.Says 78 "" [.fault (.config cause.message)]
  unreadable_program : ∀ plan text, readPlan files path = .ok plan →
    files program = .error text → report.Says 74 "" [.fault (.io text)]
  large_program : ∀ plan rom, readPlan files path = .ok plan → files program = .ok rom →
    3584 < rom.size → report.Says 65 "" [.fault (.programTooLarge rom.size 3584)]
  played : ∀ plan rom, readPlan files path = .ok plan → files program = .ok rom →
    rom.size ≤ 3584 → PlayAnswer plan (loaded files entropy program plan) report

/-- How a trace is answered. -/
inductive TraceAnswer (s : Stepper) (count : Nat) (report : Report) : Prop where
  /-- All steps succeed. -/
  | completed (entries : List String) (hok : s.Succeeds count) (hshows : s.Shows count entries)
      (h : report.Says 0 (String.join entries) [])
  /-- A step is the first to fail, and those before it are shown. -/
  | trapped (k : Nat) (cause : Trap) (entries : List String) (hk : k < count) (hok : s.Succeeds k)
      (htrap : (s.ahead k).forward.1 = .error (.trap cause)) (hshows : s.Shows k entries)
      (h : report.Says 65 (String.join entries) [.fault (.trap cause)])

/-- How single steps are answered, stage by stage. -/
structure StepAnswer (files : Files) (entropy : Nat → UInt32) (program : String) (count : Nat)
    (report : Report) : Prop where
  unreadable_program : ∀ text, files program = .error text →
    report.Says 74 "" [.fault (.io text)]
  large_program : ∀ rom, files program = .ok rom → 3584 < rom.size →
    report.Says 65 "" [.fault (.programTooLarge rom.size 3584)]
  traced : ∀ rom, files program = .ok rom → rom.size ≤ 3584 →
    TraceAnswer (start ((Machine.new { historyCapacity := count } entropy).load rom).2) count report

/-- The report tells of success without a complaint, or of one fault with the status of that fault;
the fault is a failure to read, an invalid plan, a large program or a trap. -/
inductive Ends (report : Report) : Prop where
  | success (output : String) (h : report.Says 0 output [])
  | unreadable (text : String) (h : report.Says 74 "" [.fault (.io text)])
  | invalid (text : String) (h : report.Says 78 "" [.fault (.config text)])
  | large (size : Nat) (h : report.Says 65 "" [.fault (.programTooLarge size 3584)])
  | trapped (output : String) (cause : Trap) (h : report.Says 65 output [.fault (.trap cause)])

theorem RunAnswer.ends {files : Files} {entropy : Nat → UInt32} {program : String}
    {path : Option String} {report : Report}
    (h : RunAnswer files entropy program path report) : Ends report := by
  cases hplan : readPlan files path with
  | error fault =>
    cases path with
    | none => cases hplan
    | some name =>
      cases hname : files name with
      | error text => exact .unreadable text (h.unreadable_plan name text rfl hname)
      | ok bytes =>
        cases htext : String.fromUTF8? ⟨bytes⟩ with
        | none => exact .unreadable _ (h.garbled_plan name bytes rfl hname htext)
        | some text =>
          cases hread : RunPlan.ofText text with
          | error cause => exact .invalid _ (h.invalid_plan name bytes text cause rfl hname htext hread)
          | ok plan => simp [readPlan, hname, htext, hread] at hplan
  | ok plan =>
    cases hfile : files program with
    | error text => exact .unreadable text (h.unreadable_program plan text hplan hfile)
    | ok rom =>
      rcases Nat.lt_or_ge 3584 rom.size with hlarge | hfits
      · exact .large rom.size (h.large_program plan rom hplan hfile hlarge)
      · cases h.played plan rom hplan hfile hfits with
        | completed _ _ _ hsays => exact .success _ hsays
        | trapped _ _ _ cause _ _ _ _ _ hsays => exact .trapped _ cause hsays

theorem StepAnswer.ends {files : Files} {entropy : Nat → UInt32} {program : String} {count : Nat}
    {report : Report} (h : StepAnswer files entropy program count report) : Ends report := by
  cases hfile : files program with
  | error text => exact .unreadable text (h.unreadable_program text hfile)
  | ok rom =>
    rcases Nat.lt_or_ge 3584 rom.size with hlarge | hfits
    · exact .large rom.size (h.large_program rom hfile hlarge)
    · cases h.traced rom hfile hfits with
      | completed _ _ _ hsays => exact .success _ hsays
      | trapped _ cause _ _ _ _ _ hsays => exact .trapped _ cause hsays

/-- What every report has in common: its status is one of five, it does not complain of a halted
machine, and there is one complaint unless the command succeeded or the arguments were no command. -/
structure Sound (report : Report) : Prop where
  status_mem : report.status ∈ [0, 64, 65, 74, 78]
  not_halted : .fault .halted ∉ report.complaints
  complaints_length :
    report.complaints.length = if report.status = 0 ∨ report.status = 64 then 0 else 1

theorem Ends.sound {report : Report} (h : Ends report) : Sound report ∧ report.status ≠ 64 := by
  rcases h with ⟨_, h⟩ | ⟨_, h⟩ | ⟨_, h⟩ | ⟨_, h⟩ | ⟨_, _, h⟩
  all_goals
    refine ⟨⟨?_, ?_, ?_⟩, ?_⟩
    · simp [h.status_eq]
    · simp [h.complaints_eq]
    · simp [h.status_eq, h.complaints_eq]
    · simp [h.status_eq]

theorem UsageAnswer.sound {report : Report} (h : UsageAnswer report) : Sound report := by
  refine ⟨?_, ?_, ?_⟩
  · simp [h.status_eq]
  · simp [h.complaints_eq]
  · simp [h.status_eq, h.complaints_eq]

/-! ## Runs in known states -/

section KnownState

variable {plan : RunPlan} {m : Machine} {s : State} {text : String} {report : Report} {delay : UInt8}

end KnownState

/-! ## The report -/

end Command
end Chip8
