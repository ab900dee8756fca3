import Chip8.Files
import Chip8.Listing
import Chip8.Numeral
import Chip8.RunPlan.Reader
import Chip8.Stepper

/-!
# The command line

A command is read from the arguments and answered with a report: what to print, what to complain
about, and the exit status.  Files and random numbers are parameters, so a report is a function of
them; only the outermost layer touches the world.
-/

namespace Chip8

/-- What the command line asks for. -/
inductive Command where
  /-- Run a program to a plan, then show the machine. -/
  | run (program : String) (plan : Option String)
  /-- Execute single steps, then take all of them back. -/
  | step (program : String) (count : Nat)
  deriving DecidableEq, Repr

/-- Something that went wrong, as a host is told of it. -/
inductive Complaint where
  | fault (cause : Fault)
  /-- Taking all steps back did not lead to the state before the first one. -/
  | notRestored (steps : Nat)
  deriving DecidableEq, Repr

/-- The wording of a complaint. -/
def Complaint.message : Complaint → String
  | .fault cause => cause.message
  | .notRestored steps =>
    "rewinding " ++ steps.repr ++ " steps did not restore the initial state"

/-- The answer to a command. -/
structure Report where
  status : Nat
  output : String
  complaints : List Complaint
  /-- The number of frames that are shown at the frame rate before the output is. -/
  pacedFrames : Nat
  deriving DecidableEq

/-! ## Reading the arguments -/

namespace Command

/-- A count of steps: decimal digits, a plus before them if you like, in 64 bits. -/
def readCount? (text : String) : Option Nat :=
  match Numeral.value? 10 (Numeral.afterPlus text.toList) with
  | some count => if count < RunPlan.wordLimit then some count else none
  | none => none

/-- The command that the arguments stand for.  Arguments after those of a command are ignored. -/
def ofArgs? : List String → Option Command
  | name :: program :: rest =>
    if name = "run" then some (.run program rest.head?)
    else if name = "step" then
      match rest with
      | count :: _ => (readCount? count).map (.step program)
      | [] => none
    else none
  | _ => none

/-- What is printed where the arguments are no command. -/
def usage : String :=
  unlines
    ["Chip8 v0.1.0",
     "",
     "usage: chip8 CMD ROM [ARGS]",
     "",
     "commands:",
     "    run     Run the target ROM file headless, then print the display",
     "    step    Execute single instructions, then rewind them all",
     "",
     "examples:",
     "    chip8 run breakout.rom",
     "    chip8 run breakout.rom breakout.yaml",
     "    chip8 step breakout.rom 20",
     ""]

end Command

/-! ## Reports -/

/-- The exit status of a command that ends with a fault: whether the program, a file or the plan is
to blame. -/
def Fault.exitStatus : Fault → Nat
  | .trap _ => 65
  | .programTooLarge _ _ => 65
  | .io _ => 74
  | .config _ => 78
  | _ => 1

namespace Report

/-- Everything went well. -/
def success (output : String) : Report := ⟨0, output, [], 0⟩

/-- The command ended with a fault. -/
def failure (output : String) (fault : Fault) : Report :=
  ⟨fault.exitStatus, output, [.fault fault], 0⟩

/-- The arguments are no command. -/
def misuse : Report := ⟨64, Command.usage, [], 0⟩

end Report

/-! ## Running a plan -/

/-- The text in which the end of a run is shown: screen, registers and keys. -/
def Machine.finalListing (m : Machine) : String :=
  unlines [m.state.screen.listing, m.state.listing, m.keypad.listing]

namespace Command

/-- The plan in a file, or the default plan where no file is named. -/
def readPlan (files : Files) : Option String → Except Fault RunPlan
  | none => .ok {}
  | some path =>
    match files path with
    | .error text => .error (.io text)
    | .ok bytes =>
      match String.fromUTF8? ⟨bytes⟩ with
      | none => .error (.io "stream did not contain valid UTF-8")
      | some text =>
        match RunPlan.ofText text with
        | .ok plan => .ok plan
        | .error cause => .error (.config cause.message)

/-- Play a plan and show how it ended, whether with a fault or not. -/
def playReport (plan : RunPlan) (m : Machine) : Report :=
  match plan.play m with
  | (.ok _, m) =>
    { Report.success m.finalListing with
      pacedFrames := if plan.throttle then m.recording.frames else 0 }
  | (.error fault, m) =>
    { Report.failure m.finalListing fault with
      pacedFrames := if plan.throttle then m.recording.frames else 0 }

/-- The report on a run.  The plan is read before the program. -/
def runReport (files : Files) (entropy : Nat → UInt32) (program : String) (plan : Option String) :
    Report :=
  match readPlan files plan with
  | .error fault => .failure "" fault
  | .ok plan =>
    match (Machine.new plan.settings entropy).loadContents (files program) with
    | (.error fault, _) => .failure "" fault
    | (.ok _, m) => playReport plan m

/-! ## Stepping -/

/-- What a trace shows of a step: its flow and the registers after it. -/
def traceEntry (flow : Flow) (s : State) : String :=
  unlines [flow.name, s.listing, ""]

/-- Take steps until one fails.  `taken` holds the entries of the steps so far. -/
def walk (taken : Array String) : Nat → Stepper → Option Fault × Array String × Stepper
  | 0, s => (none, taken, s)
  | count + 1, s =>
    match s.forward with
    | (.ok flow, s) => walk (taken.push (traceEntry flow s.machine.state)) count s
    | (.error fault, s) => (some fault, taken, s)

/-- Trace a number of steps of a loaded machine, then take them back and compare. -/
def traceReport (m : Machine) (count : Nat) : Report :=
  match walk #[] count (Stepper.start m) with
  | (some fault, taken, _) => .failure (String.join taken.toList) fault
  | (none, taken, s) =>
    -- The history is as long as the trace, so it reaches back to the start.
    if s.backwardAll.machine.state = m.state then .success (String.join taken.toList)
    else ⟨70, String.join taken.toList, [.notRestored count], 0⟩

/-- The report on single steps, of which as many can be taken back as are taken. -/
def stepReport (files : Files) (entropy : Nat → UInt32) (program : String) (count : Nat) : Report :=
  match (Machine.new { historyCapacity := count } entropy).loadContents (files program) with
  | (.error fault, _) => .failure "" fault
  | (.ok _, m) => traceReport m count

/-- The report on a command. -/
def report (files : Files) (entropy : Nat → UInt32) : Command → Report
  | .run program plan => runReport files entropy program plan
  | .step program count => stepReport files entropy program count

end Command

/-- The report on a list of arguments. -/
def Report.ofArgs (args : List String) (files : Files) (entropy : Nat → UInt32) : Report :=
  match Command.ofArgs? args with
  | some command => command.report files entropy
  | none => .misuse

end Chip8
