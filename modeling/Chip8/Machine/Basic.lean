import Chip8.Core.Basic
import Chip8.Fault
import Chip8.History
import Chip8.Random.ChaCha
import Chip8.Recording
import Chip8.Timing

/-!
# The machine

A machine is a core with a memory of its past, devices that record what they receive, and observers
that are told of every change.  A fatal fault halts it until the next program is loaded.

This module holds the machine itself, loading, and the operations that replace its state as a whole:
going back one step in the history and restoring a snapshot.
-/

namespace Chip8

/-- How a machine is set up. -/
structure Settings where
  /-- Instructions in a second. -/
  clock : Option Nat := none
  /-- The number of steps that can be taken back. -/
  historyCapacity : Nat := 2500
  /-- The seed of the random numbers. -/
  seed : Option Nat := none
  deriving DecidableEq, Repr

/-- A change of the state as observers see it. -/
inductive Event where
  /-- A step was executed. -/
  | retired
  /-- The state was replaced by an earlier one. -/
  | restored
  /-- The timers have counted down and the screen was presented. -/
  | frameEnd
  deriving DecidableEq, Repr

/-- One event as one observer received it. -/
structure Delivery where
  observer : Nat
  event : Event
  /-- The state after the change. -/
  state : State
  deriving DecidableEq

/-- The answer of an operation that executes steps: the flow of the last one. -/
abbrev Outcome := Except Fault Flow

/-- A processor with its devices, its past and its observers. -/
structure Machine where
  core : Core
  clock : Option Nat
  /-- The states before the steps that can be taken back. -/
  history : History State
  recording : Recording
  /-- The number of observers.  They are numbered from zero in the order of their registration. -/
  observers : Nat
  /-- Everything that observers received, in order. -/
  deliveries : Array Delivery
  /-- Whether a fatal fault stopped the machine. -/
  halted : Bool

namespace Machine

/-- A machine that is switched on and has no program yet.  Without a seed its random numbers come
from the given stream. -/
def new (settings : Settings) (entropy : Nat → UInt32) : Machine where
  core :=
    { state := State.powerOn
      keypad := Keypad.released
      random :=
        match settings.seed with
        | some seed => Random.start (ChaCha.stream (UInt64.ofNat seed))
        | none => Random.start entropy }
  clock := settings.clock
  history := History.empty settings.historyCapacity
  recording := Recording.empty
  observers := 0
  deliveries := #[]
  halted := false

/-- The state of the processor. -/
def state (m : Machine) : State := m.core.state

/-- The keypad that the program reads. -/
def keypad (m : Machine) : Keypad := m.core.keypad

/-- The same machine with another state of its processor. -/
def withState (m : Machine) (s : State) : Machine :=
  { m with core := { m.core with state := s } }

/-- Whole instructions in a frame. -/
def stepsPerFrame (m : Machine) : Nat :=
  Timing.stepsPerFrame m.clock

/-! ## Observers and devices -/

/-- Register one more observer, which sees what happens from now on. -/
def observe (m : Machine) : Nat × Machine :=
  (m.observers, { m with observers := m.observers + 1 })

/-- Tell every observer of a change, in the order of their registration. -/
def announce (m : Machine) (event : Event) : Machine :=
  { m with
    deliveries :=
      m.deliveries ++ (List.range m.observers).map fun observer =>
        { observer, event, state := m.state : Delivery } }

/-- Present the screen, then tell the observers why. -/
def present (m : Machine) (event : Event) : Machine :=
  { m with recording := m.recording.present m.state.screen }.announce event

/-- Press or release a key. -/
def setKey (m : Machine) (key : Key) (down : Bool) : Machine :=
  { m with core := { m.core with keypad := m.keypad.set key down } }

/-- Release all keys. -/
def releaseKeys (m : Machine) : Machine :=
  { m with core := { m.core with keypad := Keypad.released } }

/-! ## Loading -/

/-- Stop on a fatal fault and tell the host. -/
def stopOn (m : Machine) (fault : Fault) : Machine :=
  { m with halted := true, recording := m.recording.report fault }

/-- Start over with a program.  One that does not fit halts the machine and changes nothing else. -/
def load (m : Machine) (program : Program) : Except Fault Unit × Machine :=
  if program.size ≤ Memory.programCapacity then
    (.ok (), { m.withState (State.boot program) with history := m.history.clear, halted := false })
  else
    let fault := Fault.programTooLarge program.size Memory.programCapacity
    (.error fault, m.stopOn fault)

/-- Start over with the contents of a file.  Nothing happens if it could not be read. -/
def loadContents (m : Machine) : Except String Program → Except Fault Unit × Machine
  | .ok program => m.load program
  | .error text => (.error (.io text), m)

/-! ## Going back -/

/-- Take one step back, if there is one: the state becomes that before the newest step of the
history. -/
def undo (m : Machine) : Bool × Machine :=
  match m.history.pop? with
  | none => (false, m)
  | some (s, history) => (true, { m.withState s with history := history }.present .restored)

/-- Replace the state by one that was taken earlier. -/
def restore (m : Machine) (s : State) : Machine :=
  (m.withState s).present .restored

end Machine
end Chip8
