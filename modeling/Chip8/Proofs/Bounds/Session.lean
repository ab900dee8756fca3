import Chip8.Proofs.Bounds.Core
import Chip8.Proofs.Machine.Failure
import Chip8.Proofs.Undo

/-!
# Sessions stay in bounds

The operations of a host once more, composed of checked steps: loading copies into ranges of memory,
the buzzer is cued for a product of 32 bits, and a stepper counts down and up.  Everything else that a
host asks for reads or computes nothing that could be out of bounds.

What a session keeps is `Stepper.InBounds`.  It holds when the power is switched on, every operation
preserves it (`Stepper.InBounds.perform`), and where it holds every operation is equal to its checked
form (`Stepper.InBounds.perform?_eq`).
-/

namespace Chip8

open Checked

/-! ## What a session keeps -/

/-- The depth, the key wait and the screen of a state are what the rest relies on. -/
structure State.InBounds (s : State) : Prop where
  depth : s.stack.depth ≤ CallStack.capacity
  keyWait : ∀ x, s.keyWait = some x → x.val < 16
  cells : ∀ c : Cell, s.screen.bytes.get c = 0 ∨ s.screen.bytes.get c = 1

/-- Registers have the width of their names and cells are on or off, so only the depth is open. -/
theorem State.inBounds_of_depth {s : State} (h : s.stack.depth ≤ CallStack.capacity) :
    s.InBounds :=
  ⟨h, fun x _ => x.isLt, s.screen.bytes_binary⟩

theorem boundsInvariant : StateInvariant State.InBounds where
  boot program := State.inBounds_of_depth (stackInvariant.boot program)
  step := by
    intro c r h hstep
    exact State.inBounds_of_depth (stackInvariant.step h.depth hstep)
  countDown h := State.inBounds_of_depth (stackInvariant.countDown h.depth)

/-- A session whose numbers and positions are all where they have to be.  A clock is a number of 64
bits, which leaves room to count up from the length of a frame. -/
structure Stepper.InBounds (s : Stepper) : Prop where
  states : s.machine.Holds State.InBounds
  history : s.machine.history.size ≤ s.machine.history.capacity
  positive : 1 ≤ s.countdown
  countdown : s.countdown ≤ s.machine.frameSteps
  clock : ∀ hz, s.machine.clock = some hz → hz < UInt64.size

/-! ## Checked operations -/

namespace Machine

def step? (m : Machine) : Option (Outcome × Machine) :=
  if m.halted then some (.error .halted, m)
  else do
    match ← m.core.step? with
    | .ok r => return (.ok r.flow, m.commit r)
    | .error cause => return (.error (.trap cause), m.stopOn (.trap cause))

def stepsFrom? (flow : Flow) : Nat → Machine → Option (Outcome × Machine)
  | 0, m => some (.ok flow, m)
  | n + 1, m => do
    match ← m.step? with
    | (.ok flow, m) => stepsFrom? flow n m
    | (.error fault, m) => return (.error fault, m)

def cueBuzzer? (m : Machine) : Option Machine :=
  if m.state.sound = 0 then some m
  else do
    let millis ← Timing.buzzerMillis? m.state.sound
    return { m with recording := m.recording.cue millis }

def finishFrame? (m : Machine) : Option Machine := do
  let m ← (m.withState m.state.countDown).cueBuzzer?
  return m.present .frameEnd

def frame? (m : Machine) (instructions : Nat) : Option (Outcome × Machine) := do
  match ← stepsFrom? .next instructions m with
  | (.ok flow, m) => do
    let m ← m.finishFrame?
    return (.ok flow, m)
  | (.error fault, m) => return (.error fault, m)

/-- Only a program that fits is copied. -/
def load? (m : Machine) (program : Program) : Option (Except Fault Unit × Machine) :=
  if program.size ≤ Memory.programCapacity then do
    let memory ← Memory.boot? program
    let s := { State.boot program with memory := memory }
    return (.ok (), { m.withState s with history := m.history.clear, halted := false })
  else
    some (m.load program)

def act? (m : Machine) : Action → Option (Answer × Machine)
  | .load (.ok program) => do
    let (result, m) ← m.load? program
    return (.loaded result, m)
  | .step => do
    let (outcome, m) ← m.step?
    return (.ran outcome, m)
  | .finishFrame => do
    let m ← m.finishFrame?
    return (.done, m)
  | a => some (m.answer a, m.act a)

variable {m : Machine}

theorem step?_eq (h : m.Holds State.InBounds) : m.step? = some m.step := by
  have hcore : m.core.step? = some m.core.step := Core.step?_eq h.1.depth
  cases hhalt : m.halted with
  | true => simp [step?, step, hhalt]
  | false =>
    simp only [step?, step, hhalt, hcore, Option.bind_eq_bind, Option.bind_some]
    cases m.core.step <;> rfl

theorem stepsFrom?_eq (h : m.Holds State.InBounds) (flow : Flow) (n : Nat) :
    stepsFrom? flow n m = some (stepsFrom flow n m) := by
  -- By induction on the steps, each of which leaves the machine in bounds for the next.
  induction n generalizing m flow with
  | zero => rfl
  | succ n ih =>
    have hnext : m.step.2.Holds State.InBounds :=
      holds_act boundsInvariant h (a := .step) fun s hs => by cases hs
    rw [stepsFrom?, step?_eq h, stepsFrom]
    cases hstep : m.step with
    | mk outcome next =>
      rw [hstep] at hnext
      cases outcome with
      | ok flow => exact ih hnext flow
      | error fault => rfl

theorem finishFrame?_eq (m : Machine) : m.finishFrame? = some m.finishFrame := by
  have hcue (n : Machine) : n.cueBuzzer? = some n.cueBuzzer := by
    by_cases hsilent : n.state.sound = 0 <;>
      simp [cueBuzzer?, cueBuzzer, hsilent, Timing.buzzerMillis?_eq]
  rw [finishFrame?, hcue]
  rfl

theorem frame?_eq (h : m.Holds State.InBounds) (instructions : Nat) :
    m.frame? instructions = some (m.frame instructions) := by
  rw [frame?, stepsFrom?_eq h, frame, steps]
  cases stepsFrom .next instructions m with
  | mk outcome next =>
    cases outcome with
    | ok flow => simp [finishFrame?_eq]
    | error fault => rfl

theorem load?_eq (m : Machine) (program : Program) : m.load? program = some (m.load program) := by
  by_cases hfits : program.size ≤ Memory.programCapacity
  · simp only [load?, load, hfits, if_true, Memory.boot?_of_fits hfits]
    rfl
  · simp only [load?, hfits, if_false]

theorem act?_eq (h : m.Holds State.InBounds) (a : Action) :
    m.act? a = some (m.answer a, m.act a) := by
  cases a with
  | load contents =>
    cases contents with
    | error text => rfl
    | ok program =>
      simp only [act?, load?_eq, Option.bind_eq_bind, Option.bind_some]
      rfl
  | step =>
    simp only [act?, step?_eq h, Option.bind_eq_bind, Option.bind_some]
    rfl
  | finishFrame =>
    simp only [act?, finishFrame?_eq, Option.bind_eq_bind, Option.bind_some]
    rfl
  | _ => rfl

theorem frameSteps_lt (hclock : ∀ hz, m.clock = some hz → hz < UInt64.size) :
    m.frameSteps + 1 < UInt64.size := by
  have hwide : 120 ≤ UInt64.size := by decide
  simp only [frameSteps, stepsPerFrame, Timing.stepsPerFrame, Timing.frameRate]
  cases hset : m.clock with
  | none =>
    simp only [Option.getD_none, Timing.defaultClock]
    omega
  | some hz =>
    have hfits := hclock hz hset
    simp only [Option.getD_some]
    omega

end Machine

namespace Stepper

def forward? (s : Stepper) : Option (Outcome × Stepper) := do
  match ← s.machine.step? with
  | (.error fault, m) => return (.error fault, { s with machine := m })
  | (.ok flow, m) => do
    let countdown ← subSize s.countdown 1
    if countdown = 0 then
      -- The next frame has the length that the machine says after this one.
      let m ← m.finishFrame?
      return (.ok flow, ⟨m, m.frameSteps⟩)
    else
      return (.ok flow, ⟨m, countdown⟩)

def backward? (s : Stepper) : Option (Bool × Stepper) :=
  match s.machine.undo with
  | (false, m) => some (false, { s with machine := m })
  | (true, m) => do
    let countdown ← addSize s.countdown 1
    return (true, ⟨m, min countdown m.frameSteps⟩)

def perform? (s : Stepper) : Operation → Option (Answer × Stepper)
  | .act a => do
    let (answer, m) ← s.machine.act? a
    return (answer, { s with machine := m })
  | .steps n => do
    let (outcome, m) ← Machine.stepsFrom? .next n s.machine
    return (.ran outcome, { s with machine := m })
  | .frame instructions => do
    let (outcome, m) ← s.machine.frame? instructions
    return (.ran outcome, { s with machine := m })
  | .clockedFrame => do
    let (outcome, m) ← s.machine.frame? s.machine.stepsPerFrame
    return (.ran outcome, { s with machine := m })
  | .forward => do
    let (outcome, s) ← s.forward?
    return (.ran outcome, s)
  | .backward => do
    let (changed, s) ← s.backward?
    return (.undone changed, s)
  | op => some (s.perform op)

variable {s : Stepper}

theorem InBounds.forward?_eq (h : s.InBounds) : s.forward? = some s.forward := by
  rw [forward?, Machine.step?_eq h.states, forward]
  cases s.machine.step with
  | mk outcome m =>
    cases outcome with
    | error fault => rfl
    | ok flow =>
      have hlength : m.finishFrame.frameSteps = m.frameSteps :=
        Machine.frameSteps_eq (Machine.clock_finishFrame m)
      simp only [Option.bind_eq_bind, Option.bind_some, subSize_of_le h.positive,
        Machine.finishFrame?_eq, hlength]
      split <;> rfl

theorem InBounds.backward?_eq (h : s.InBounds) : s.backward? = some s.backward := by
  have hlength := Machine.frameSteps_lt h.clock
  have hfits : s.countdown + 1 < UInt64.size := by
    have := h.countdown
    omega
  rw [backward?, backward]
  cases s.machine.undo with
  | mk changed m =>
    cases changed with
    | false => rfl
    | true =>
      simp only [addSize_of_lt hfits]
      rfl

/-- Every operation of a session in bounds is equal to its checked form. -/
theorem InBounds.perform?_eq (h : s.InBounds) (op : Operation) :
    s.perform? op = some (s.perform op) := by
  cases op with
  | act a =>
    simp only [perform?, Machine.act?_eq h.states, Option.bind_eq_bind, Option.bind_some]
    rfl
  | steps n =>
    simp only [perform?, Machine.stepsFrom?_eq h.states, Option.bind_eq_bind, Option.bind_some]
    rfl
  | frame instructions =>
    simp only [perform?, Machine.frame?_eq h.states, Option.bind_eq_bind, Option.bind_some]
    rfl
  | clockedFrame =>
    simp only [perform?, Machine.frame?_eq h.states, Option.bind_eq_bind, Option.bind_some]
    rfl
  | snapshot => rfl
  | pause => rfl
  | forward =>
    simp only [perform?, h.forward?_eq, Option.bind_eq_bind, Option.bind_some]
    rfl
  | backward =>
    simp only [perform?, h.backward?_eq, Option.bind_eq_bind, Option.bind_some]
    rfl

/-! ## Bounds are kept -/

theorem inBounds_powerOn {settings : Settings}
    (hclock : ∀ hz, settings.clock = some hz → hz < UInt64.size) (entropy : Nat → UInt32) :
    (powerOn settings entropy).InBounds where
  states := (Reachable.new settings entropy).invariant boundsInvariant
  history := Nat.zero_le _
  positive := Nat.le_max_right _ _
  countdown := Nat.le_refl _
  clock := hclock

/-- Operations keep a session in bounds, as long as only states in bounds are restored. -/
theorem InBounds.perform (h : s.InBounds) {op : Operation}
    (hrestore : ∀ t, op = .act (.restore t) → t.InBounds) : (s.perform op).2.InBounds := by
  have hrestored : ∀ t, Action.restore t ∈ s.actions op → t.InBounds := by
    intro t ht
    rcases Operation.needs_cases (mem_needs_of_mem_actions ht) with hop | hop | hop | hop
    · exact hrestore t hop
    all_goals cases hop
  have hframe : (s.perform op).2.InFrame := InFrame.perform ⟨h.positive, h.countdown⟩ op
  refine ⟨?_, ?_, hframe.positive, hframe.within, ?_⟩
  · rw [machine_perform]
    exact Machine.holds_acts boundsInvariant h.states hrestored
  · rw [machine_perform]
    exact Machine.historySize_acts h.history _
  · rw [machine_perform, Machine.clock_acts]
    exact h.clock

theorem InBounds.run (h : s.InBounds) {ops : List Operation}
    (hrestore : ∀ t, Operation.act (.restore t) ∈ ops → t.InBounds) : (s.run ops).InBounds := by
  induction ops generalizing s with
  | nil => exact h
  | cons op ops ih =>
    have hfirst : (s.perform op).2.InBounds := by
      refine h.perform fun t ht => hrestore t ?_
      rw [ht]
      exact List.mem_cons_self
    exact ih hfirst fun t ht => hrestore t (List.mem_cons_of_mem op ht)

/-- Sessions stay in bounds.

However a session came about from a machine that was just switched on, where only states of reachable
machines are restored: the call stack is no deeper than it can be, a pending key wait names a
register, every cell is zero or one, the history is no larger than its capacity, and the countdown
lies between one and the length of a frame.  And whatever the host asks for next, no access is
outside of the cells it goes to and no number too wide, nor where the host looks at the open calls and
at the screen. -/
theorem sessions_stay_in_bounds {settings : Settings}
    (hclock : ∀ hz, settings.clock = some hz → hz < UInt64.size) (entropy : Nat → UInt32)
    {ops : List Operation}
    (hrestore : ∀ t, Operation.act (.restore t) ∈ ops → ∃ n, Reachable n ∧ n.state = t) :
    let s := (powerOn settings entropy).run ops
    s.InBounds ∧ (∀ op, s.perform? op = some (s.perform op)) ∧
      s.machine.state.stack.calls? = some s.machine.state.stack.toList ∧
      ∀ x y, s.machine.state.screen.byte? x y =
        some (s.machine.state.screen.get (Cell.wrap x y)).toUInt8 := by
  intro s
  have hs : s.InBounds := by
    refine (inBounds_powerOn hclock entropy).run ?_
    intro t ht
    rcases hrestore t ht with ⟨n, hn, rfl⟩
    exact (hn.invariant boundsInvariant).1
  exact ⟨hs, hs.perform?_eq, CallStack.calls?_eq hs.states.1.depth, Screen.byte?_eq _⟩

/-- A session that steps into a call and back, and then restores the state inside of the call. -/
theorem sessions_stay_in_bounds_of_call :
    let settings : Settings := { clock := some 600 }
    let program : Program := #[0x22, 0x00]
    let m := ((Machine.new {} fun _ => 0).act (.load (.ok program))).act .step
    let ops := [.act (.load (.ok program)), .pause, .forward, .backward,
      .act (.restore m.state), .clockedFrame]
    let s := (powerOn settings fun _ => 0).run ops
    s.InBounds ∧ ∀ op, s.perform? op = some (s.perform op) := by
  intro settings program m ops s
  have hclock : ∀ hz, settings.clock = some hz → hz < UInt64.size := by
    intro hz hset
    cases hset
    decide
  have hm : Reachable m :=
    ((Reachable.new {} _).act _ fun t ht => by cases ht).act _ fun t ht => by cases ht
  have hrestore : ∀ t, Operation.act (.restore t) ∈ ops → ∃ n, Reachable n ∧ n.state = t := by
    intro t ht
    obtain rfl : t = m.state := by simpa [ops] using ht
    exact ⟨m, hm, rfl⟩
  rcases sessions_stay_in_bounds hclock (fun _ => 0) hrestore with ⟨hbounds, hperform, _, _⟩
  exact ⟨hbounds, hperform⟩

end Stepper
end Chip8
