import Chip8.Proofs.Frames
import Chip8.Proofs.Stepping

/-!
# Known states — programs step by step

A program that neither waits for a key nor takes random numbers can be followed from state to state,
whatever the rest of the machine is like: `State.Moves` says where one instruction leads, and
`State.Stuck` that there is none.  A machine that runs in a known state (`Machine.RunsIn`) follows the
moves, and so does a stepper, which counts the steps that are left in its frame (`Stepper.RunsIn`).  If
the program comes to a move that leads back to where it started, it goes on for any number of steps,
and only the timers change (`Stepper.RunsIn.stays`).

`Program.timed` is such a program: it sets the delay timer, and one more word of it can be chosen.
-/

namespace Chip8

/-! ## Moves -/

namespace State

/-- The instruction at the program counter leads from one state to another with this flow, and without
a sound, whatever the rest of the core is. -/
structure Moves (s : State) (flow : Flow) (t : State) : Prop where
  free : s.keyWait = none
  executes : ∃ i, Instr.decode? s.fetch = some i ∧
    ∀ c : Core, c.state = s → c.execute i = .ok (c.retire t flow)

/-- The word at the program counter is no instruction. -/
structure Stuck (s : State) (word : Word) : Prop where
  free : s.keyWait = none
  fetch_eq : s.fetch = word
  unknown : Instr.decode? word = none

variable {s t : State} {flow : Flow} {program : Program} {k : Nat} {i : Instr}

/-- While memory is that of the start, a word is fetched from two bytes of the program. -/
theorem toNat_fetch_of_boot (hmemory : s.memory = Memory.boot program)
    (hpc : s.pc.toNat = 0x200 + k) (hroom : k + 1 < 3584) :
    s.fetch.toNat = (program.getD k 0).toNat * 256 + (program.getD (k + 1) 0).toNat := by
  have hbyte (j : Nat) (hj : j < 3584) :
      (Memory.boot program).read (0x200 + j) = program.getD j 0 := by
    have haddress : (0x200 + j) % 4096 = 0x200 + j := by omega
    rw [Memory.read_boot, haddress, Memory.bootByte, dif_neg (by omega), Memory.programStart,
      if_pos (Nat.le_add_right _ j), Nat.add_sub_cancel_left]
  rw [fetch, hmemory, hpc, Memory.toNat_word, Nat.add_assoc, hbyte k (by omega),
    hbyte (k + 1) hroom]

theorem moves_of_code (hmemory : s.memory = Memory.boot program) (hpc : s.pc.toNat = 0x200 + k)
    (hroom : k + 1 < 3584) (hfree : s.keyWait = none)
    (hcode : (program.getD k 0).toNat * 256 + (program.getD (k + 1) 0).toNat = i.code)
    (hexec : ∀ c : Core, c.state = s → c.execute i = .ok (c.retire t flow)) : s.Moves flow t := by
  have hword : Instr.decode? s.fetch = some i :=
    Instr.decode?_of_code ((toNat_fetch_of_boot hmemory hpc hroom).trans hcode)
  exact ⟨hfree, i, hword, hexec⟩

end State

/-! ## Machines -/

namespace Machine

variable {m : Machine} {flow : Flow} {s t : State} {word : Word} {rom : Program}

/-- The machine runs in a state, and no key is down.  Its clock is not set, so a frame has ten steps. -/
structure RunsIn (m : Machine) (s : State) : Prop where
  running : m.halted = false
  state_eq : m.state = s
  keypad_eq : m.keypad = Keypad.released
  clock_eq : m.clock = none

theorem runsIn_load {settings : Settings} (hclock : settings.clock = none)
    (hfits : rom.size ≤ Memory.programCapacity) (entropy : Nat → UInt32) :
    ((new settings entropy).load rom).2.RunsIn (State.boot rom) := by
  simp only [load, hfits, if_true]
  exact ⟨rfl, rfl, rfl, hclock⟩

namespace RunsIn

theorem stepsPerFrame (h : m.RunsIn s) : m.stepsPerFrame = 10 := by
  have hten : Timing.stepsPerFrame none = 10 := by decide
  rw [Machine.stepsPerFrame, h.clock_eq, hten]

theorem step_eq (h : m.RunsIn s) (hmoves : s.Moves flow t) :
    m.step = (.ok flow, m.commit (m.core.retire t flow)) := by
  obtain rfl := h.state_eq
  obtain ⟨i, hword, hexec⟩ := hmoves.executes
  have hcore : m.core.step = .ok (m.core.retire t flow) := by
    rw [Core.step_of_decoded hmoves.free hword]
    exact hexec m.core rfl
  exact step_of_retired h.running hcore

theorem commit (h : m.RunsIn s) : (m.commit (m.core.retire t flow)).RunsIn t :=
  ⟨h.running, rfl, h.keypad_eq, h.clock_eq⟩

theorem step (h : m.RunsIn s) (hmoves : s.Moves flow t) :
    m.step.1 = .ok flow ∧ m.step.2.RunsIn t := by
  rw [h.step_eq hmoves]
  exact ⟨rfl, h.commit⟩

theorem step_of_stuck (h : m.RunsIn s) (hstuck : s.Stuck word) :
    m.step.1 = .error (.trap (.unknownOpcode word s.pc)) := by
  obtain rfl := h.state_eq
  have hword : Instr.decode? m.state.fetch = none := by
    rw [hstuck.fetch_eq]
    exact hstuck.unknown
  rw [step_of_trapped h.running (Core.step_of_unknown hstuck.free hword), ← hstuck.fetch_eq]
  rfl

theorem finishFrame (h : m.RunsIn s) : m.finishFrame.RunsIn s.countDown := by
  refine ⟨?_, ?_, ?_, ?_⟩
  · rw [halted_finishFrame, h.running]
  · rw [state_finishFrame, h.state_eq]
  · rw [keypad, core_finishFrame]
    exact h.keypad_eq
  · rw [clock_finishFrame, h.clock_eq]

/-- A move that changes nothing is made as often as one likes. -/
theorem after (h : m.RunsIn s) (hmoves : s.Moves flow s) (k : Nat) :
    (∀ i < k, (m.after i).step.1.isOk = true) ∧ (m.after k).RunsIn s := by
  have hall : ∀ i, (m.after i).RunsIn s := by
    intro i
    induction i with
    | zero => exact h
    | succ i ih =>
      rw [after_succ]
      exact (ih.step hmoves).2
  refine ⟨fun i _ => ?_, hall k⟩
  rw [((hall i).step hmoves).1]
  rfl

theorem clockedFrame (h : m.RunsIn s) (hok : ∀ i < 10, (m.after i).step.1.isOk = true)
    (hlast : (m.after 10).RunsIn t) :
    m.clockedFrame.1.isOk = true ∧ m.clockedFrame.2.RunsIn t.countDown := by
  obtain ⟨flow, hflow⟩ := exists_flow_of_steps hok
  have hframe : m.frame 10 = (.ok flow, (m.after 10).finishFrame) :=
    frame_eq_ok_iff.mpr ⟨hflow, rfl⟩
  rw [Machine.clockedFrame, h.stepsPerFrame, hframe]
  exact ⟨rfl, hlast.finishFrame⟩

end RunsIn
end Machine

/-! ## Steppers -/

namespace Stepper

variable {s : Stepper} {flow : Flow} {state next : State} {word : Word} {left : Nat}

/-- The machine runs in a state, and some steps are left in its frame. -/
structure RunsIn (s : Stepper) (state : State) (left : Nat) : Prop where
  machine : s.machine.RunsIn state
  countdown_eq : s.countdown = left

theorem runsIn_start {m : Machine} (h : m.RunsIn state) : (start m).RunsIn state 10 := by
  refine ⟨h, ?_⟩
  rw [start, Machine.frameSteps, h.stepsPerFrame]
  rfl

namespace RunsIn

/-- A step inside a frame. -/
theorem forward (h : s.RunsIn state (left + 2)) (hmoves : state.Moves flow next) :
    s.forward = (.ok flow, s.forward.2) ∧ s.forward.2.RunsIn next (left + 1) := by
  have hforward : s.forward =
      (.ok flow, ⟨s.machine.commit (s.machine.core.retire next flow), left + 1⟩) := by
    simp [Stepper.forward, h.machine.step_eq hmoves, h.countdown_eq]
  rw [hforward]
  exact ⟨rfl, h.machine.commit, rfl⟩

/-- The last step of a frame. -/
theorem forward_last (h : s.RunsIn state 1) (hmoves : state.Moves flow next) :
    s.forward = (.ok flow, s.forward.2) ∧ s.forward.2.RunsIn next.countDown 10 := by
  have hnext : (s.machine.commit (s.machine.core.retire next flow)).RunsIn next := h.machine.commit
  have hforward : s.forward =
      (.ok flow, ⟨(s.machine.commit (s.machine.core.retire next flow)).finishFrame, 10⟩) := by
    simp [Stepper.forward, h.machine.step_eq hmoves, h.countdown_eq, Machine.frameSteps,
      hnext.stepsPerFrame]
  rw [hforward]
  exact ⟨rfl, hnext.finishFrame, rfl⟩

theorem forward_of_stuck (h : s.RunsIn state left) (hstuck : state.Stuck word) :
    s.forward.1 = .error (.trap (.unknownOpcode word state.pc)) := by
  rw [forward_outcome]
  exact h.machine.step_of_stuck hstuck

/-- A move that changes nothing but the timers goes on as often as one likes.  They count down whenever
ten steps have been taken. -/
theorem stays {frames : Nat} (hmoves : ∀ k, (state.elapse k).Moves flow (state.elapse k)) (n : Nat)
    (hleft : 1 ≤ left) (hframe : left ≤ 10) (h : s.RunsIn (state.elapse frames) left) :
    s.Succeeds n ∧ (s.ahead n).RunsIn (state.elapse (frames + (n + 10 - left) / 10))
      (10 - (n + 10 - left) % 10) := by
  -- A step may end the frame, so what is left of it and how many have ended both vary.
  induction n generalizing s left frames with
  | zero =>
    have hframes : frames + (0 + 10 - left) / 10 = frames := by omega
    have hcount : 10 - (0 + 10 - left) % 10 = left := by omega
    rw [hframes, hcount]
    exact ⟨nofun, h⟩
  | succ n ih =>
    by_cases hlast : left = 1
    · subst hlast
      obtain ⟨hforward, hnext⟩ := h.forward_last (hmoves frames)
      rw [State.countDown_elapse] at hnext
      obtain ⟨hok, hstands⟩ := ih (by decide) (by decide) hnext
      have hframes : frames + 1 + (n + 10 - 10) / 10 = frames + (n + 1 + 10 - 1) / 10 := by omega
      have hcount : 10 - (n + 10 - 10) % 10 = 10 - (n + 1 + 10 - 1) % 10 := by omega
      rw [hframes, hcount] at hstands
      exact ⟨.cons hforward hok, by rwa [ahead_succ]⟩
    · obtain ⟨more, rfl⟩ : ∃ more, left = more + 2 := ⟨left - 2, by omega⟩
      obtain ⟨hforward, hnext⟩ := h.forward (hmoves frames)
      obtain ⟨hok, hstands⟩ := ih (by omega) (by omega) hnext
      have hsteps : n + 10 - (more + 1) = n + 1 + 10 - (more + 2) := by omega
      rw [hsteps] at hstands
      exact ⟨.cons hforward hok, by rwa [ahead_succ]⟩

end RunsIn
end Stepper

/-! ## A program that sets a timer -/

/-- The first two instructions set the delay timer, by way of a register.  The word behind them is left
open. -/
def Program.timed (delay high low : UInt8) : Program := #[0x60, delay, 0xF0, 0x15, high, low]

namespace State

/-- The state behind the first instruction. -/
def timedOnce (delay high low : UInt8) : State :=
  { boot (.timed delay high low) with
    pc := 0x202
    regs := (Vector.replicate 16 0).set 0 delay }

/-- The state behind the second one. -/
def timedTwice (delay high low : UInt8) : State :=
  { timedOnce delay high low with pc := 0x204, delay := delay }

variable {delay high low : UInt8}

theorem moves_boot_timed :
    (boot (.timed delay high low)).Moves .next (timedOnce delay high low) := by
  refine moves_of_code (k := 0) (i := .setByte 0 delay) rfl rfl (by decide) rfl
    (by simp [Program.timed, Instr.code]) ?_
  intro c hc
  show Except.ok (c.retire (c.state.advance.setReg 0 delay) .next) = _
  rw [hc]
  rfl

theorem moves_timedOnce :
    (timedOnce delay high low).Moves .next (timedTwice delay high low) := by
  refine moves_of_code (k := 2) (i := .setDelay 0) rfl rfl (by decide) rfl
    (by simp [Program.timed, Instr.code]) ?_
  intro c hc
  show Except.ok (c.retire { c.state.advance with delay := c.state.reg 0 } .next) = _
  rw [hc]
  rfl

/-- A jump to itself. -/
theorem moves_timedTwice (k : Nat) :
    ((timedTwice delay 0x12 0x04).elapse k).Moves .jump ((timedTwice delay 0x12 0x04).elapse k) := by
  have hcode : (Instr.jump 0x204).code = 0x1204 := rfl
  refine moves_of_code (k := 4) (i := .jump 0x204) rfl rfl (by decide) rfl
    (by simp [Program.timed, hcode]) ?_
  intro c hc
  show Except.ok (c.retire { c.state with pc := 0x204 } .jump) = _
  rw [hc]
  rfl

theorem stuck_timedTwice : (timedTwice delay 0xFF 0xFF).Stuck 0xFFFF := by
  have hmemory : (timedTwice delay 0xFF 0xFF).memory = Memory.boot (.timed delay 0xFF 0xFF) := rfl
  have hfetch := toNat_fetch_of_boot (k := 4) hmemory rfl (by decide)
  exact ⟨rfl, UInt16.toNat.inj (hfetch.trans (by simp [Program.timed])), rfl⟩

end State

namespace Machine.RunsIn

open State

variable {m : Machine} {delay high low : UInt8}

end Machine.RunsIn

namespace Stepper.RunsIn

open State

variable {s : Stepper} {delay high low : UInt8}

theorem forward_timed (h : s.RunsIn (boot (.timed delay high low)) 10) :
    s.forward = (.ok .next, s.forward.2) ∧
      s.forward.2.forward = (.ok .next, s.forward.2.forward.2) ∧
      s.forward.2.RunsIn (timedOnce delay high low) 9 ∧
      s.forward.2.forward.2.RunsIn (timedTwice delay high low) 8 := by
  obtain ⟨hfirst, hnext⟩ := h.forward moves_boot_timed
  obtain ⟨hsecond, hlast⟩ := hnext.forward moves_timedOnce
  exact ⟨hfirst, hsecond, hnext, hlast⟩

/-- With a jump to itself behind the first two instructions, the program goes on. -/
theorem ahead_timed (h : s.RunsIn (boot (.timed delay 0x12 0x04)) 10) (n : Nat) :
    s.Succeeds (n + 2) ∧ (s.ahead (n + 2)).RunsIn
      ((timedTwice delay 0x12 0x04).elapse ((n + 2) / 10)) (10 - (n + 2) % 10) := by
  obtain ⟨hfirst, hsecond, _, hstands⟩ := h.forward_timed
  rw [← State.elapse_zero (s := timedTwice delay 0x12 0x04)] at hstands
  obtain ⟨hok, hlast⟩ := hstands.stays moves_timedTwice n (by decide) (by decide)
  have hsteps : n + 10 - 8 = n + 2 := by omega
  rw [hsteps, Nat.zero_add] at hlast
  exact ⟨.cons hfirst (.cons hsecond hok), by rwa [ahead_succ, ahead_succ]⟩

end Stepper.RunsIn
end Chip8
