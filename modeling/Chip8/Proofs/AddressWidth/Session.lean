import Chip8.Proofs.AddressWidth.Core
import Chip8.Proofs.Session.Simulation

/-!
# Twelve bits of addresses

Two machines that differ in nothing but the highest four bits of their program counters, indices and
return addresses, now and in their histories, cannot be told apart.  Every operation gets the same
answer, up to those bits of the address in a trap, presents the same frames and cues the same
sounds, and the machines still differ in nothing else (`Stepper.run_alike`).  So the machine has
addresses of twelve bits, although it stores sixteen.
-/

namespace Chip8

/-! ## Histories -/

namespace History

variable {α β : Type} (f : α → β)

/-- Replace every entry. -/
def map (h : History α) : History β := ⟨h.capacity, h.entries.map f⟩

theorem map_push (h : History α) (a : α) : (h.push a).map f = (h.map f).push (f a) := by
  simp only [push, map, Array.size_map]
  split
  · rfl
  · split <;> simp

theorem pop?_map (h : History α) :
    (h.map f).pop? = h.pop?.map fun (a, k) => (f a, k.map f) := by
  simp only [pop?, map, Array.back?_map]
  cases h.entries.back? <;> simp

end History

/-! ## What can be made out -/

/-- The fault with the wrapped address of its instruction, if it is about one. -/
def Fault.wrapped : Fault → Fault
  | .trap cause => .trap cause.wrapped
  | fault => fault

/-- An onlooker who cannot make out the highest four bits of an address. -/
def View.wrapped : View := ⟨State.wrapped, Fault.wrapped⟩

namespace Machine

/-- The machines differ in nothing that a program can reach, except for the highest four bits of
addresses, now and in their histories. -/
structure Alike (m n : Machine) : Prop where
  core : m.core.wrapped = n.core.wrapped
  clock : m.clock = n.clock
  halted : m.halted = n.halted
  history : m.history.map State.wrapped = n.history.map State.wrapped

variable {m n : Machine}

namespace Alike

theorem state (h : m.Alike n) : m.state.wrapped = n.state.wrapped :=
  congrArg Core.state h.core

theorem screen (h : m.Alike n) : m.state.screen = n.state.screen := by
  have hscreen : m.state.wrapped.screen = n.state.wrapped.screen := by rw [h.state]
  exact hscreen

theorem withState (h : m.Alike n) {s t : State} (hs : s.wrapped = t.wrapped) :
    (m.withState s).Alike (n.withState t) := by
  rcases Core.wrapped_eq_iff.mp h.core with ⟨_, hkeypad, hrandom⟩
  exact ⟨Core.wrapped_eq_iff.mpr ⟨hs, hkeypad, hrandom⟩, h.clock, h.halted, h.history⟩

theorem withKeypad (h : m.Alike n) (keypad : Keypad) :
    Alike { m with core := { m.core with keypad := keypad } }
      { n with core := { n.core with keypad := keypad } } := by
  rcases Core.wrapped_eq_iff.mp h.core with ⟨hstate, _, hrandom⟩
  exact ⟨Core.wrapped_eq_iff.mpr ⟨hstate, rfl, hrandom⟩, h.clock, h.halted, h.history⟩

/-! ### Steps -/

theorem commit (h : m.Alike n) {r r' : Retired} (hr : r.core.wrapped = r'.core.wrapped) :
    (m.commit r).Alike (n.commit r') := by
  refine ⟨hr, h.clock, h.halted, ?_⟩
  show (m.history.push m.state).map _ = (n.history.push n.state).map _
  rw [History.map_push, History.map_push, h.history, h.state]

theorem step (h : m.Alike n) :
    View.wrapped.result m.step.1 = View.wrapped.result n.step.1 ∧
      (m.outputs .step).map View.wrapped.output = (n.outputs .step).map View.wrapped.output ∧
      m.step.2.Alike n.step.2 := by
  have hcore : Core.wrapResult m.core.step = Core.wrapResult n.core.step := by
    rw [← m.core.step_wrapped, h.core, n.core.step_wrapped]
  -- Both machines are halted or none is, and both cores retire or both meet a trap.
  cases hhalt : m.halted with
  | true =>
    have hhalt' : n.halted = true := h.halted ▸ hhalt
    simp only [step_of_halted hhalt, step_of_halted hhalt', outputs, hhalt, hhalt', if_true]
    exact ⟨trivial, trivial, h⟩
  | false =>
    have hhalt' : n.halted = false := h.halted ▸ hhalt
    cases hm : m.core.step with
    | ok r =>
      cases hn : n.core.step with
      | ok r' =>
        rw [hm, hn] at hcore
        simp only [Core.wrapResult, Except.ok.injEq, Retired.mk.injEq] at hcore
        rcases hcore with ⟨hr, hflow, hcue⟩
        simp only [step_of_retired hhalt hm, step_of_retired hhalt' hn, outputs, hhalt, hhalt', hm,
          hn, hflow, hcue]
        exact ⟨trivial, trivial, h.commit hr⟩
      | error cause' =>
        rw [hm, hn] at hcore
        cases hcore
    | error cause =>
      cases hn : n.core.step with
      | ok r' =>
        rw [hm, hn] at hcore
        cases hcore
      | error cause' =>
        rw [hm, hn] at hcore
        have hcause : cause.wrapped = cause'.wrapped := Except.error.inj hcore
        simp only [step_of_trapped hhalt hm, step_of_trapped hhalt' hn, outputs, hhalt, hhalt', hm,
          hn, Bool.false_eq_true, if_false, List.map_cons, List.map_nil, View.result, View.output,
          View.wrapped, Fault.wrapped, hcause]
        exact ⟨trivial, trivial, h.core, h.clock, rfl, h.history⟩

/-- The end of a frame does not look at addresses. -/
theorem finishFrame (h : m.Alike n) :
    m.outputs .finishFrame = n.outputs .finishFrame ∧ m.finishFrame.Alike n.finishFrame := by
  have hstate : m.state.countDown.wrapped = n.state.countDown.wrapped :=
    congrArg State.countDown h.state
  have hsound : m.state.countDown.sound = n.state.countDown.sound :=
    congrArg (fun s => s.countDown.sound) h.state
  refine ⟨?_, ?_⟩
  · have hscreen : m.state.countDown.screen = n.state.countDown.screen := h.screen
    simp only [outputs, hsound, hscreen]
  · rcases Core.wrapped_eq_iff.mp h.core with ⟨_, hkeypad, hrandom⟩
    refine ⟨?_, ?_, ?_, ?_⟩
    · rw [core_finishFrame, core_finishFrame]
      exact Core.wrapped_eq_iff.mpr ⟨hstate, hkeypad, hrandom⟩
    · rw [clock_finishFrame, clock_finishFrame, h.clock]
    · rw [halted_finishFrame, halted_finishFrame, h.halted]
    · rw [history_finishFrame, history_finishFrame, h.history]

/-! ### Going back -/

theorem undo (h : m.Alike n) :
    m.undo.1 = n.undo.1 ∧ m.outputs .undo = n.outputs .undo ∧ m.undo.2.Alike n.undo.2 := by
  have hpop := congrArg History.pop? h.history
  rw [History.pop?_map, History.pop?_map] at hpop
  -- Mapping keeps the number of entries, so both histories are empty or none is.
  cases hm : m.history.pop? with
  | none =>
    rw [hm, Option.map_none, eq_comm, Option.map_eq_none_iff] at hpop
    simp only [outputs, Machine.undo, hm, hpop, Bool.false_eq_true, if_false]
    exact ⟨trivial, trivial, h⟩
  | some top =>
    rw [hm, Option.map_some, eq_comm, Option.map_eq_some_iff] at hpop
    rcases hpop with ⟨other, hn, htop⟩
    have hstate : top.1.wrapped = other.1.wrapped := (congrArg Prod.fst htop).symm
    have hhistory : top.2.map State.wrapped = other.2.map State.wrapped :=
      (congrArg Prod.snd htop).symm
    have hscreen : top.1.screen = other.1.screen := by
      have hwrapped : top.1.wrapped.screen = other.1.wrapped.screen := by rw [hstate]
      exact hwrapped
    simp only [outputs, Machine.undo, hm, hn, if_true]
    refine ⟨trivial, ?_, (h.withState hstate).core, h.clock, h.halted, hhistory⟩
    exact congrArg (fun screen => [Output.frame screen]) hscreen

/-! ### Loading -/

theorem loadContents (h : m.Alike n) (contents : Except String Program) :
    (m.loadContents contents).1 = (n.loadContents contents).1 ∧
      (m.loadContents contents).2.Alike (n.loadContents contents).2 := by
  cases contents with
  | error text => exact ⟨rfl, h⟩
  | ok program =>
    by_cases hfits : program.size ≤ Memory.programCapacity
    · simp only [Machine.loadContents, Machine.load, hfits, if_true]
      have hcapacity : m.history.capacity = n.history.capacity :=
        congrArg (fun k => k.capacity) h.history
      refine ⟨trivial, (h.withState rfl).core, h.clock, rfl, ?_⟩
      rw [History.clear, History.clear, hcapacity]
    · simp only [Machine.loadContents, Machine.load, hfits, if_false]
      exact ⟨trivial, h.core, h.clock, rfl, h.history⟩

theorem setKey (h : m.Alike n) (key : Key) (down : Bool) :
    (m.setKey key down).Alike (n.setKey key down) := by
  have hkeypad : m.keypad = n.keypad := (Core.wrapped_eq_iff.mp h.core).2.1
  rw [Machine.setKey, Machine.setKey, hkeypad]
  exact h.withKeypad _

end Alike

/-- No action needs more of an address than its lowest twelve bits. -/
theorem alike_simulation : Simulation View.wrapped (fun _ => True) Alike where
  clock h := h.clock
  state h := h.state
  answer := by
    intro m n a h _
    cases a with
    | load contents => exact congrArg (fun r => View.answer _ (.loaded r)) (h.loadContents contents).1
    | step => exact congrArg Answer.ran h.step.1
    | undo => exact congrArg Answer.undone h.undo.1
    | _ => rfl
  outputs := by
    intro m n a h _
    cases a with
    | load contents => rw [outputs, outputs, (h.loadContents contents).1]
    | step => exact h.step.2.1
    | finishFrame => rw [h.finishFrame.1]
    | undo => rw [h.undo.2.1]
    | _ => rfl
  act := by
    intro m n a h _
    cases a with
    | load contents => exact (h.loadContents contents).2
    | step => exact h.step.2.2
    | finishFrame => exact h.finishFrame.2
    | undo => exact h.undo.2.2
    | restore s => exact ⟨(h.withState (s := s) rfl).core, h.clock, h.halted, h.history⟩
    | setKey key down => exact h.setKey key down
    | releaseKeys => exact h.withKeypad Keypad.released
    | observe => exact ⟨h.core, h.clock, h.halted, h.history⟩

end Machine

namespace Stepper

/-- Machines that differ in nothing but the highest four bits of addresses cannot be told apart.

Whatever a host does, both machines give the same answers: the same flows, the same successes, and
the same faults, where the addresses of two traps agree in their lowest twelve bits.  They present
the same frames and cue the same sounds, which is all that is added to their recordings, and they
still differ in nothing else. -/
theorem run_alike {m n : Machine} (h : m.Alike n) (countdown : Nat) (ops : List Operation) :
    let s : Stepper := ⟨m, countdown⟩
    let t : Stepper := ⟨n, countdown⟩
    (s.answers ops).map View.wrapped.answer = (t.answers ops).map View.wrapped.answer ∧
      (s.sent ops).map View.wrapped.output = (t.sent ops).map View.wrapped.output ∧
      (s.run ops).machine.recording = (s.sent ops).foldl Recording.add m.recording ∧
      (t.run ops).machine.recording = (t.sent ops).foldl Recording.add n.recording ∧
      (s.run ops).machine.Alike (t.run ops).machine ∧
      (s.run ops).countdown = (t.run ops).countdown := by
  intro s t
  have hst : s.Related Machine.Alike t := ⟨h, rfl⟩
  obtain ⟨hanswers, _, hsent, hrun⟩ :=
    Machine.alike_simulation.run hst ops fun _ _ _ _ => trivial
  exact ⟨hanswers, hsent, recording_run s ops, recording_run t ops, hrun.machine, hrun.countdown⟩

/-- A program that jumps to itself, with one of the program counters beyond memory. -/
theorem run_alike_of_far_counter :
    let m := (Machine.new {} fun _ => 0).act (.load (.ok #[0x12, 0x00]))
    let n := m.withState { m.state with pc := 0x1200 }
    let ops := [.clockedFrame, .backward, .forward]
    m.state.pc ≠ n.state.pc ∧ m.Alike n ∧
      ((⟨m, 10⟩ : Stepper).answers ops).map View.wrapped.answer =
        ((⟨n, 10⟩ : Stepper).answers ops).map View.wrapped.answer := by
  have halike (m : Machine) (hpc : m.state.pc = 0x200) :
      m.Alike (m.withState { m.state with pc := 0x1200 }) := by
    refine ⟨Core.wrapped_eq_iff.mpr ⟨?_, rfl, rfl⟩, rfl, rfl, rfl⟩
    show m.state.wrapped = { m.state with pc := 0x1200 : State }.wrapped
    simp only [State.wrapped, hpc]
    rfl
  intro m n ops
  have hmn : m.Alike n := halike m rfl
  exact ⟨by decide, hmn, (run_alike hmn 10 ops).1⟩

end Stepper
end Chip8
