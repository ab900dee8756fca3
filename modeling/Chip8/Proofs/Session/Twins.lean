import Chip8.Proofs.Session.Simulation

/-!
# Twins — machines that differ only in what nobody can ask for

What a machine does depends on its core, its clock, whether it is halted, and, where steps are taken
back, on its history.  What it has sent to devices and observers, and who observes it, does not
matter.  Machines that agree in the former are *twins*, and they stay twins under every action, with
the same answers and the same outputs (`Machine.twin_simulation`).

All actions but steps back do without the history (`Machine.SameCore.act`).
-/

namespace Chip8

/-- An onlooker who misses nothing. -/
def View.exact : View := ⟨id, id⟩

namespace View

theorem result_exact {α : Type} (r : Except Fault α) : exact.result r = r := by
  cases r <;> rfl

theorem answer_exact (a : Answer) : exact.answer a = a := by
  cases a with
  | loaded result => exact congrArg Answer.loaded (result_exact result)
  | ran outcome => exact congrArg Answer.ran (result_exact outcome)
  | _ => rfl

theorem output_exact (o : Output) : exact.output o = o := by
  cases o <;> rfl

theorem map_answer_exact (as : List Answer) : as.map exact.answer = as := by
  rw [List.map_congr_left fun a _ => answer_exact a, List.map_id']

theorem map_output_exact (os : List Output) : os.map exact.output = os := by
  rw [List.map_congr_left fun o _ => output_exact o, List.map_id']

end View

namespace Machine

/-- The machines agree in all that executing steps depends on. -/
structure SameCore (m n : Machine) : Prop where
  core : m.core = n.core
  clock : m.clock = n.clock
  halted : m.halted = n.halted

/-- The machines agree in all that a host can ask for. -/
structure Twin (m n : Machine) : Prop extends SameCore m n where
  history : m.history = n.history

variable {m n : Machine} {a : Action}

namespace SameCore

theorem state (h : m.SameCore n) : m.state = n.state := congrArg Core.state h.core

theorem keypad (h : m.SameCore n) : m.keypad = n.keypad := congrArg Core.keypad h.core

theorem withState (h : m.SameCore n) (s : State) : (m.withState s).SameCore (n.withState s) :=
  ⟨congrArg (fun c => { c with state := s }) h.core, h.clock, h.halted⟩

/-- Both machines are halted, or both execute the same step, or both meet the same trap. -/
theorem step_cases (h : m.SameCore n) :
    (m.halted = true ∧ m.step = (.error .halted, m) ∧ n.step = (.error .halted, n)) ∨
      (∃ r, m.halted = false ∧ m.core.step = .ok r ∧ m.step = (.ok r.flow, m.commit r) ∧
        n.step = (.ok r.flow, n.commit r)) ∨
      (∃ cause, m.halted = false ∧ m.core.step = .error cause ∧
        m.step = (.error (.trap cause), m.stopOn (.trap cause)) ∧
        n.step = (.error (.trap cause), n.stopOn (.trap cause))) := by
  rcases Machine.step_cases m with ⟨hhalt, hm⟩ | ⟨r, hhalt, hcore, hm⟩ | ⟨cause, hhalt, hcore, hm⟩
  · have hn := step_of_halted (h.halted ▸ hhalt)
    exact .inl ⟨hhalt, hm, hn⟩
  · have hn := step_of_retired (h.halted ▸ hhalt) (h.core ▸ hcore)
    exact .inr (.inl ⟨r, hhalt, hcore, hm, hn⟩)
  · have hn := step_of_trapped (h.halted ▸ hhalt) (h.core ▸ hcore)
    exact .inr (.inr ⟨cause, hhalt, hcore, hm, hn⟩)

theorem step (h : m.SameCore n) :
    m.step.1 = n.step.1 ∧ m.outputs .step = n.outputs .step ∧ m.step.2.SameCore n.step.2 := by
  have houtputs : m.outputs .step = n.outputs .step := by
    simp only [outputs, h.core, h.halted]
  refine ⟨?_, houtputs, ?_⟩
  · rcases h.step_cases with ⟨_, hm, hn⟩ | ⟨r, _, _, hm, hn⟩ | ⟨cause, _, _, hm, hn⟩ <;>
      rw [hm, hn]
  · rcases h.step_cases with ⟨_, hm, hn⟩ | ⟨r, _, _, hm, hn⟩ | ⟨cause, _, _, hm, hn⟩
    · rw [hm, hn]
      exact h
    · rw [hm, hn]
      exact ⟨rfl, h.clock, h.halted⟩
    · rw [hm, hn]
      exact ⟨h.core, h.clock, rfl⟩

theorem finishFrame (h : m.SameCore n) : m.finishFrame.SameCore n.finishFrame := by
  refine ⟨?_, ?_, ?_⟩
  · rw [core_finishFrame, core_finishFrame, h.core, h.state]
  · rw [clock_finishFrame, clock_finishFrame, h.clock]
  · rw [halted_finishFrame, halted_finishFrame, h.halted]

theorem loadContents (h : m.SameCore n) (contents : Except String Program) :
    (m.loadContents contents).1 = (n.loadContents contents).1 ∧
      (m.loadContents contents).2.SameCore (n.loadContents contents).2 := by
  cases contents with
  | error text => exact ⟨rfl, h⟩
  | ok program =>
    by_cases hfits : program.size ≤ Memory.programCapacity
    · simp only [Machine.loadContents, load, hfits, if_true]
      exact ⟨trivial, (h.withState _).core, h.clock, rfl⟩
    · simp only [Machine.loadContents, load, hfits, if_false]
      exact ⟨trivial, h.core, h.clock, rfl⟩

theorem act (h : m.SameCore n) (ha : a ≠ .undo) :
    m.answer a = n.answer a ∧ m.outputs a = n.outputs a ∧ (m.act a).SameCore (n.act a) := by
  cases a with
  | load contents =>
    rcases h.loadContents contents with ⟨hresult, hloaded⟩
    refine ⟨congrArg Answer.loaded hresult, ?_, hloaded⟩
    rw [outputs, outputs, hresult]
  | step =>
    rcases h.step with ⟨houtcome, houtputs, hstepped⟩
    exact ⟨congrArg Answer.ran houtcome, houtputs, hstepped⟩
  | finishFrame =>
    -- The buzzer and the screen are read from the state.
    refine ⟨rfl, ?_, h.finishFrame⟩
    simp only [outputs, h.state]
  | undo => exact (ha rfl).elim
  | restore s => exact ⟨rfl, rfl, (h.withState s).core, h.clock, h.halted⟩
  | setKey key down =>
    refine ⟨rfl, rfl, ?_, h.clock, h.halted⟩
    simp only [Machine.act, Machine.setKey, h.core, h.keypad]
  | releaseKeys =>
    exact ⟨rfl, rfl, congrArg (fun c => { c with keypad := Keypad.released }) h.core, h.clock,
      h.halted⟩
  | observe => exact ⟨rfl, rfl, h.core, h.clock, h.halted⟩

end SameCore

namespace Twin

theorem undo (h : m.Twin n) :
    m.undo.1 = n.undo.1 ∧ m.outputs .undo = n.outputs .undo ∧ m.undo.2.Twin n.undo.2 := by
  cases hpop : m.history.pop? with
  | none =>
    have hpop' : n.history.pop? = none := h.history ▸ hpop
    simp only [outputs, Machine.undo, hpop, hpop', Bool.false_eq_true, if_false]
    exact ⟨trivial, trivial, h⟩
  | some top =>
    have hpop' : n.history.pop? = some top := h.history ▸ hpop
    simp only [outputs, Machine.undo, hpop, hpop', if_true]
    have hcore := h.toSameCore.withState top.1
    exact ⟨trivial, rfl, ⟨hcore.core, h.clock, h.halted⟩, rfl⟩

theorem history_act (h : m.Twin n) (a : Action) : (m.act a).history = (n.act a).history := by
  -- A load that fits clears it, a step that succeeds pushes and a step back pops.
  cases a with
  | load contents =>
    cases contents with
    | error text => exact h.history
    | ok program =>
      by_cases hfits : program.size ≤ Memory.programCapacity
      · simp only [Machine.act, Machine.loadContents, load, hfits, if_true]
        exact congrArg History.clear h.history
      · simp only [Machine.act, Machine.loadContents, load, hfits, if_false]
        exact h.history
  | step =>
    rcases h.step_cases with ⟨_, hm, hn⟩ | ⟨r, _, _, hm, hn⟩ | ⟨cause, _, _, hm, hn⟩
    · simp only [Machine.act, hm, hn]
      exact h.history
    · simp only [Machine.act, hm, hn]
      show m.history.push m.state = n.history.push n.state
      rw [h.history, h.state]
    · simp only [Machine.act, hm, hn]
      exact h.history
  | finishFrame =>
    show m.finishFrame.history = n.finishFrame.history
    rw [history_finishFrame, history_finishFrame, h.history]
  | undo => exact h.undo.2.2.history
  | _ => exact h.history

theorem act (h : m.Twin n) (a : Action) :
    m.answer a = n.answer a ∧ m.outputs a = n.outputs a ∧ (m.act a).Twin (n.act a) := by
  -- A step back is the one action that reads the history.
  by_cases ha : a = .undo
  · subst ha
    rcases h.undo with ⟨hchanged, houtputs, hundone⟩
    exact ⟨congrArg Answer.undone hchanged, houtputs, hundone⟩
  · rcases h.toSameCore.act ha with ⟨hanswer, houtputs, hcore⟩
    exact ⟨hanswer, houtputs, hcore, h.history_act a⟩

end Twin

/-- No action tells twins apart. -/
theorem twin_simulation : Simulation View.exact (fun _ => True) Twin where
  clock h := h.clock
  state h := h.state
  answer h _ := congrArg _ (h.act _).1
  outputs h _ := congrArg _ (h.act _).2.1
  act h _ := (h.act _).2.2

end Machine

namespace Stepper

open Machine

variable {s t : Stepper}

/-- The operations get the same answers on both sides, send the same to the devices, come to the same
actions, and lead through the same states, also in the middle of a batch. -/
structure SameSession (s t : Stepper) (ops : List Operation) : Prop where
  answers : s.answers ops = t.answers ops
  sent : s.sent ops = t.sent ops
  trace : s.trace ops = t.trace ops
  along : ∀ as, as <+: s.trace ops → (s.machine.acts as).state = (t.machine.acts as).state
  state : (s.run ops).machine.state = (t.run ops).machine.state

/-- No session tells twins apart. -/
theorem Related.session (h : s.Related Twin t) (ops : List Operation) : s.SameSession t ops := by
  obtain ⟨hanswers, htrace, hsent, hrun⟩ :=
    twin_simulation.run h ops fun _ _ _ _ => trivial
  rw [View.map_answer_exact, View.map_answer_exact] at hanswers
  rw [View.map_output_exact, View.map_output_exact] at hsent
  refine ⟨hanswers, hsent, htrace, ?_, hrun.machine.state⟩
  intro as _
  have htwins : (s.machine.acts as).Twin (t.machine.acts as) :=
    twin_simulation.acts h.machine fun _ _ => trivial
  exact htwins.state

end Stepper
end Chip8
