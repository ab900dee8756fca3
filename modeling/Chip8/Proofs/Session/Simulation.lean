import Chip8.Proofs.Session.Output

/-!
# Simulation — two machines that cannot be told apart

Two machines are given the same operations.  If a relation between them is kept by every action that
the operations can come to, and if related machines answer an action alike and send the same to the
devices, then the whole sessions are alike (`Simulation.run`): the operations come to the same
actions on both sides, with the same answers and the same outputs, and the machines stay related.

What counts as alike is a `View`, which may hide a part of the states and faults that a host is
shown.
-/

namespace Chip8

/-- What an onlooker makes out of a state and of a fault. -/
structure View where
  state : State → State
  fault : Fault → Fault

namespace View

variable (v : View)

def result {α : Type} : Except Fault α → Except Fault α
  | .ok a => .ok a
  | .error fault => .error (v.fault fault)

def answer : Answer → Answer
  | .done => .done
  | .loaded result => .loaded (v.result result)
  | .ran outcome => .ran (v.result outcome)
  | .undone changed => .undone changed
  | .snapshot s => .snapshot (v.state s)

def output : Output → Output
  | .frame screen => .frame screen
  | .cue millis => .cue millis
  | .fault fault => .fault (v.fault fault)

@[simp] theorem isOk_result {α : Type} (r : Except Fault α) : (v.result r).isOk = r.isOk := by
  cases r <;> rfl

end View

/-- A relation between machines that the allowed actions keep, and under which nothing can be made
out that tells the machines apart. -/
structure Simulation (v : View) (allowed : Action → Prop) (R : Machine → Machine → Prop) : Prop where
  clock : ∀ {m n}, R m n → m.clock = n.clock
  state : ∀ {m n}, R m n → v.state m.state = v.state n.state
  answer : ∀ {m n a}, R m n → allowed a → v.answer (m.answer a) = v.answer (n.answer a)
  outputs : ∀ {m n a}, R m n → allowed a →
    (m.outputs a).map v.output = (n.outputs a).map v.output
  act : ∀ {m n a}, R m n → allowed a → R (m.act a) (n.act a)

/-! ## Related steppers -/

namespace Stepper

/-- Two steppers whose machines are related are at the same point of a frame. -/
structure Related (R : Machine → Machine → Prop) (s t : Stepper) : Prop where
  machine : R s.machine t.machine
  countdown : s.countdown = t.countdown

end Stepper

namespace Simulation

variable {v : View} {allowed : Action → Prop} {R : Machine → Machine → Prop}
variable {m n : Machine} {s t : Stepper}

/-! ## Runs of actions -/

theorem acts (sim : Simulation v allowed R) (h : R m n) {as : List Action}
    (has : ∀ a ∈ as, allowed a) : R (m.acts as) (n.acts as) := by
  induction as generalizing m n with
  | nil => exact h
  | cons a as ih =>
    exact ih (sim.act h (has a List.mem_cons_self)) fun b hb => has b (List.mem_cons_of_mem a hb)

theorem sent (sim : Simulation v allowed R) (h : R m n) {as : List Action}
    (has : ∀ a ∈ as, allowed a) : (m.sent as).map v.output = (n.sent as).map v.output := by
  induction as generalizing m n with
  | nil => rfl
  | cons a as ih =>
    have ha := has a List.mem_cons_self
    have hrest := ih (sim.act h ha) fun b hb => has b (List.mem_cons_of_mem a hb)
    simp only [Machine.sent, List.map_append, sim.outputs h ha, hrest]

/-! ## Batches and frames -/

theorem step_outcome (sim : Simulation v allowed R) (hstep : allowed .step) (h : R m n) :
    v.result m.step.1 = v.result n.step.1 :=
  Answer.ran.inj (sim.answer h hstep)

/-- Two batches end with the same flow or fault, after as many steps. -/
theorem stepsFrom (sim : Simulation v allowed R) (hstep : allowed .step) (h : R m n) (flow : Flow)
    (k : Nat) :
    v.result (m.stepsFrom flow k).1 = v.result (n.stepsFrom flow k).1 ∧
      m.tries k = n.tries k := by
  induction k generalizing m n flow with
  | zero => exact ⟨rfl, rfl⟩
  | succ k ih =>
    have houtcome := sim.step_outcome hstep h
    have hnext := sim.act h hstep
    -- The first steps succeed together or fail together, which excludes the mixed cases.
    simp only [Machine.stepsFrom, Machine.tries]
    simp only [Machine.act] at hnext
    cases hm : m.step with
    | mk first m' =>
      cases hn : n.step with
      | mk second n' =>
        rw [hm, hn] at houtcome hnext
        cases first with
        | error fault =>
          cases second with
          | error fault' => exact ⟨houtcome, rfl⟩
          | ok flow' => cases houtcome
        | ok flow =>
          cases second with
          | error fault' => cases houtcome
          | ok flow' =>
            cases houtcome
            rcases ih hnext flow with ⟨hrest, htries⟩
            exact ⟨hrest, congrArg (Action.step :: ·) htries⟩

theorem frame (sim : Simulation v allowed R) (hstep : allowed .step) (h : R m n) (k : Nat) :
    v.result (m.frame k).1 = v.result (n.frame k).1 ∧ m.frameActions k = n.frameActions k := by
  rcases sim.stepsFrom hstep h .next k with ⟨houtcome, htries⟩
  have hdone : (m.steps k).1.isOk = (n.steps k).1.isOk := by
    rw [← v.isOk_result, ← v.isOk_result (n.steps k).1]
    exact congrArg Except.isOk houtcome
  rw [Machine.frame_outcome, Machine.frame_outcome, Machine.frameActions, Machine.frameActions,
    htries, hdone]
  exact ⟨houtcome, rfl⟩

/-! ## Sessions -/

/-- One operation gets like answers, comes to the same actions and leaves both steppers at the same
point of a frame. -/
theorem perform (sim : Simulation v allowed R) (h : s.Related R t) {op : Operation}
    (hop : ∀ a ∈ op.needs, allowed a) :
    v.answer (s.perform op).1 = v.answer (t.perform op).1 ∧ s.actions op = t.actions op ∧
      (s.perform op).2.countdown = (t.perform op).2.countdown := by
  rcases h with ⟨hm, hcountdown⟩
  cases op with
  | act a => exact ⟨sim.answer hm (hop a List.mem_cons_self), rfl, hcountdown⟩
  | steps k =>
    rcases sim.stepsFrom (hop .step List.mem_cons_self) hm .next k with ⟨houtcome, htries⟩
    exact ⟨congrArg Answer.ran houtcome, htries, hcountdown⟩
  | frame k =>
    rcases sim.frame (hop .step List.mem_cons_self) hm k with ⟨houtcome, hactions⟩
    exact ⟨congrArg Answer.ran houtcome, hactions, hcountdown⟩
  | clockedFrame =>
    obtain ⟨houtcome, hactions⟩ :=
      sim.frame (hop .step List.mem_cons_self) hm s.machine.stepsPerFrame
    have hsteps : s.machine.stepsPerFrame = t.machine.stepsPerFrame := by
      simp only [Machine.stepsPerFrame, sim.clock hm]
    simp only [Stepper.perform, Stepper.actions, Machine.clockedFrame, ← hsteps]
    exact ⟨congrArg Answer.ran houtcome, hactions, hcountdown⟩
  | snapshot => exact ⟨congrArg Answer.snapshot (sim.state hm), rfl, hcountdown⟩
  | pause => exact ⟨rfl, rfl, Machine.frameSteps_eq (sim.clock hm)⟩
  | forward =>
    have houtcome := sim.step_outcome (hop .step List.mem_cons_self) hm
    have hdone : s.machine.step.1.isOk = t.machine.step.1.isOk := by
      rw [← v.isOk_result, ← v.isOk_result t.machine.step.1, houtcome]
    refine ⟨?_, ?_, ?_⟩
    · show Answer.ran (v.result s.forward.1) = Answer.ran (v.result t.forward.1)
      rw [Stepper.forward_outcome, Stepper.forward_outcome, houtcome]
    · simp only [Stepper.actions, hdone, hcountdown]
    · show s.forward.2.countdown = t.forward.2.countdown
      rw [Stepper.countdown_forward, Stepper.countdown_forward, hdone, hcountdown,
        Machine.frameSteps_eq (sim.clock hm)]
  | backward =>
    have hchanged : s.machine.undo.1 = t.machine.undo.1 :=
      Answer.undone.inj (sim.answer hm (hop .undo List.mem_cons_self))
    refine ⟨?_, rfl, ?_⟩
    · show Answer.undone s.backward.1 = Answer.undone t.backward.1
      rw [Stepper.backward_changed, Stepper.backward_changed, hchanged]
    · show s.backward.2.countdown = t.backward.2.countdown
      rw [Stepper.countdown_backward, Stepper.countdown_backward, hchanged, hcountdown,
        Machine.frameSteps_eq (sim.clock hm)]

theorem related_perform (sim : Simulation v allowed R) (h : s.Related R t) {op : Operation}
    (hop : ∀ a ∈ op.needs, allowed a) :
    (s.perform op).2.Related R (t.perform op).2 := by
  rcases sim.perform h hop with ⟨_, hactions, hcountdown⟩
  refine ⟨?_, hcountdown⟩
  rw [Stepper.machine_perform, Stepper.machine_perform, ← hactions]
  exact sim.acts h.machine fun a ha => hop a (Stepper.mem_needs_of_mem_actions ha)

/-- Related sessions come to the same actions, with like answers and like outputs, and stay
related. -/
theorem run (sim : Simulation v allowed R) (h : s.Related R t) (ops : List Operation)
    (hops : ∀ op ∈ ops, ∀ a ∈ op.needs, allowed a) :
    (s.answers ops).map v.answer = (t.answers ops).map v.answer ∧
      s.trace ops = t.trace ops ∧
      (s.sent ops).map v.output = (t.sent ops).map v.output ∧
      (s.run ops).Related R (t.run ops) := by
  -- Answers and actions go by induction on the operations.  The outputs then are those of one
  -- and the same list of actions.
  have hsession : (s.answers ops).map v.answer = (t.answers ops).map v.answer ∧
      s.trace ops = t.trace ops ∧ (s.run ops).Related R (t.run ops) := by
    induction ops generalizing s t with
    | nil => exact ⟨rfl, rfl, h⟩
    | cons op ops ih =>
      have hop := hops op List.mem_cons_self
      rcases sim.perform h hop with ⟨hanswer, hactions, _⟩
      obtain ⟨hanswers, htrace, hrun⟩ :=
        ih (sim.related_perform h hop) fun o ho => hops o (List.mem_cons_of_mem op ho)
      refine ⟨?_, ?_, hrun⟩
      · simp only [Stepper.answers, List.map_cons, hanswer, hanswers]
      · simp only [Stepper.trace, hactions, htrace]
  rcases hsession with ⟨hanswers, htrace, hrun⟩
  refine ⟨hanswers, htrace, ?_, hrun⟩
  rw [Stepper.sent, Stepper.sent, ← htrace]
  refine sim.sent h.machine fun a ha => ?_
  rcases Stepper.exists_needs_of_mem_trace ha with ⟨op, hop, hneeds⟩
  exact hops op hop a hneeds

end Simulation
end Chip8
