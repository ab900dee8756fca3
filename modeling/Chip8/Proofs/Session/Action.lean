import Chip8.Proofs.Machine.Step

/-!
# Actions — what can happen to a machine

Whatever a host does with a machine comes down to a few elementary actions: a program is loaded, a
step is tried, a frame ends, the state is replaced, a key moves, an observer comes.  A run is a list
of actions.

What a machine does not remember of its run, such as the steps beyond its history, is kept by
`Machine.track` beside it.  `Machine.track_invariant` is the induction on runs: what every action
keeps between the machine and such a record holds after any run.
-/

namespace Chip8

/-- An elementary action on a machine. -/
inductive Action where
  /-- Load a program from a file, which may turn out to be unreadable. -/
  | load (contents : Except String Program)
  /-- Try one step. -/
  | step
  /-- End a frame. -/
  | finishFrame
  /-- Take back the newest step. -/
  | undo
  /-- Replace the state by one that was taken earlier. -/
  | restore (s : State)
  | setKey (key : Key) (down : Bool)
  | releaseKeys
  | observe

/-- What a host is told about an operation. -/
inductive Answer where
  | done
  | loaded (result : Except Fault Unit)
  | ran (outcome : Outcome)
  | undone (changed : Bool)
  | snapshot (s : State)

namespace Action

/-- The action neither loads a program nor takes a step back, so no step before it is forgotten. -/
def KeepsPast : Action → Prop
  | .load _ => False
  | .undo => False
  | _ => True

/-- The action belongs to a program that runs on: steps, frames, and what a host does beside them
without touching the state. -/
def RunsOn : Action → Prop
  | .load _ => False
  | .undo => False
  | .restore _ => False
  | _ => True

end Action

/-- An action and the machine that it is performed on. -/
structure Moment where
  machine : Machine
  action : Action

namespace Machine

/-! ## Performing actions -/

/-- The machine after an action. -/
def act (m : Machine) : Action → Machine
  | .load contents => (m.loadContents contents).2
  | .step => m.step.2
  | .finishFrame => m.finishFrame
  | .undo => m.undo.2
  | .restore s => m.restore s
  | .setKey key down => m.setKey key down
  | .releaseKeys => m.releaseKeys
  | .observe => m.observe.2

/-- What the host is told about an action. -/
def answer (m : Machine) : Action → Answer
  | .load contents => .loaded (m.loadContents contents).1
  | .step => .ran m.step.1
  | .undo => .undone m.undo.1
  | _ => .done

/-- The machine after a list of actions. -/
def acts (m : Machine) : List Action → Machine
  | [] => m
  | a :: as => (m.act a).acts as

theorem acts_append (m : Machine) (as bs : List Action) :
    m.acts (as ++ bs) = (m.acts as).acts bs := by
  induction as generalizing m with
  | nil => rfl
  | cons a as ih => exact ih (m.act a)

/-! ## Properties along a run -/

/-- The actions of a run, each with the machine that it is performed on. -/
def moments (m : Machine) : List Action → List Moment
  | [] => []
  | a :: as => ⟨m, a⟩ :: (m.act a).moments as

/-- The machine has the property before the first action and after every one of them. -/
def Always (P : Machine → Prop) (m : Machine) : List Action → Prop
  | [] => P m
  | a :: as => P m ∧ (m.act a).Always P as

theorem Always.acts {P : Machine → Prop} {m : Machine} {as : List Action} (h : m.Always P as) :
    P (m.acts as) := by
  induction as generalizing m with
  | nil => exact h
  | cons a as ih => exact ih h.2

/-- Keep a record of a run beside the machine: every action is noted before it is performed. -/
def track {γ : Type} (note : Machine → γ → Action → γ) (m : Machine) (record : γ) :
    List Action → γ
  | [] => record
  | a :: as => (m.act a).track note (note m record a) as

section Track

variable {γ : Type} {note : Machine → γ → Action → γ}

/-- What every action keeps between the machine and the record holds after every run. -/
theorem track_invariant {Inv : Machine → γ → Prop}
    (keep : ∀ m record a, Inv m record → Inv (m.act a) (note m record a))
    {m : Machine} {record : γ} (h : Inv m record) (as : List Action) :
    Inv (m.acts as) (m.track note record as) := by
  induction as generalizing m record with
  | nil => exact h
  | cons a as ih => exact ih (keep m record a h)

end Track

/-! ## What actions leave alone -/

@[simp] theorem clock_act (m : Machine) (a : Action) : (m.act a).clock = m.clock := by
  cases a with
  | load contents =>
    cases contents with
    | error text => rfl
    | ok program =>
      simp only [act, loadContents, load]
      split <;> rfl
  | step =>
    rcases step_cases m with ⟨_, h⟩ | ⟨r, _, _, h⟩ | ⟨cause, _, _, h⟩ <;> simp only [act, h] <;> rfl
  | finishFrame => exact clock_finishFrame m
  | undo =>
    simp only [act, undo]
    split <;> rfl
  | _ => rfl

@[simp] theorem clock_acts (m : Machine) (as : List Action) : (m.acts as).clock = m.clock := by
  induction as generalizing m with
  | nil => rfl
  | cons a as ih => rw [acts, ih, clock_act]

@[simp] theorem historyCapacity_act (m : Machine) (a : Action) :
    (m.act a).history.capacity = m.history.capacity := by
  cases a with
  | load contents =>
    cases contents with
    | error text => rfl
    | ok program =>
      simp only [act, loadContents, load]
      split <;> rfl
  | step =>
    rcases step_cases m with ⟨_, h⟩ | ⟨r, _, _, h⟩ | ⟨cause, _, _, h⟩
    · simp only [act, h]
    · simp only [act, h]
      exact History.capacity_push _ _
    · simp only [act, h]
      rfl
  | finishFrame => exact congrArg History.capacity (history_finishFrame m)
  | undo =>
    simp only [act, undo]
    split
    · rfl
    · rename_i s history hpop
      exact (History.pop?_eq_some_iff.mp hpop).1.symm
  | _ => rfl

@[simp] theorem historyCapacity_acts (m : Machine) (as : List Action) :
    (m.acts as).history.capacity = m.history.capacity := by
  induction as generalizing m with
  | nil => rfl
  | cons a as ih => rw [acts, ih, historyCapacity_act]

end Machine
end Chip8
