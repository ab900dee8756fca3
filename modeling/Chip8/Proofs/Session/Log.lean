import Chip8.Proofs.Session.Action

/-!
# Log — the instructions that a run executes

A program can change its own code, so the instructions that it executes are known only from its run.
`Machine.log` lists them: one entry for each step that is tried, with the address at which it is
tried and the instruction that it executes there.  There is no instruction where a step is refused,
where it polls the keypad for a pending wait, and where the word at the address stands for none.
-/

namespace Chip8

/-- A step that is tried: the address it stands at, and the instruction it executes, if it executes
one. -/
structure Attempt where
  address : UInt16
  instr? : Option Instr
  deriving DecidableEq, Repr

namespace Machine

variable {m : Machine} {i : Instr}

/-- The instruction that the next step executes, if it executes one. -/
def next? (m : Machine) : Option Instr :=
  if m.halted then none
  else
    match m.state.keyWait with
    | some _ => none
    | none => Instr.decode? m.state.fetch

theorem next?_eq_some_iff : m.next? = some i ↔ m.Executes i := by
  cases hhalt : m.halted <;> cases hwait : m.state.keyWait <;>
    simp [next?, Executes, hhalt, hwait]

/-- The next step as the log shows it. -/
def attempt (m : Machine) : Attempt := ⟨m.state.pc, m.next?⟩

/-- The entries of one action: a step has one, and nothing else has any. -/
def attempts (m : Machine) : Action → List Attempt
  | .step => [m.attempt]
  | _ => []

/-- The steps that are tried in a run, in order. -/
def log (m : Machine) : List Action → List Attempt
  | [] => []
  | a :: as => m.attempts a ++ (m.act a).log as

theorem log_step (m : Machine) (as : List Action) :
    m.log (.step :: as) = m.attempt :: (m.act .step).log as := rfl

theorem log_append (m : Machine) (as bs : List Action) :
    m.log (as ++ bs) = m.log as ++ (m.acts as).log bs := by
  induction as generalizing m with
  | nil => rfl
  | cons a as ih => rw [List.cons_append, log, ih, log, acts, List.append_assoc]

end Machine
end Chip8
