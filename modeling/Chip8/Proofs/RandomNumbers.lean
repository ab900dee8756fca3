import Chip8.Proofs.Machine.Effect
import Chip8.Proofs.Session.Log
import Chip8.Proofs.Session.Operation

/-!
# Random numbers — each is taken once, in order

The random instruction is the only one that takes a random number (`Core.Effect`), and it
takes one whatever its mask lets through.  Nothing puts a number back: the numbers belong to the
world, so taking a step back, restoring a state, loading a program and a fault leave them alone.

So the position in the stream is the number of random instructions in the log of the run
(`Machine.random_acts`), which is kept by every action (`Machine.random_act`), and the `k`-th of them
gets the `k`-th number.
-/

namespace Chip8

/-- The step executes a random instruction. -/
def Attempt.takesRandom (t : Attempt) : Bool :=
  match t.instr? with
  | some (.random _ _) => true
  | _ => false

namespace Random

/-- The stream after a number of words were taken. -/
def skip (r : Random) (n : Nat) : Random := { r with position := r.position + n }

theorem skip_skip (r : Random) (n k : Nat) : (r.skip n).skip k = r.skip (n + k) := by
  simp only [skip, Nat.add_assoc]

end Random

namespace Machine

variable {m : Machine} {x : Reg} {mask : UInt8} {a : Action}

/-! ## Steps -/

/-- A random instruction puts the next number into its register, under its mask. -/
theorem Executes.step_of_random (h : m.Executes (.random x mask)) :
    m.step = (.ok .next, m.commit
      (Core.retire { m.core with random := m.core.random.skip 1 }
        (m.state.advance.setReg x (m.core.random.byte &&& mask)) .next)) :=
  step_of_retired h.1 h.core_step

/-- A step that executes no random instruction leaves the random numbers alone. -/
theorem random_step_of_other (hother : ∀ x mask, ¬ m.Executes (.random x mask)) :
    m.step.2.core.random = m.core.random := by
  refine step_keeps Core.random (fun _ _ => rfl) (fun _ _ _ => rfl) ?_
  intro i r hi heffect
  refine heffect.random_eq ?_
  rintro x mask rfl
  exact hother x mask hi

theorem takesRandom_attempt_iff :
    m.attempt.takesRandom = true ↔ ∃ x mask, m.Executes (.random x mask) := by
  simp only [← next?_eq_some_iff, Attempt.takesRandom, attempt]
  split <;> simp_all

/-- A step takes one number if it executes a random instruction, and none otherwise. -/
theorem random_step (m : Machine) :
    m.step.2.core.random = m.core.random.skip ([m.attempt].countP Attempt.takesRandom) := by
  by_cases htakes : ∃ x mask, m.Executes (.random x mask)
  · have hentry : m.attempt.takesRandom = true := takesRandom_attempt_iff.mpr htakes
    obtain ⟨x, mask, hexec⟩ := htakes
    rw [List.countP_cons_of_pos hentry, hexec.step_of_random]
    rfl
  · have hentry : ¬ m.attempt.takesRandom = true := fun h => htakes (takesRandom_attempt_iff.mp h)
    have hother : ∀ x mask, ¬ m.Executes (.random x mask) := by
      intro x mask hexec
      exact htakes ⟨x, mask, hexec⟩
    rw [List.countP_cons_of_neg hentry, random_step_of_other hother]
    rfl

/-! ## Runs -/

theorem position_new (settings : Settings) (entropy : Nat → UInt32) :
    (new settings entropy).core.random.position = 0 := by
  simp only [new]
  split <;> rfl

theorem stream_new_of_seed {settings : Settings} {seed : Nat} (hseed : settings.seed = some seed)
    (entropy : Nat → UInt32) :
    (new settings entropy).core.random.stream = ChaCha.stream (UInt64.ofNat seed) := by
  simp only [new, hseed]
  rfl

/-- An action takes as many numbers as it executes random instructions. -/
theorem random_act (m : Machine) (a : Action) :
    (m.act a).core.random = m.core.random.skip ((m.attempts a).countP Attempt.takesRandom) := by
  cases a with
  | load contents =>
    cases contents with
    | error text => rfl
    | ok program =>
      simp only [act, loadContents, load]
      split <;> rfl
  | step => exact random_step m
  | finishFrame =>
    rw [act, core_finishFrame]
    rfl
  | undo =>
    simp only [act, undo]
    split <;> rfl
  | _ => rfl

/-- The numbers that a run has taken are as many as the random instructions in its log. -/
theorem random_acts (m : Machine) (as : List Action) :
    (m.acts as).core.random = m.core.random.skip ((m.log as).countP Attempt.takesRandom) := by
  induction as generalizing m with
  | nil => rfl
  | cons a as ih =>
    rw [acts, ih, random_act, Random.skip_skip, log, List.countP_append]

end Machine

namespace Stepper

open Machine

/-- Random numbers are taken once and in order, and never put back.

At every moment of a session with a new machine, also in the middle of a batch, let `k` be the number
of random instructions that were executed since it was switched on, those that were taken back
later included.  Then the machine is at position `k` of the stream it was started with, which the
seed determines if there is one.  If a random instruction is next, it puts the low byte of the `k`-th
number under its mask into its register, goes on to the next instruction, and changes nothing else
of the state; and the position is `k + 1` then, whatever the mask.  All other steps and actions leave
the stream and the position alone. -/
theorem random_numbers_in_order (settings : Settings) (entropy : Nat → UInt32)
    (ops : List Operation) :
    let s := powerOn settings entropy
    let stream := s.machine.core.random.stream
    (∀ seed, settings.seed = some seed → stream = ChaCha.stream (UInt64.ofNat seed)) ∧
      (s.run ops).machine = s.machine.acts (s.trace ops) ∧
      ∀ done, done <+: s.trace ops →
        let m := s.machine.acts done
        let k := (s.machine.log done).countP Attempt.takesRandom
        m.core.random = ⟨stream, k⟩ ∧
          (∀ x mask, m.Executes (.random x mask) →
            m.step.1 = .ok .next ∧
              (m.act .step).state.reg x = (stream k).toUInt8 &&& mask ∧
              (m.act .step).state = m.state.advance.setReg x ((stream k).toUInt8 &&& mask) ∧
              (m.act .step).core.random = ⟨stream, k + 1⟩) ∧
          ∀ a, (a = .step → ∀ x mask, ¬ m.Executes (.random x mask)) →
            (m.act a).core.random = m.core.random := by
  intro s stream
  have hstart : s.machine.core.random = ⟨stream, 0⟩ := by
    rw [← position_new settings entropy]
    rfl
  refine ⟨?_, machine_run s ops, ?_⟩
  · intro seed hseed
    exact stream_new_of_seed hseed entropy
  · intro done _ m k
    have hnow : m.core.random = ⟨stream, k⟩ := by
      calc
        m.core.random = s.machine.core.random.skip k := random_acts s.machine done
        _ = ⟨stream, k⟩ := by rw [hstart, Random.skip, Nat.zero_add]
    refine ⟨hnow, ?_, ?_⟩
    · intro x mask hexec
      have hbyte : m.core.random.byte = (stream k).toUInt8 := by rw [hnow]; rfl
      have hstate : (m.act .step).state =
          m.state.advance.setReg x ((stream k).toUInt8 &&& mask) := by
        rw [act, hexec.step_of_random, ← hbyte]
        rfl
      refine ⟨by rw [hexec.step_of_random], ?_, hstate, ?_⟩
      · rw [hstate, State.reg_setReg, if_pos rfl]
      · rw [act, hexec.step_of_random]
        show m.core.random.skip 1 = _
        rw [hnow]
        rfl
    · intro a ha
      cases a with
      | step => exact random_step_of_other (ha rfl)
      | _ => exact random_act m _

end Stepper
end Chip8
