import Chip8.Proofs.Frames
import Chip8.Proofs.Subroutine

/-!
# Composition — batches can be cut anywhere

A batch of `a + b` steps is a batch of `a` steps and one of `b` steps behind it.  If the first part
fails, it has halted the machine, so the second part is refused and changes nothing.  That makes the
machine the same in all cases; only the fault that is answered is that of the part that failed first
(`Machine.Composes`).

A frame ends behind its last step, so it can be cut off behind a batch in the same way.  The second
part must not be empty if the first one fails: a frame without steps ends on a halted machine too.
-/

namespace Chip8
namespace Machine

variable {m : Machine} {first rest whole : Outcome} {b : Nat}

/-- How the outcome of a batch comes from those of its parts, if the second part has `b` steps. -/
structure Composes (b : Nat) (first rest whole : Outcome) : Prop where
  fails_iff : whole.isOk = false ↔ first.isOk = false ∨ rest.isOk = false
  fault_of_first : ∀ fault, first = .error fault → whole = .error fault
  outcome_of_rest : first.isOk = true → 1 ≤ b → whole = rest
  outcome_of_first : b = 0 → whole = first

namespace Composes

theorem of_failed (fault : Fault) : Composes b (.error fault) rest (.error fault) where
  fails_iff := iff_of_true rfl (.inl rfl)
  fault_of_first _ h := h
  outcome_of_rest h := absurd h Bool.false_ne_true
  outcome_of_first _ := rfl

theorem of_none {last : Flow} (hrest : rest.isOk = true) :
    Composes 0 (.ok last) rest (.ok last) where
  fails_iff := (or_iff_left (by simp [hrest])).symm
  fault_of_first fault h := by cases h
  outcome_of_rest _ h := absurd h (Nat.not_succ_le_zero 0)
  outcome_of_first _ := rfl

theorem of_succeeded {last : Flow} : Composes (b + 1) (.ok last) rest rest where
  fails_iff := by simp [Except.isOk, Except.toBool]
  fault_of_first fault h := by cases h
  outcome_of_rest _ _ := rfl
  outcome_of_first h := absurd h (Nat.succ_ne_zero b)

end Composes

theorem outcomes_compose (m : Machine) (a b : Nat) :
    Composes b (m.steps a).1 ((m.steps a).2.steps b).1 (m.steps (a + b)).1 := by
  simp only [steps]
  cases hfirst : m.stepsFrom .next a with
  | mk outcome next =>
    cases outcome with
    | error fault =>
      have hwhole : m.stepsFrom .next (a + b) = (.error fault, next) := by
        rw [stepsFrom_add, hfirst]
      rw [hwhole]
      exact .of_failed fault
    | ok last =>
      have hwhole : m.stepsFrom .next (a + b) = next.stepsFrom last b := by
        rw [stepsFrom_add, hfirst]
      rw [hwhole]
      cases b with
      | zero => exact .of_none rfl
      | succ b =>
        -- A batch that is not empty answers with the flow of its own last step.
        have hrest : next.stepsFrom last (b + 1) = next.stepsFrom .next (b + 1) := rfl
        rw [hrest]
        exact .of_succeeded

theorem machines_compose (m : Machine) (a b : Nat) :
    ((m.steps a).2.steps b).2 = (m.steps (a + b)).2 := by
  simp only [steps, machine_stepsFrom]
  exact (m.after_add a b).symm

/-- A frame leaves the machine of its steps, and ends it if they succeed. -/
theorem machine_frame (m : Machine) (k : Nat) :
    (m.frame k).2 =
      if (m.steps k).1.isOk then (m.steps k).2.finishFrame else (m.steps k).2 := by
  simp only [frame]
  cases m.steps k with
  | mk outcome next => cases outcome <;> rfl

/-- Whether the whole batch succeeds is decided by its second part, unless that is empty and the first
one has failed. -/
theorem isOk_rest (m : Machine) (a b : Nat) (h : 1 ≤ b ∨ (m.steps a).1.isOk = true) :
    ((m.steps a).2.steps b).1.isOk = (m.steps (a + b)).1.isOk := by
  have hcomposes := m.outcomes_compose a b
  cases hok : (m.steps a).1.isOk with
  | true =>
    cases b with
    | zero => rw [hcomposes.outcome_of_first rfl, hok]; rfl
    | succ b => rw [hcomposes.outcome_of_rest hok (Nat.succ_pos b)]
  | false =>
    -- The first part has halted the machine, and the first step of the second part is refused.
    have hwhole : (m.steps (a + b)).1.isOk = false := hcomposes.fails_iff.mpr (.inl hok)
    obtain ⟨b, rfl⟩ : ∃ b', b = b' + 1 :=
      Nat.exists_eq_add_one.mpr (h.resolve_right (by rw [hok]; exact Bool.false_ne_true))
    cases hfirst : m.steps a with
    | mk outcome next =>
      cases outcome with
      | ok last =>
        rw [hfirst] at hok
        cases hok
      | error fault =>
        rw [hwhole, steps, stepsFrom_of_halted (halted_of_failed_steps hfirst)]
        rfl

theorem frames_compose (m : Machine) (a b : Nat) (h : 1 ≤ b ∨ (m.steps a).1.isOk = true) :
    ((m.steps a).2.frame b).2 = (m.frame (a + b)).2 := by
  rw [machine_frame, machine_frame, isOk_rest m a b h, machines_compose]

/-- Batches compose, and a frame ends once, if at all.

A batch of `a` steps and one of `b` steps leave the same machine as one of `a + b` steps, and the whole
fails exactly if one of the parts does, with the fault of the first part if that has failed, and with
the outcome of the second part otherwise, unless that is empty.  The same holds of a batch of `a` steps
and a frame of `b` steps, where the machine may differ only if the first part fails and the second one
is empty.  A frame that fails is what its first steps up to the failing one have left, without a count
of the timers, a cue, a picture or an event of its own; a frame that succeeds ends once, behind its
last step. -/
theorem batches_compose (m : Machine) (a b : Nat) :
    let first := m.steps a
    (first.2.steps b).2 = (m.steps (a + b)).2 ∧
      Composes b first.1 (first.2.steps b).1 (m.steps (a + b)).1 ∧
      (1 ≤ b ∨ first.1.isOk = true → (first.2.frame b).2 = (m.frame (a + b)).2) ∧
      Composes b first.1 (first.2.frame b).1 (m.frame (a + b)).1 ∧
      (∀ k fault n, m.frame k = (.error fault, n) → ∃ j < k, m.BreaksOff j fault n) ∧
      ∀ k flow n, m.frame k = (.ok flow, n) → m.Completes k n := by
  intro first
  refine ⟨m.machines_compose a b, m.outcomes_compose a b, m.frames_compose a b, ?_,
    fun _ _ _ => breaksOff_of_failed_frame, fun _ _ _ => completes_of_frame⟩
  rw [frame_outcome, frame_outcome]
  exact m.outcomes_compose a b

/-- A frame whose second step meets a word that stands for no instruction, whole and cut in two. -/
theorem batches_compose_of_unknown_word :
    let m := (new {} fun _ => 0).act (.load (.ok #[0x22, 0x02, 0xFF, 0xFF]))
    let n := (m.frame 10).2
    (m.frame 10).1 = .error (.trap (.unknownOpcode 0xFFFF 0x202)) ∧
      ((m.steps 3).2.frame 7).2 = n ∧ n.recording.frames = 0 ∧ n.recording.frame = none := by
  have hbreaks (m : Machine)
      (hm : m.StandsAt #[0x22, 0x02, 0xFF, 0xFF] 0x200 CallStack.empty)
      (hrecording : m.recording = Recording.empty) :
      (m.frame 10).1 = .error (.trap (.unknownOpcode 0xFFFF 0x202)) ∧
        ((m.steps 3).2.frame 7).2 = (m.frame 10).2 ∧ (m.frame 10).2.recording.frames = 0 ∧
        (m.frame 10).2.recording.frame = none := by
    have hcode : (Memory.boot #[0x22, 0x02, 0xFF, 0xFF]).word 0x200 = 0x2202 ∧
        (Memory.boot #[0x22, 0x02, 0xFF, 0xFF]).word 0x202 = 0xFFFF := by
      refine ⟨?_, ?_⟩ <;> apply UInt16.toNat.inj <;> rw [Memory.toNat_word] <;>
        simp [Memory.read_boot, Memory.bootByte, Memory.programStart]
    have hcall : m.Executes (.call 0x202) := hm.executes hcode.1 rfl
    have hnext := hm.call hcall (by decide)
    have hword : (m.act .step).state.fetch = 0xFFFF := by
      rw [hnext.state]
      exact hcode.2
    have hpc : (m.act .step).state.pc = 0x202 := by
      rw [hnext.state]
      rfl
    have hcalled := hcall.step_of_call (by rw [hm.state]; decide)
    have hfirst : m.step = (.ok .jump, m.act .step) := Prod.ext (by rw [hcalled]) rfl
    have hsecond : (m.act .step).step = (.error (.trap (.unknownOpcode 0xFFFF 0x202)),
        (m.act .step).stopOn (.trap (.unknownOpcode 0xFFFF 0x202))) := by
      rw [← hword, ← hpc]
      exact step_of_trapped hnext.running
        (Core.step_of_unknown (by rw [← state, hnext.state]; rfl) (by rw [← state, hword]; rfl))
    have hframe : m.frame 10 = (m.act .step).step := by
      rw [hsecond, frame_eq_error_iff]
      simp only [steps, stepsFrom, hfirst, hsecond]
    rw [hframe, hsecond]
    -- The cut lies behind the failing step, so the second part finds the machine halted.
    rcases batches_compose m 3 7 with ⟨_, _, hcut, _, hfailed, _⟩
    obtain ⟨j, _, hbreak⟩ := hfailed 10 _ _ (hframe.trans hsecond)
    refine ⟨rfl, ?_, ?_, ?_⟩
    · rw [hcut (.inl (by decide)), hframe, hsecond]
    · rw [hbreak.presented_eq.1, hrecording]
      rfl
    · rw [hbreak.presented_eq.2, hrecording]
      rfl
  exact hbreaks _ ⟨rfl, rfl⟩ rfl

end Machine
end Chip8
