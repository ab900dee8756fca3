import Chip8.Proofs.Machine.Halted

/-!
# Batches — the machines that a batch passes through

`Machine.after` is the machine after a number of steps are tried.  A batch leaves this machine
whether it succeeds or fails (`Machine.machine_stepsFrom`): the steps that a fault cuts off would be
refused, and change nothing.  On a running machine only a trap makes a batch fail
(`Machine.trap_of_failed_steps`).

`Machine.step_together` is for two machines that take a step each.  If the steps of their cores come
to the same, seen through functions that forget where the machines differ, both are refused, both
succeed, or both meet the same trap.
-/

namespace Chip8
namespace Machine

variable {m n : Machine} {flow last : Flow} {fault : Fault} {k : Nat}

/-- The machine after a number of steps are tried. -/
def after (m : Machine) : Nat → Machine
  | 0 => m
  | k + 1 => m.step.2.after k

theorem after_succ (m : Machine) (k : Nat) : m.after (k + 1) = (m.after k).step.2 := by
  induction k generalizing m with
  | zero => rfl
  | succ k ih => exact ih m.step.2

theorem after_add (m : Machine) (a b : Nat) : m.after (a + b) = (m.after a).after b := by
  induction a generalizing m with
  | zero => rw [Nat.zero_add, after]
  | succ a ih =>
    rw [Nat.succ_add]
    exact ih m.step.2

theorem after_of_halted (hhalt : m.halted = true) (k : Nat) : m.after k = m := by
  induction k with
  | zero => rfl
  | succ k ih => rw [after, step_of_halted hhalt, ih]

/-- A batch leaves the machine that its steps lead to, also if it ends with a fault. -/
theorem machine_stepsFrom (m : Machine) (flow : Flow) (k : Nat) :
    (m.stepsFrom flow k).2 = m.after k := by
  induction k generalizing m flow with
  | zero => rfl
  | succ k ih =>
    cases hstep : m.step with
    | mk outcome next =>
      cases outcome with
      | ok first =>
        simp only [stepsFrom, after, hstep]
        exact ih next first
      | error fault =>
        simp only [stepsFrom, after, hstep]
        exact (after_of_halted (halted_of_failed_step hstep) k).symm

theorem stepsFrom_of_succeeds (h : ∀ j < k, (m.after j).step.1 = .ok flow) :
    (m.stepsFrom flow k).1 = .ok flow := by
  induction k generalizing m with
  | zero => rfl
  | succ k ih =>
    have hfirst : m.step.1 = .ok flow := h 0 (Nat.succ_pos k)
    have hstep : m.step = (.ok flow, m.step.2) := Prod.ext hfirst rfl
    rw [stepsFrom, hstep]
    exact ih fun j hj => h (j + 1) (Nat.succ_lt_succ hj)

theorem halted_after (hok : (m.stepsFrom flow k).1 = .ok last) :
    (m.after k).halted = m.halted := by
  induction k generalizing m flow with
  | zero => rfl
  | succ k ih =>
    obtain ⟨first, next, hstep, hrest⟩ := stepsFrom_succ_ok (Prod.ext hok rfl)
    have hnext : m.step.2 = next := congrArg Prod.snd hstep
    calc
      (m.after (k + 1)).halted = (next.after k).halted := by rw [after, hnext]
      _ = next.halted := ih (congrArg Prod.fst hrest)
      _ = false := running_of_step hstep
      _ = m.halted := (step_eq_ok_iff.mp hstep).1.symm

/-- A batch can be cut in two.  The second part goes on from the first, unless that has failed. -/
theorem stepsFrom_add (m : Machine) (flow : Flow) (a b : Nat) :
    m.stepsFrom flow (a + b) =
      match m.stepsFrom flow a with
      | (.ok last, n) => n.stepsFrom last b
      | (.error fault, n) => (.error fault, n) := by
  induction a generalizing m flow with
  | zero => rw [Nat.zero_add, stepsFrom]
  | succ a ih =>
    rw [Nat.succ_add, stepsFrom, stepsFrom]
    cases hstep : m.step with
    | mk outcome next =>
      cases outcome with
      | ok first => exact ih next first
      | error fault => rfl

/-- A batch that succeeds is one whose steps all succeed. -/
theorem isOk_stepsFrom_iff :
    (m.stepsFrom flow k).1.isOk = true ↔ ∀ j < k, (m.after j).step.1.isOk = true := by
  induction k generalizing m flow with
  | zero => simp [stepsFrom, Except.isOk, Except.toBool]
  | succ k ih =>
    cases hstep : m.step with
    | mk outcome next =>
      have hoks : (∀ j < k + 1, (m.after j).step.1.isOk = true) ↔
          outcome.isOk = true ∧ ∀ j < k, (next.after j).step.1.isOk = true := by
        rw [Nat.forall_lt_succ_left]
        simp only [after, hstep]
      rw [hoks, stepsFrom, hstep]
      cases outcome with
      | ok first => exact ih.trans (and_iff_right rfl).symm
      | error fault => exact ⟨fun h => absurd h Bool.false_ne_true, fun h => h.1⟩

theorem exists_flow_of_steps (hok : ∀ j < k, (m.after j).step.1.isOk = true) :
    ∃ flow, (m.steps k).1 = .ok flow := by
  have hall : (m.steps k).1.isOk = true := isOk_stepsFrom_iff.mpr hok
  cases houtcome : (m.steps k).1 with
  | ok flow => exact ⟨flow, rfl⟩
  | error fault =>
    rw [houtcome] at hall
    cases hall

/-- A batch that fails has a first step that fails, and ends with it. -/
theorem failed_step_of_failed_steps (h : m.stepsFrom flow k = (.error fault, n)) :
    ∃ j < k, (∀ i < j, (m.after i).step.1.isOk = true) ∧ (m.after j).step = (.error fault, n) := by
  induction k generalizing m flow with
  | zero => cases h
  | succ k ih =>
    rcases stepsFrom_succ_error h with hstep | ⟨first, next, hstep, hrest⟩
    · exact ⟨0, Nat.succ_pos k, fun i hi => absurd hi (Nat.not_lt_zero i), hstep⟩
    · obtain ⟨j, hj, hok, hfail⟩ := ih hrest
      have hnext : m.step.2 = next := congrArg Prod.snd hstep
      refine ⟨j + 1, Nat.succ_lt_succ hj, ?_, ?_⟩
      · rw [Nat.forall_lt_succ_left]
        simp only [after, hstep]
        exact ⟨rfl, hok⟩
      · rw [after, hnext]
        exact hfail

/-- Both machines are halted, or both execute a step that comes to the same, or both meet the same
trap. -/
theorem step_together {α : Type} {f g : Retired → α} (hhalt : m.halted = n.halted)
    (hcore : m.core.step.map f = n.core.step.map g) :
    (m.step = (.error .halted, m) ∧ n.step = (.error .halted, n)) ∨
      (∃ r r', f r = g r' ∧ m.core.step = .ok r ∧ n.core.step = .ok r' ∧
        m.step = (.ok r.flow, m.commit r) ∧ n.step = (.ok r'.flow, n.commit r')) ∨
      (∃ cause, m.step = (.error (.trap cause), m.stopOn (.trap cause)) ∧
        n.step = (.error (.trap cause), n.stopOn (.trap cause))) := by
  rcases step_cases m with ⟨hm, hs⟩ | ⟨r, hm, hr, hs⟩ | ⟨cause, hm, hr, hs⟩
  · exact .inl ⟨hs, step_of_halted (hhalt ▸ hm)⟩
  · cases hn : n.core.step with
    | error cause =>
      rw [hr, hn] at hcore
      cases hcore
    | ok r' =>
      rw [hr, hn] at hcore
      have hsame : f r = g r' := Except.ok.inj hcore
      exact .inr (.inl ⟨r, r', hsame, hr, rfl, hs, step_of_retired (hhalt ▸ hm) hn⟩)
  · cases hn : n.core.step with
    | ok r' =>
      rw [hr, hn] at hcore
      cases hcore
    | error cause' =>
      rw [hr, hn] at hcore
      obtain rfl : cause = cause' := Except.error.inj hcore
      exact .inr (.inr ⟨cause, hs, step_of_trapped (hhalt ▸ hm) hn⟩)

end Machine
end Chip8
