import Chip8.Proofs.KeyPress
import Chip8.Proofs.Loading
import Chip8.Proofs.Machine.Batch
import Chip8.Proofs.Onlookers
import Chip8.Proofs.RandomNumbers
import Chip8.Proofs.Session.Reachable
import Chip8.Proofs.Subroutine
import Chip8.Proofs.Undo

/-!
# Redo — steps that were taken back are taken again

Taking steps back restores the state but not the world: keys that were released and random numbers
that were taken stay so.  A batch that does neither leaves the world as it found it
(`Machine.sameWorld_after`), so after it is taken back the machine has the core from before the
batch, and executes it as it did the first time.

The history is shorter by then, if the batch has made it forget old entries.  What it holds after a
batch is decided by the states on the way, put in front of the timeline and cut to its capacity
(`Machine.timeline_after`).  The second run puts the same states in front of what the first run has
left of the timeline, and the cut takes away nothing but what is missing already.
-/

namespace Chip8

theorem History.eq_of_newestFirst {α : Type} {h k : History α} (hcapacity : h.capacity = k.capacity)
    (hnewest : h.newestFirst = k.newestFirst) : h = k := by
  rcases h with ⟨capacity, ⟨entries⟩⟩
  rcases k with ⟨capacity', ⟨entries'⟩⟩
  obtain rfl : capacity = capacity' := hcapacity
  obtain rfl : entries = entries' := List.reverse_inj.mp hnewest
  rfl

namespace Machine

variable {m n k : Machine} {flow last : Flow} {count : Nat}

/-- The history of a reachable machine is no larger than it may be. -/
theorem remembers_of_reachable (h : Reachable m) : ∃ past, m.Remembers past := by
  induction h with
  | new settings entropy => exact ⟨[], Nat.zero_le _, rfl⟩
  | act a _ _ ih =>
    obtain ⟨past, hpast⟩ := ih
    exact ⟨_, remembers_act _ past a hpast⟩
  | @restore _ n _ _ ih _ =>
    obtain ⟨past, hpast⟩ := ih
    exact ⟨_, remembers_act _ past (.restore n.state) hpast⟩

theorem reachable_after (h : Reachable m) (count : Nat) : Reachable (m.after count) := by
  induction count with
  | zero => exact h
  | succ count ih =>
    rw [after_succ]
    exact ih.act .step nofun

/-! ## The world -/

theorem SameWorld.refl (m : Machine) : m.SameWorld m := ⟨rfl, rfl, rfl, rfl⟩

theorem SameWorld.trans (h : m.SameWorld n) (h' : n.SameWorld k) : m.SameWorld k :=
  ⟨h.random.trans h'.random, h.keypad.trans h'.keypad, h.clock.trans h'.clock,
    h.capacity.trans h'.capacity⟩

/-- In the same state and the same world, two machines that are both halted or both not have the same
core. -/
theorem SameWorld.sameCore (h : m.SameWorld n) (hstate : m.state = n.state)
    (hhalt : m.halted = n.halted) : m.SameCore n := by
  refine ⟨?_, h.clock, hhalt⟩
  have hkeypad : m.core.keypad = n.core.keypad := h.keypad
  have hstate' : m.core.state = n.core.state := hstate
  calc
    m.core = ⟨m.core.state, m.core.keypad, m.core.random⟩ := rfl
    _ = ⟨n.core.state, n.core.keypad, n.core.random⟩ := by rw [hstate', hkeypad, h.random]

/-- The next step completes no key wait and takes no random number. -/
def LeavesWorld (m : Machine) : Prop :=
  m.completed? = none ∧ ∀ x mask, ¬ m.Executes (.random x mask)

theorem LeavesWorld.step (h : m.LeavesWorld) : m.SameWorld m.step.2 := by
  rcases h with ⟨hwait, hrandom⟩
  refine ⟨(random_step_of_other hrandom).symm, ?_, ?_, ?_⟩
  · rw [keypad_step, hwait]
  · exact (clock_act m .step).symm
  · exact (historyCapacity_act m .step).symm

/-- Every instruction but a wait and the random instruction leaves the world alone. -/
theorem Executes.leavesWorld {i : Instr} (h : m.Executes i) (hwait : ∀ x, i ≠ .waitKey x)
    (hrandom : ∀ x mask, i ≠ .random x mask) : m.LeavesWorld := by
  refine ⟨completed?_of_not_polled ?_, ?_⟩
  · cases hpolled : m.core.polled? with
    | none => rfl
    | some x =>
      rcases Core.polled?_eq_some_iff.mp hpolled with hpending | ⟨hnone, hword⟩
      · cases h.2.1.symm.trans hpending
      · exact (hwait x (h.unique ⟨h.1, hnone, hword⟩)).elim
  · intro x mask hexec
    exact hrandom x mask (h.unique hexec)

theorem sameWorld_after (hquiet : ∀ j < count, (m.after j).LeavesWorld) :
    m.SameWorld (m.after count) := by
  induction count with
  | zero => exact SameWorld.refl m
  | succ count ih =>
    have hbefore := ih fun j hj => hquiet j (by omega)
    rw [after_succ]
    exact hbefore.trans (hquiet count (Nat.lt_succ_self count)).step

/-- Taking a step back leaves the world alone, and the halt. -/
theorem sameWorld_undo (m : Machine) : m.SameWorld m.undo.2 ∧ m.undo.2.halted = m.halted := by
  refine ⟨⟨?_, (keypad_act m .undo).symm, (clock_act m .undo).symm,
    (historyCapacity_act m .undo).symm⟩, ?_⟩
  · exact (random_act m .undo).symm
  · simp only [undo]
    split <;> rfl

/-! ## Batches that succeed -/

theorem historyCapacity_after (m : Machine) (count : Nat) :
    (m.after count).history.capacity = m.history.capacity := by
  induction count with
  | zero => rfl
  | succ count ih => rw [after_succ, ← ih, ← historyCapacity_act (m.after count) .step, act]

/-- The states after each of the next steps, newest first. -/
def path (m : Machine) : Nat → List State
  | 0 => []
  | count + 1 => m.step.2.path count ++ [m.step.2.state]

theorem length_path (m : Machine) (count : Nat) : (m.path count).length = count := by
  induction count generalizing m with
  | zero => rfl
  | succ count ih => rw [path, List.length_append, ih, List.length_singleton]

/-- An executed step puts the new state in front of the timeline, which is as long as the history and
the state can be. -/
theorem timeline_step (hsize : m.history.size ≤ m.history.capacity) (hstep : m.step = (.ok flow, n)) :
    n.timeline = (n.state :: m.timeline).take (m.history.capacity + 1) := by
  have hpush : n.history = m.history.push m.state := by
    obtain ⟨_, r, _, _, rfl⟩ := step_eq_ok_iff.mp hstep
    rfl
  rw [timeline, hpush, List.take_succ_cons]
  by_cases hc : m.history.capacity = 0
  · -- A history without capacity is empty, and stays so.
    have hempty : m.history.newestFirst = [] := by
      apply List.eq_nil_of_length_eq_zero
      rw [History.length_newestFirst]
      omega
    rw [History.push_of_capacity_eq_zero hc, hempty, hc, List.take_zero]
  · rw [History.newestFirst_push hc, timeline]

theorem timeline_after (hsize : m.history.size ≤ m.history.capacity)
    (hok : (m.stepsFrom flow count).1 = .ok last) :
    (m.after count).timeline = (m.path count ++ m.timeline).take (m.history.capacity + 1) := by
  induction count generalizing m flow with
  | zero =>
    have hlength : m.timeline.length ≤ m.history.capacity + 1 := by
      rw [length_timeline]
      omega
    exact (List.take_of_length_le hlength).symm
  | succ count ih =>
    obtain ⟨first, next, hstep, hrest⟩ := stepsFrom_succ_ok (Prod.ext hok rfl)
    have hnext : m.step.2 = next := congrArg Prod.snd hstep
    have hcapacity : next.history.capacity = m.history.capacity := by
      rw [← hnext]
      exact historyCapacity_act m .step
    have hfirst := timeline_step hsize hstep
    have hsize' : next.history.size ≤ next.history.capacity := by
      have hlength := congrArg List.length hfirst
      rw [length_timeline, List.length_take] at hlength
      omega
    have hlater := ih hsize' (congrArg Prod.fst hrest)
    rw [hcapacity] at hlater
    calc
      (m.after (count + 1)).timeline
          = (next.path count ++ next.timeline).take (m.history.capacity + 1) := by
            rw [after, hnext, hlater]
      _ = (next.path count ++ next.state :: m.timeline).take (m.history.capacity + 1) := by
            -- What the first cut takes away, the second would take away as well.
            rw [hfirst, List.take_append, List.take_append, List.take_take,
              Nat.min_eq_left (Nat.sub_le _ _)]
      _ = (m.path (count + 1) ++ m.timeline).take (m.history.capacity + 1) := by
            rw [path, hnext, List.append_assoc, List.singleton_append]

/-- A batch that succeeds fills the history, as far as there is room. -/
theorem historySize_after (hsize : m.history.size ≤ m.history.capacity)
    (hok : (m.stepsFrom flow count).1 = .ok last) :
    (m.after count).history.size = min (m.history.size + count) m.history.capacity := by
  have hlength := congrArg List.length (timeline_after hsize hok)
  simp only [timeline, List.length_cons, List.length_take, List.length_append, length_path,
    History.length_newestFirst] at hlength
  omega

/-! ## The same core -/

namespace SameCore

theorem after (h : m.SameCore n) (count : Nat) : (m.after count).SameCore (n.after count) := by
  induction count with
  | zero => exact h
  | succ count ih =>
    rw [after_succ, after_succ]
    exact ih.step.2.2

theorem path (h : m.SameCore n) (count : Nat) : m.path count = n.path count := by
  induction count generalizing m n with
  | zero => rfl
  | succ count ih =>
    have hnext := h.step.2.2
    rw [Machine.path, Machine.path, ih hnext, hnext.state]

theorem steps (h : m.SameCore n) (count : Nat) : (m.steps count).1 = (n.steps count).1 := by
  have houtcome := (sameCore_simulation.stepsFrom (by simp) h .next count).1
  rwa [View.result_exact, View.result_exact] at houtcome

end SameCore

end Machine

namespace Stepper

open Machine

variable {s : Stepper} {count : Nat} {flow : Flow}

theorem sameWorld_takeBack (s : Stepper) (count : Nat) :
    s.machine.SameWorld (s.run (List.replicate count (.act .undo))).machine ∧
      (s.run (List.replicate count (.act .undo))).machine.halted = s.machine.halted := by
  induction count generalizing s with
  | zero => exact ⟨SameWorld.refl s.machine, rfl⟩
  | succ count ih =>
    rcases sameWorld_undo s.machine with ⟨hworld, hhalt⟩
    rcases ih (s.perform (.act .undo)).2 with ⟨hworld', hhalt'⟩
    exact ⟨hworld.trans hworld', hhalt'.trans hhalt⟩

/-- A batch that leaves the world alone and has no more steps than the history can hold is taken back
step by step.  This leads back to the core from before the batch, and the timeline is the newest part
of the one before it. -/
theorem takeBack_batch (hsize : s.machine.history.size ≤ s.machine.history.capacity)
    (hroom : count ≤ s.machine.history.capacity) (hok : (s.machine.steps count).1 = .ok flow)
    (hquiet : ∀ j < count, (s.machine.after j).LeavesWorld) :
    let done := (s.perform (.steps count)).2
    let undos := List.replicate count (Operation.act .undo)
    let back := done.run undos
    done.answers undos = List.replicate count (.undone true) ∧
      s.machine.SameWorld back.machine ∧ s.machine.SameCore back.machine ∧
      back.machine.timeline =
        s.machine.timeline.take (s.machine.history.capacity + 1 - count) := by
  intro done undos back
  have hdone : done.machine = s.machine.after count := machine_stepsFrom s.machine .next count
  have hgrown : count ≤ done.machine.history.size := by
    rw [hdone, historySize_after hsize hok]
    omega
  obtain ⟨hanswers, hundone⟩ := answers_takeBack takesBack_undo count done hgrown
  have hback : back.machine.timeline =
      s.machine.timeline.take (s.machine.history.capacity + 1 - count) := by
    rw [hundone, hdone, timeline_after hsize hok, List.drop_take,
      List.drop_left' (length_path s.machine count)]
  have hstate : s.machine.state = back.machine.state := by
    obtain ⟨room, hleft⟩ : ∃ room, s.machine.history.capacity + 1 - count = room + 1 :=
      ⟨s.machine.history.capacity - count, by omega⟩
    rw [hleft] at hback
    exact (List.cons.inj hback).1.symm
  obtain ⟨hworld, hhalt⟩ := sameWorld_takeBack done count
  have hsame : s.machine.SameWorld back.machine := by
    rw [hdone] at hworld
    exact (sameWorld_after hquiet).trans hworld
  refine ⟨hanswers, hsame, hsame.sameCore hstate ?_, hback⟩
  calc
    s.machine.halted = done.machine.halted := by rw [hdone, halted_after hok]
    _ = back.machine.halted := hhalt.symm

/-- Steps that are taken back and taken again come to the same.

On a reachable machine a batch succeeds that has no more steps than the history can hold, and none of
its steps takes a random number or completes a key wait.  Then as many steps can be taken back, which
leads to the state before the batch.  If the batch is executed again, it ends with the same flow, and
leaves the state, the whole history, the random numbers and the keypad as they were after the first
time, even if the history was full and has forgotten entries. -/
theorem redo_reproduces_run (hs : Reachable s.machine) (hroom : count ≤ s.machine.history.capacity)
    (hok : (s.machine.steps count).1 = .ok flow)
    (hquiet : ∀ j < count, (s.machine.after j).LeavesWorld) :
    let done := (s.perform (.steps count)).2
    let undos := List.replicate count (Operation.act .undo)
    let back := done.run undos
    let again := back.perform (.steps count)
    (s.perform (.steps count)).1 = .ran (.ok flow) ∧
      done.answers undos = List.replicate count (.undone true) ∧
      back.machine.state = s.machine.state ∧
      again.1 = .ran (.ok flow) ∧
      again.2.machine.state = done.machine.state ∧
      again.2.machine.history = done.machine.history ∧
      again.2.machine.core.random = done.machine.core.random ∧
      again.2.machine.keypad = done.machine.keypad := by
  intro done undos back again
  obtain ⟨past, hpast⟩ := remembers_of_reachable hs
  obtain ⟨hanswers, hworld, hcore, hback⟩ := takeBack_batch hpast.bounded hroom hok hquiet
  have hdone : done.machine = s.machine.after count := machine_stepsFrom s.machine .next count
  have hagain : again.2.machine = back.machine.after count :=
    machine_stepsFrom back.machine .next count
  have hokAgain : (back.machine.steps count).1 = .ok flow := (hcore.steps count).symm.trans hok
  have hsame : done.machine.SameCore again.2.machine := by
    rw [hdone, hagain]
    exact hcore.after count
  have hcapacity : s.machine.history.capacity = back.machine.history.capacity := hworld.capacity
  have hbounded : back.machine.history.size ≤ back.machine.history.capacity := by
    have hlength : back.machine.timeline.length =
        min (s.machine.history.capacity + 1 - count) s.machine.timeline.length := by
      rw [← List.length_take]
      exact congrArg List.length hback
    rw [timeline, List.length_cons, History.length_newestFirst] at hlength
    omega
  have htimeline : again.2.machine.timeline = done.machine.timeline := by
    -- The same states come in front, and the cut takes away nothing but what is missing already.
    calc
      again.2.machine.timeline
          = (s.machine.path count ++ back.machine.timeline).take
              (s.machine.history.capacity + 1) := by
            rw [hagain, timeline_after hbounded hokAgain, hcore.path count, hcapacity]
      _ = (s.machine.path count ++ s.machine.timeline).take (s.machine.history.capacity + 1) := by
            rw [hback, List.take_append, List.take_append, length_path, List.take_take,
              Nat.min_self]
      _ = done.machine.timeline := by rw [hdone, timeline_after hpast.bounded hok]
  have hhistory : again.2.machine.history = done.machine.history := by
    refine History.eq_of_newestFirst ?_ (List.cons.inj htimeline).2
    rw [hagain, hdone, historyCapacity_after, historyCapacity_after, hcapacity]
  exact ⟨congrArg Answer.ran hok, hanswers, hcore.state.symm, congrArg Answer.ran hokAgain,
    hsame.state.symm, hhistory, congrArg Core.random hsame.core.symm, hsame.keypad.symm⟩

/-- A program that calls itself, on a machine with room for two states.  The history is full after three
steps, and two more make it forget what it holds. -/
theorem redo_reproduces_run_of_full_history :
    let m := (Machine.new { historyCapacity := 2 } fun _ => 0).act (.load (.ok #[0x22, 0x00]))
    let s := start (m.after 3)
    let done := (s.perform (.steps 2)).2
    let back := done.run (List.replicate 2 (.act .undo))
    let again := back.perform (.steps 2)
    Reachable s.machine ∧ s.machine.history.size = 2 ∧ s.machine.history.capacity = 2 ∧
      (s.machine.steps 2).1 = .ok .jump ∧
      (∀ j < 2, (s.machine.after j).LeavesWorld) ∧
      back.machine.state = s.machine.state ∧
      again.2.machine.history = done.machine.history := by
  -- This holds of every machine with the program.
  have hrun (m : Machine) (hm : m.StandsAt #[0x22, 0x00] 0x200 CallStack.empty) :
      (m.steps 3).1 = .ok .jump ∧ ((m.after 3).steps 2).1 = .ok .jump ∧
        ∀ j < 2, ((m.after 3).after j).LeavesWorld := by
    have hcalls : ∀ j < 5, (m.after j).Executes (.call 0x200) ∧ (m.after j).step.1 = .ok .jump := by
      intro j hj
      obtain ⟨stack, hdepth, hnow, hcall⟩ := hm.after_self_calls (k := j) (by omega)
      refine ⟨hcall, ?_⟩
      rw [hcall.step_of_call (by rw [hnow.depth]; omega)]
    refine ⟨?_, ?_, ?_⟩
    · have hok : ∀ j < 3, (m.after j).step.1 = .ok .jump := fun j hj => (hcalls j (by omega)).2
      exact stepsFrom_of_succeeds hok
    -- The steps of the batch come after the three.
    · have hok : ∀ j < 2, ((m.after 3).after j).step.1 = .ok .jump :=
        fun j hj => (hcalls (j + 3) (by omega)).2
      exact stepsFrom_of_succeeds hok
    · intro j hj
      exact Executes.leavesWorld (hcalls (j + 3) (by omega)).1 nofun nofun
  intro m
  have hm : m.StandsAt #[0x22, 0x00] 0x200 CallStack.empty := ⟨rfl, rfl⟩
  have hloaded : Reachable m := (Reachable.new _ _).act _ nofun
  have hempty : m.history.size = 0 := rfl
  have hcapacity : m.history.capacity = 2 := historyCapacity_act _ _
  -- From here on this is all that counts, and not how the machine was built.
  clear_value m
  intro s
  obtain ⟨hbefore, hbatch, hnone⟩ := hrun m hm
  have hreach : Reachable s.machine := reachable_after hloaded 3
  have hsize : s.machine.history.size = 2 := by
    show (m.after 3).history.size = 2
    rw [historySize_after (by omega) hbefore, hempty, hcapacity]
    rfl
  have hroom : s.machine.history.capacity = 2 := (historyCapacity_after m 3).trans hcapacity
  obtain ⟨_, _, hstate, _, _, hhistory, _, _⟩ :=
    redo_reproduces_run hreach (Nat.le_of_eq hroom.symm) hbatch hnone
  exact ⟨hreach, hsize, hroom, hbatch, hnone, hstate, hhistory⟩

end Stepper
end Chip8
