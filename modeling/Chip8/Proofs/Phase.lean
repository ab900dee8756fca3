import Chip8.Proofs.Frames
import Chip8.Proofs.Pace
import Chip8.Proofs.Redo
import Chip8.Proofs.Stepping

/-!
# Phase — steps forward and back within a frame

A stepper keeps its countdown beside the history of its machine.  A step back restores the whole state,
the timers included, also if the step forward has ended a frame.  The countdown cannot be restored, it
is counted up again, and stops at the length of a frame.  So a step back is exact in the state, and in
the countdown unless a frame has ended in between (`Stepper.backward_of_forward`).

Within a frame steps forward are steps of the machine, and the countdown says how many are left
(`Stepper.ahead_inside`).  After as many steps back they come to the same once more.  The history may
have forgotten old entries by then, but the second time it remembers one more with every step, until
it holds what it held before (`Machine.Retraces`).
-/

namespace Chip8

namespace Machine

variable {m n : Machine} {flow : Flow} {count j : Nat}

theorem acts_replicate_step (m : Machine) (count : Nat) :
    m.acts (List.replicate count .step) = m.after count := by
  induction count generalizing m with
  | zero => rfl
  | succ count ih => exact ih m.step.2

/-! ## A run that was forgotten in part -/

/-- The second machine has the core of the first one, and remembers the newest part of its timeline,
up to a number of states. -/
structure Retraces (m n : Machine) (count : Nat) : Prop where
  core : m.SameCore n
  capacity : n.history.capacity = m.history.capacity
  timeline : n.timeline = m.timeline.take count

/-- An executed step is remembered on both sides. -/
theorem Retraces.step (h : m.Retraces n count) (hsize : m.history.size ≤ m.history.capacity)
    (hcount : count ≤ m.history.capacity) (hok : m.step.1.isOk = true) :
    m.step.2.Retraces n.step.2 (count + 1) := by
  have houtcome : n.step.1 = m.step.1 := h.core.step.1.symm
  cases hm : m.step with
  | mk outcome m' =>
    cases hn : n.step with
    | mk outcome' n' =>
      rw [hm] at hok houtcome
      rw [hn] at houtcome
      obtain rfl : outcome' = outcome := houtcome
      cases outcome' with
      | error fault => cases hok
      | ok flow =>
        have hcore : m'.SameCore n' := by
          have := h.core.step.2.2
          rwa [hm, hn] at this
        have hcapacity : n'.history.capacity = m'.history.capacity := by
          have hm' := historyCapacity_act m .step
          have hn' := historyCapacity_act n .step
          rw [act, hm] at hm'
          rw [act, hn] at hn'
          rw [hm', hn', h.capacity]
        have hbounded : n.history.size ≤ n.history.capacity := by
          have hlength := congrArg List.length h.timeline
          rw [List.length_take, length_timeline, length_timeline] at hlength
          rw [h.capacity]
          omega
        refine ⟨hcore, hcapacity, ?_⟩
        calc
          n'.timeline = (n'.state :: n.timeline).take (m.history.capacity + 1) := by
            rw [timeline_step hbounded hn, h.capacity]
          _ = m'.state :: m.timeline.take (min m.history.capacity count) := by
            rw [List.take_succ_cons, h.timeline, List.take_take, hcore.state]
          _ = ((m'.state :: m.timeline).take (m.history.capacity + 1)).take (count + 1) := by
            rw [List.take_take, Nat.min_comm, Nat.succ_min_succ, List.take_succ_cons]
          _ = m'.timeline.take (count + 1) := by
            rw [timeline_step hsize hm]

theorem historySize_after_le (hsize : m.history.size ≤ m.history.capacity) (count : Nat) :
    (m.after count).history.size ≤ (m.after count).history.capacity := by
  rw [← acts_replicate_step]
  exact historySize_acts hsize _

/-- Steps of both machines, until the second one remembers all that the first one does. -/
theorem Retraces.after (h : m.Retraces n count) (hsize : m.history.size ≤ m.history.capacity)
    (hroom : count + j ≤ m.history.capacity + 1)
    (hok : ∀ i < j, (m.after i).step.1.isOk = true) :
    (m.after j).Retraces (n.after j) (count + j) := by
  induction j with
  | zero => exact h
  | succ j ih =>
    have hbefore := ih (by omega) fun i hi => hok i (Nat.lt_succ_of_lt hi)
    rw [after_succ, after_succ]
    refine hbefore.step (historySize_after_le hsize j) ?_ (hok j (Nat.lt_succ_self j))
    rw [historyCapacity_after]
    omega

theorem Retraces.history_eq (h : m.Retraces n count) (hsize : m.history.size < count) :
    n.history = m.history := by
  have htimeline : n.timeline = m.timeline := by
    rw [h.timeline, List.take_of_length_le]
    rw [length_timeline]
    exact hsize
  exact History.eq_of_newestFirst h.capacity (List.cons.inj htimeline).2

end Machine

namespace Stepper

open Machine

variable {s t : Stepper} {flow : Flow} {n : Nat}

/-! ## One step forward and one back -/

theorem backward_of_forward (hroom : s.machine.history.capacity ≠ 0) (hframe : s.InFrame)
    (hforward : s.forward = (.ok flow, t)) :
    ∃ u, t.backward = (true, u) ∧ u.machine.state = s.machine.state ∧
      u.countdown = if s.countdown = 1 then s.machine.frameSteps else s.countdown := by
  have hnewest : t.machine.history.newestFirst =
      s.machine.state :: s.machine.history.newestFirst.take (s.machine.history.capacity - 1) := by
    obtain ⟨more, hmore⟩ := Nat.exists_eq_succ_of_ne_zero hroom
    rw [history_forward hforward, History.newestFirst_push hroom, hmore, List.take_succ_cons]
    rfl
  have hsteps : t.machine.frameSteps = s.machine.frameSteps := by
    have hperform := frameSteps_perform s .forward
    rwa [show (s.perform .forward).2 = s.forward.2 from rfl, hforward] at hperform
  rcases t.machine.undo_cases with ⟨hempty, _⟩ | ⟨m, hundo, htop, _⟩
  · rw [hempty] at hnewest
    cases hnewest
  · have hbackward : t.backward = (true, t.backward.2) := by
      refine Prod.ext ?_ rfl
      rw [backward_changed, hundo]
    refine ⟨t.backward.2, hbackward, ?_, ?_⟩
    · rw [machine_backward, hundo]
      exact (List.cons.inj (htop.symm.trans hnewest)).1
    · have hcountdown := countdown_forward s
      have hok : s.machine.step.1.isOk = true := by
        rw [← forward_outcome, hforward]
        rfl
      rw [hforward, hok, if_pos rfl] at hcountdown
      rw [countdown_backward, hundo, if_pos rfl, hcountdown, hsteps]
      have hpositive := hframe.positive
      have hwithin := hframe.within
      -- Where a frame has ended, the countdown stands at the length of a frame already.
      by_cases hlast : s.countdown = 1
      · rw [if_pos (by omega), if_pos hlast]
        omega
      · rw [if_neg (by omega), if_neg hlast]
        omega

/-! ## Steps forward within a frame -/

/-- As long as the countdown is not used up, steps forward are steps of the machine. -/
structure Inside (s : Stepper) (n : Nat) : Prop where
  ahead : s.ahead n = ⟨s.machine.after n, s.countdown - n⟩
  trace : s.trace (List.replicate n .forward) = List.replicate n .step
  answers : s.answers (List.replicate n .forward) =
    (List.range n).map fun j => .ran (s.machine.after j).step.1

theorem ahead_inside (hok : ∀ j < n, (s.machine.after j).step.1.isOk = true)
    (hroom : n < s.countdown) : s.Inside n := by
  induction n generalizing s with
  | zero => exact ⟨rfl, rfl, rfl⟩
  | succ n ih =>
    have hfirst : s.machine.step.1.isOk = true := hok 0 (Nat.succ_pos n)
    cases hstep : s.machine.step with
    | mk outcome m =>
      rw [hstep] at hfirst
      cases outcome with
      | error fault => cases hfirst
      | ok flow =>
        have hmore : s.countdown - 1 ≠ 0 := by omega
        have hforward : s.forward = (.ok flow, ⟨m, s.countdown - 1⟩) := by
          simp only [forward, hstep, if_neg hmore]
        have hactions : s.actions .forward = [.step] := by
          rw [actions, if_neg fun h => hmore h.2]
        have hafter (j : Nat) : s.machine.after (j + 1) = m.after j := by
          rw [after, hstep]
        have hrest : (⟨m, s.countdown - 1⟩ : Stepper).Inside n := by
          refine ih (fun j hj => ?_) (by show n < s.countdown - 1; omega)
          rw [← hafter]
          exact hok (j + 1) (Nat.succ_lt_succ hj)
        refine ⟨?_, ?_, ?_⟩
        · rw [ahead_succ, hforward, hrest.ahead, hafter]
          show (⟨_, s.countdown - 1 - n⟩ : Stepper) = _
          rw [Nat.sub_sub, Nat.add_comm 1 n]
        · rw [List.replicate_succ, List.replicate_succ, trace, hactions]
          show .step :: s.forward.2.trace _ = _
          rw [hforward, hrest.trace]
        · rw [List.replicate_succ, List.range_succ_eq_map, List.map_cons, List.map_map, answers]
          show .ran s.forward.1 :: s.forward.2.answers _ = _
          rw [hforward, hrest.answers]
          refine List.cons_eq_cons.mpr ⟨?_, List.map_congr_left fun j _ => ?_⟩
          · rw [after, hstep]
          · rw [Function.comp_apply, hafter]

/-- Steps forward that succeed and end no frame are within the frame. -/
theorem inside_of_no_end (hpositive : 1 ≤ s.countdown) (hok : s.Succeeds n)
    (hend : Action.finishFrame ∉ s.trace (List.replicate n .forward)) :
    n < s.countdown ∧ ∀ j < n, (s.machine.after j).step.1.isOk = true := by
  induction n generalizing s with
  | zero => exact ⟨hpositive, fun j hj => absurd hj (Nat.not_lt_zero j)⟩
  | succ n ih =>
    obtain ⟨flow, hflow⟩ := hok.head
    cases hstep : s.machine.step with
    | mk outcome m =>
      obtain rfl : outcome = .ok flow := by
        rwa [forward_outcome, hstep] at hflow
      rw [List.replicate_succ, trace, List.mem_append, not_or] at hend
      have hmore : s.countdown - 1 ≠ 0 := by
        intro hlast
        refine hend.1 ?_
        rw [actions, hstep, if_pos ⟨rfl, hlast⟩]
        exact List.mem_cons_of_mem _ List.mem_cons_self
      have hforward : s.forward.2 = ⟨m, s.countdown - 1⟩ := by
        simp only [forward, hstep, if_neg hmore]
      have hlater : Action.finishFrame ∉ s.forward.2.trace (List.replicate n .forward) := hend.2
      have htail := hok.tail
      rw [hforward] at hlater htail
      obtain ⟨hroom, hoks⟩ := ih (by show 1 ≤ s.countdown - 1; omega) htail hlater
      have hroom : n < s.countdown - 1 := hroom
      refine ⟨by omega, ?_⟩
      rw [Nat.forall_lt_succ_left]
      simp only [after, hstep]
      exact ⟨rfl, hoks⟩

/-! ## And back -/

/-- An operation that always comes to one action, again and again. -/
theorem trace_replicate {op : Operation} {a : Action} (h : ∀ s : Stepper, s.actions op = [a])
    (s : Stepper) (n : Nat) : s.trace (List.replicate n op) = List.replicate n a := by
  induction n generalizing s with
  | zero => rfl
  | succ n ih =>
    rw [List.replicate_succ, List.replicate_succ, trace, ih, h]
    rfl

theorem trace_replicate_backward (s : Stepper) (n : Nat) :
    s.trace (List.replicate n .backward) = List.replicate n .undo :=
  trace_replicate (fun _ => rfl) s n

theorem trace_replicate_undo (s : Stepper) (n : Nat) :
    s.trace (List.replicate n (.act .undo)) = List.replicate n .undo :=
  trace_replicate (fun _ => rfl) s n

/-- The countdown counts up with every step that is taken back, as far as a frame has room. -/
theorem countdown_run_backward
    (hanswers : s.answers (List.replicate n .backward) = List.replicate n (.undone true))
    (hroom : s.countdown + n ≤ s.machine.frameSteps) :
    (s.run (List.replicate n .backward)).countdown = s.countdown + n := by
  induction n generalizing s with
  | zero => rfl
  | succ n ih =>
    rw [List.replicate_succ, List.replicate_succ, answers] at hanswers
    obtain ⟨hfirst, hrest⟩ := List.cons.inj hanswers
    have hundone : s.machine.undo.1 = true := by
      rw [← backward_changed]
      exact Answer.undone.inj hfirst
    have hnext : (s.perform .backward).2.countdown = s.countdown + 1 := by
      show s.backward.2.countdown = _
      rw [countdown_backward, if_pos hundone]
      omega
    have hsteps := frameSteps_perform s .backward
    rw [List.replicate_succ, run, ih hrest (by omega), hnext]
    omega

/-- Steps within a frame are taken back: the countdown and the core are as before, and what the history
has not forgotten is left of it. -/
theorem takeBack_inside (hwithin : s.countdown ≤ s.machine.frameSteps)
    (hsize : s.machine.history.size ≤ s.machine.history.capacity)
    (hroom : n ≤ s.machine.history.capacity) (hinside : n < s.countdown)
    (hok : ∀ j < n, (s.machine.after j).step.1.isOk = true)
    (hquiet : ∀ j < n, (s.machine.after j).LeavesWorld) :
    let backwards := List.replicate n Operation.backward
    let back := (s.ahead n).run backwards
    (s.ahead n).answers backwards = List.replicate n (.undone true) ∧
      back.countdown = s.countdown ∧
      s.machine.Retraces back.machine (s.machine.history.capacity + 1 - n) := by
  intro backwards back
  obtain ⟨flow, hsteps⟩ := exists_flow_of_steps hok
  have hdone : s.ahead n = ⟨s.machine.after n, s.countdown - n⟩ := (ahead_inside hok hinside).ahead
  have hanswers : (s.ahead n).answers backwards = List.replicate n (.undone true) := by
    have hgrown : n ≤ (s.ahead n).machine.history.size := by
      rw [hdone, historySize_after hsize hsteps]
      omega
    exact (answers_takeBack takesBack_backward n _ hgrown).1
  refine ⟨hanswers, ?_, ?_⟩
  · have hcount : (s.ahead n).countdown = s.countdown - n := by rw [hdone]
    have hlength : (s.ahead n).machine.frameSteps = s.machine.frameSteps := by
      rw [hdone, ← acts_replicate_step]
      exact frameSteps_eq (clock_acts _ _)
    show ((s.ahead n).run backwards).countdown = s.countdown
    rw [countdown_run_backward hanswers (by omega), hcount]
    omega
  · -- A batch of steps is taken back in the same way.
    have hmachine : back.machine = ((s.perform (.steps n)).2.run
        (List.replicate n (.act .undo))).machine := by
      have hbatch : (s.perform (.steps n)).2.machine = s.machine.after n :=
        machine_stepsFrom s.machine .next n
      rw [machine_run, machine_run, trace_replicate_backward, trace_replicate_undo, hdone, hbatch]
    obtain ⟨_, hworld, hcore, htimeline⟩ := takeBack_batch hsize hroom hsteps hquiet
    rw [← hmachine] at hworld hcore htimeline
    exact ⟨hcore, hworld.capacity.symm, htimeline⟩

/-- Steps within a frame that were taken back are taken again: they get the same answers, and come to
the same state, history and countdown. -/
theorem retake_inside {b : Nat} (hframe : s.InFrame)
    (hsize : s.machine.history.size ≤ s.machine.history.capacity)
    (hb : b ≤ s.machine.history.capacity) (hok : s.Succeeds b)
    (hend : Action.finishFrame ∉ s.trace (List.replicate b .forward))
    (hquiet : ∀ j < b, (s.ahead j).machine.LeavesWorld) :
    let forwards := List.replicate b Operation.forward
    let backwards := List.replicate b Operation.backward
    let done := s.run forwards
    let back := done.run backwards
    let again := back.run forwards
    done.answers (backwards ++ forwards) =
        List.replicate b (.undone true) ++ s.answers forwards ∧
      Action.finishFrame ∉ done.trace (backwards ++ forwards) ∧
      back.machine.state = s.machine.state ∧ back.countdown = s.countdown ∧
      again.machine.state = done.machine.state ∧
      again.machine.history = done.machine.history ∧
      again.countdown = done.countdown := by
  intro forwards backwards done back again
  obtain ⟨hinside, hoks⟩ := inside_of_no_end hframe.positive hok hend
  have hfirst := ahead_inside hoks hinside
  have hquiets : ∀ j < b, (s.machine.after j).LeavesWorld := by
    intro j hj
    have hinside' : s.Inside j :=
      ahead_inside (fun i hi => hoks i (Nat.lt_trans hi hj)) (Nat.lt_trans hj hinside)
    have hleaves := hquiet j hj
    rwa [hinside'.ahead] at hleaves
  obtain ⟨hundone, hcount, hback⟩ :=
    takeBack_inside hframe.within hsize hb hinside hoks hquiets
  -- The machine after the steps back takes the same steps, for as long as the frame lasts.
  have hsteps (j : Nat) : (back.machine.after j).step.1 = (s.machine.after j).step.1 :=
    (hback.core.after j).step.1.symm
  have hsecond : back.Inside b := by
    refine ahead_inside (fun j hj => ?_) (hcount ▸ hinside)
    rw [hsteps]
    exact hoks j hj
  have hdone : done = ⟨s.machine.after b, s.countdown - b⟩ := hfirst.ahead
  have hagain : again = ⟨back.machine.after b, s.countdown - b⟩ := by
    rw [← hcount]
    exact hsecond.ahead
  have hretraced := hback.after hsize (by omega) hoks
  refine ⟨?_, ?_, hback.core.state.symm, hcount, ?_, ?_, ?_⟩
  · have hanswers : back.answers forwards = s.answers forwards := by
      rw [hsecond.answers, hfirst.answers]
      exact List.map_congr_left fun j _ => congrArg Answer.ran (hsteps j)
    rw [answers_append, ← hanswers]
    exact congrArg (· ++ back.answers forwards) hundone
  · rw [trace_append, trace_replicate_backward]
    show Action.finishFrame ∉ List.replicate b Action.undo ++ back.trace forwards
    rw [hsecond.trace]
    simp
  · rw [hagain, hdone]
    exact hretraced.core.state.symm
  · rw [hagain, hdone]
    have hbounded := historySize_after_le hsize b
    rw [historyCapacity_after] at hbounded
    exact hretraced.history_eq (by omega)
  · rw [hagain, hdone]

/-! ## Steps that do nothing -/

theorem kept_of_forward_error {fault : Fault} (hforward : s.forward = (.error fault, t)) :
    t.countdown = s.countdown ∧ t.machine.state = s.machine.state := by
  have hfailed : s.machine.step.1 = .error fault := by
    rw [← forward_outcome, hforward]
  have hstep : s.machine.step = (.error fault, s.machine.step.2) := Prod.ext hfailed rfl
  have hkept : t = ⟨s.machine.step.2, s.countdown⟩ := by
    have := forward_of_failed_step hstep s.countdown
    exact (congrArg Prod.snd (hforward.symm.trans this) :)
  rw [hkept]
  exact ⟨rfl, congrArg Core.state (kept_of_failed_step hstep).1⟩

theorem eq_of_backward_false (hbackward : s.backward = (false, t)) : t = s := by
  have hnone : s.machine.undo.1 = false := by
    rw [← backward_changed, hbackward]
  have hfixed := congrArg Prod.snd (perform_backward_of_empty hnone)
  rwa [show (s.perform .backward).2 = s.backward.2 from rfl, hbackward] at hfixed

/-! ## Forward, back, and forward again -/

/-- Steps back are the inverse of steps forward, up to the end of a frame.

Take any session, with `c` steps until the next frame ends, on a machine whose frames have `length`
steps.  If the history has room for a state and a step forward succeeds, the step back after it
succeeds as well, and leads to the whole state from before, the timers included, also if a frame has
ended.  The countdown is `c` again if no frame has ended or if frames have one step only, and
otherwise `length`.

Now let `b` steps forward succeed, no more than the history has room for, that end no frame, take no
random number and complete no key wait.  Then `b` steps back succeed, and lead to the state and the
countdown from before.  And `b` steps forward after them get the same answers as the first time, and
lead to the same state, the same history and the same countdown, and no frame ends.

A step forward that fails and a step back that does not succeed leave the countdown and the state as
they are. -/
theorem backward_inverts_forward (settings : Settings) (entropy : Nat → UInt32)
    (ops : List Operation) :
    let s := (powerOn settings entropy).run ops
    let c := s.countdown
    let length := s.machine.frameSteps
    (1 ≤ settings.historyCapacity → ∀ flow t, s.forward = (.ok flow, t) →
      ∃ u, t.backward = (true, u) ∧ u.machine.state = s.machine.state ∧
        (1 < c ∨ length = 1 → u.countdown = c) ∧ (c = 1 → u.countdown = length)) ∧
      (∀ b ≤ settings.historyCapacity,
        let forwards := List.replicate b Operation.forward
        let backwards := List.replicate b Operation.backward
        let done := s.run forwards
        let back := done.run backwards
        let again := back.run forwards
        s.Succeeds b → Action.finishFrame ∉ s.trace forwards →
          (∀ j < b, (s.ahead j).machine.LeavesWorld) →
          done.answers (backwards ++ forwards) =
              List.replicate b (.undone true) ++ s.answers forwards ∧
            Action.finishFrame ∉ done.trace (backwards ++ forwards) ∧
            back.machine.state = s.machine.state ∧ back.countdown = c ∧
            again.machine.state = done.machine.state ∧
            again.machine.history = done.machine.history ∧
            again.countdown = done.countdown) ∧
      (∀ fault t, s.forward = (.error fault, t) →
        t.countdown = c ∧ t.machine.state = s.machine.state) ∧
      ∀ t, s.backward = (false, t) → t = s := by
  intro s c length
  have hframe : s.InFrame := (inFrame_start _).run ops
  have hmachine : s.machine =
      (Machine.new settings entropy).acts ((powerOn settings entropy).trace ops) := machine_run _ ops
  have hcapacity : s.machine.history.capacity = settings.historyCapacity := by
    rw [hmachine, historyCapacity_acts]
    rfl
  have hsize : s.machine.history.size ≤ s.machine.history.capacity := by
    rw [hmachine]
    exact historySize_acts (Nat.zero_le _) _
  refine ⟨?_, ?_, ?_, ?_⟩
  · intro hroom flow t hforward
    obtain ⟨u, hbackward, hstate, hcountdown⟩ := backward_of_forward (by omega) hframe hforward
    have hwithin : c ≤ length := hframe.within
    refine ⟨u, hbackward, hstate, fun hphase => ?_, fun hlast => ?_⟩
    · rw [hcountdown]
      split
      · have hone : s.countdown = 1 := ‹_›
        show length = c
        omega
      · rfl
    · rw [hcountdown, if_pos hlast]
  · intro b hb forwards backwards done back again hok hend hquiet
    exact retake_inside hframe hsize (hcapacity ▸ hb) hok hend hquiet
  · exact fun fault t hforward => kept_of_forward_error hforward
  · exact fun t hbackward => eq_of_backward_false hbackward

/-- The first action of a session leaves it at the start of a frame. -/
theorem run_powerOn_act (settings : Settings) (entropy : Nat → UInt32) (a : Action)
    (ops : List Operation) :
    (powerOn settings entropy).run (.act a :: ops) =
      (⟨(Machine.new settings entropy).act a, (Machine.new settings entropy).frameSteps⟩ :
        Stepper).run ops := rfl

/-- A program that calls itself, with six steps in a frame and room for two states.  Two steps are taken
back and taken again when the history is full already, and one step is taken back. -/
theorem backward_inverts_forward_of_self_calls :
    let settings : Settings := { clock := some 360, historyCapacity := 2 }
    let ops := .act (.load (.ok #[0x22, 0x00])) :: List.replicate 3 .forward
    let s := (powerOn settings fun _ => 0).run ops
    let forwards := List.replicate 2 Operation.forward
    let backwards := List.replicate 2 Operation.backward
    let back := (s.run forwards).run backwards
    s.countdown = 3 ∧ s.machine.history.size = 2 ∧ s.Succeeds 2 ∧
      Action.finishFrame ∉ s.trace forwards ∧ (∀ j < 2, (s.ahead j).machine.LeavesWorld) ∧
      back.machine.state = s.machine.state ∧ back.countdown = 3 ∧
      (back.run forwards).machine.history = (s.run forwards).machine.history ∧
      ∃ u, s.forward.2.backward = (true, u) ∧ u.machine.state = s.machine.state ∧
        u.countdown = 3 := by
  intro settings ops
  obtain ⟨hone, hmany, _, _⟩ := backward_inverts_forward settings (fun _ => 0) ops
  -- Of the first four operations it only counts that they have led three steps into the program.
  obtain ⟨m, hm, hempty, hcapacity, hbefore⟩ : ∃ m : Machine,
      m.StandsAt #[0x22, 0x00] 0x200 CallStack.empty ∧ m.history.size = 0 ∧
        m.history.capacity = 2 ∧ (powerOn settings fun _ => 0).run ops = (⟨m, 6⟩ : Stepper).ahead 3 := by
    have hlength : (Machine.new settings fun _ => 0).frameSteps = 6 := by decide
    refine ⟨(Machine.new settings fun _ => 0).act (.load (.ok #[0x22, 0x00])), ⟨rfl, rfl⟩, rfl,
      historyCapacity_act _ _, ?_⟩
    rw [← hlength]
    exact run_powerOn_act _ _ _ _
  generalize (powerOn settings fun _ => 0).run ops = s at hone hmany hbefore ⊢
  have hcalls : ∀ j < 5, (m.after j).Executes (.call 0x200) ∧ (m.after j).step.1 = .ok .jump := by
    intro j hj
    obtain ⟨stack, hdepth, hnow, hcall⟩ := hm.after_self_calls (k := j) (by omega)
    refine ⟨hcall, ?_⟩
    rw [hcall.step_of_call (by rw [hnow.depth]; omega)]
  have hok : ∀ j < 5, (m.after j).step.1.isOk = true := by
    intro j hj
    rw [(hcalls j hj).2]
    rfl
  have hs : s = ⟨m.after 3, 3⟩ := by
    have hinside : (⟨m, 6⟩ : Stepper).Inside 3 :=
      ahead_inside (fun j hj => hok j (by omega)) (by show 3 < 6; omega)
    exact hbefore.trans hinside.ahead
  have hafter (j : Nat) : s.machine.after j = m.after (3 + j) := by
    rw [hs, after_add]
  have hinside (j : Nat) (hj : j ≤ 2) : s.Inside j := by
    refine ahead_inside (fun i hi => ?_) ?_
    · rw [hafter]
      exact hok _ (by omega)
    · rw [hs]
      show j < 3
      omega
  have hsucceeds : s.Succeeds 2 := by
    intro j hj
    rw [forward_outcome, (hinside j (by omega)).ahead]
    show (s.machine.after j).step.1.isOk = true
    rw [hafter]
    exact hok _ (by omega)
  have hend : Action.finishFrame ∉ s.trace (List.replicate 2 .forward) := by
    rw [(hinside 2 (by omega)).trace]
    simp
  have hquiet : ∀ j < 2, (s.ahead j).machine.LeavesWorld := by
    intro j hj
    rw [(hinside j (by omega)).ahead]
    show (s.machine.after j).LeavesWorld
    rw [hafter]
    exact Executes.leavesWorld (hcalls _ (by omega)).1 nofun nofun
  have hfull : s.machine.history.size = 2 := by
    have hjumps : ∀ j < 3, (m.after j).step.1 = .ok .jump :=
      fun j hj => (hcalls j (by omega)).2
    have hsteps : (m.steps 3).1 = .ok .jump := stepsFrom_of_succeeds hjumps
    rw [hs]
    show (m.after 3).history.size = 2
    rw [historySize_after (by omega) hsteps, hempty, hcapacity]
    rfl
  have hcount : s.countdown = 3 := by rw [hs]
  obtain ⟨_, _, hstate, hcountBack, _, hhistory, _⟩ :=
    hmany 2 (Nat.le_refl 2) hsucceeds hend hquiet
  obtain ⟨flow, hforward⟩ := hsucceeds.forward_eq
  have hlong : 1 < s.countdown := by
    rw [hcount]
    decide
  obtain ⟨u, hback, hundone, hphase, _⟩ := hone (by decide) flow _ hforward
  exact ⟨hcount, hfull, hsucceeds, hend, hquiet, hstate, hcountBack.trans hcount, hhistory, u, hback,
    hundone, (hphase (.inl hlong)).trans hcount⟩

end Stepper
end Chip8
