import Chip8.Proofs.Session.Operation

/-!
# Undo — taking steps back

A history with room for every step would be a stack: an executed step puts the state before it on
top, a step taken back removes the top, and a new program empties it.  This stack is the *past* of a
run.  The history of the machine is bounded and drops old entries while new ones come and go, and
still it is at every moment the top part of the past (`Remembers`).

So taking a step back leads to the state before the newest step that was not taken back yet,
whatever happened to the state since, and as many steps can be taken back as the history holds.
-/

namespace Chip8

namespace History

variable {α : Type}

theorem size_push {h : History α} (hsize : h.size ≤ h.capacity) (a : α) :
    (h.push a).size = min (h.size + 1) h.capacity := by
  by_cases hc : h.capacity = 0
  · rw [push_of_capacity_eq_zero hc]
    omega
  · rw [← length_newestFirst, newestFirst_push hc, List.length_take, List.length_cons,
      length_newestFirst, Nat.min_comm]

end History

/-- Whatever the session does, the operation takes back one step of its machine. -/
def Operation.TakesBack (op : Operation) : Prop :=
  ∀ s : Stepper, (s.perform op).1 = .undone s.machine.undo.1 ∧
    (s.perform op).2.machine = s.machine.undo.2

namespace Machine

/-! ## The past of a run -/

/-- The states before the executed steps that were not taken back, newest first. -/
def notePast (m : Machine) (past : List State) : Action → List State
  | .step => if m.step.1.isOk then m.state :: past else past
  | .undo => if m.undo.1 then past.tail else past
  | .load contents => if (m.loadContents contents).1.isOk then [] else past
  | _ => past

/-- The number of executed steps. -/
def countExecuted (m : Machine) (n : Nat) : Action → Nat
  | .step => if m.step.1.isOk then n + 1 else n
  | _ => n

/-- The state and the states that can be brought back, newest first. -/
def timeline (m : Machine) : List State := m.state :: m.history.newestFirst

theorem length_timeline (m : Machine) : m.timeline.length = m.history.size + 1 := by
  rw [timeline, List.length_cons, History.length_newestFirst]

/-- The history is the top of the past, and no larger than it may be. -/
structure Remembers (m : Machine) (past : List State) : Prop where
  bounded : m.history.size ≤ m.history.capacity
  newest : m.history.newestFirst = past.take m.history.size

/-! ## One step back -/

/-- Without history nothing is taken back.  Otherwise the newest entry becomes the state. -/
theorem undo_cases (m : Machine) :
    (m.history.newestFirst = [] ∧ m.undo = (false, m)) ∨
      ∃ n, m.undo = (true, n) ∧ m.history.newestFirst = n.state :: n.history.newestFirst ∧
        n.history.capacity = m.history.capacity := by
  cases hpop : m.history.pop? with
  | none =>
    left
    exact ⟨History.pop?_eq_none_iff_empty.mp hpop, by simp only [undo, hpop]⟩
  | some top =>
    rcases top with ⟨s, history⟩
    rcases History.pop?_eq_some_iff.mp hpop with ⟨hcapacity, hnewest⟩
    right
    refine ⟨m.undo.2, ?_, ?_, ?_⟩ <;> simp only [undo, hpop]
    · exact hnewest
    · exact hcapacity.symm

theorem undo_eq_true_iff (m : Machine) : m.undo.1 = true ↔ 0 < m.history.size := by
  rw [← History.length_newestFirst]
  rcases undo_cases m with ⟨hempty, hundo⟩ | ⟨n, hundo, hnewest, _⟩
  · simp [hundo, hempty]
  · simp [hundo, hnewest]

variable {m : Machine} {past : List State}

theorem undo_of_unchanged (h : m.undo.1 = false) : m.undo.2 = m := by
  rcases undo_cases m with ⟨_, hundo⟩ | ⟨n, hundo, _, _⟩
  · rw [hundo]
  · rw [hundo] at h
    cases h

/-! ## Histories remember the past -/

/-- An executed step puts the state before it on top of the history. -/
theorem Remembers.push (h : m.Remembers past) {n : Machine}
    (hhistory : n.history = m.history.push m.state) :
    n.Remembers (m.state :: past) := by
  have hsize := History.size_push h.bounded m.state
  refine ⟨?_, ?_⟩
  · rw [hhistory, History.capacity_push, hsize]
    exact Nat.min_le_right _ _
  · rw [hhistory, hsize]
    by_cases hc : m.history.capacity = 0
    -- A history without capacity stays empty, and so does the part of the past that it shows.
    · have hnone : m.history.size = 0 := by
        have := h.bounded
        omega
      rw [History.push_of_capacity_eq_zero hc, h.newest, hnone, hc, Nat.min_zero]
      rfl
    · calc
        (m.history.push m.state).newestFirst
            = (m.state :: past.take m.history.size).take m.history.capacity := by
              rw [History.newestFirst_push hc, h.newest]
        _ = ((m.state :: past).take (m.history.size + 1)).take m.history.capacity := by
              rw [List.take_succ_cons]
        _ = (m.state :: past).take (min (m.history.size + 1) m.history.capacity) := by
              rw [List.take_take, Nat.min_comm]

/-- A step taken back removes the top of the history. -/
theorem Remembers.pop (h : m.Remembers past) {n : Machine}
    (hnewest : m.history.newestFirst = n.state :: n.history.newestFirst)
    (hcapacity : n.history.capacity = m.history.capacity) :
    n.Remembers past.tail := by
  have hsize : m.history.size = n.history.size + 1 := by
    rw [← History.length_newestFirst, hnewest, List.length_cons, History.length_newestFirst]
  have htake := h.newest
  rw [hnewest, hsize] at htake
  refine ⟨?_, ?_⟩
  · have := h.bounded
    omega
  · cases past with
    | nil => cases htake
    | cons s past =>
      rw [List.take_succ_cons] at htake
      exact (List.cons.inj htake).2

theorem Remembers.head_of_undo (h : m.Remembers past) (hchanged : m.undo.1 = true) :
    past.head? = some m.undo.2.state := by
  rcases undo_cases m with ⟨_, hundo⟩ | ⟨n, hundo, hnewest, _⟩
  · rw [hundo] at hchanged
    cases hchanged
  -- The history is not empty, so the past that it shows starts with the same entry.
  · have htake : past.take m.history.size = n.state :: n.history.newestFirst := by
      rw [← h.newest, hnewest]
    rw [hundo]
    cases past with
    | nil =>
      rw [List.take_nil] at htake
      cases htake
    | cons top past =>
      cases hsize : m.history.size with
      | zero =>
        rw [hsize] at htake
        cases htake
      | succ size =>
        rw [hsize, List.take_succ_cons] at htake
        rw [List.head?_cons, (List.cons.inj htake).1]

theorem remembers_act (m : Machine) (past : List State) (a : Action) (h : m.Remembers past) :
    (m.act a).Remembers (m.notePast past a) := by
  cases a with
  | load contents =>
    cases contents with
    | error text => exact ⟨h.bounded, h.newest⟩
    | ok program =>
      simp only [act, notePast, loadContents, load]
      split
      · exact ⟨Nat.zero_le _, rfl⟩
      · exact ⟨h.bounded, h.newest⟩
  | step =>
    rcases step_cases m with ⟨_, hs⟩ | ⟨r, _, _, hs⟩ | ⟨cause, _, _, hs⟩
    · simp only [act, notePast, hs]
      exact h
    · simp only [act, notePast, hs]
      exact h.push rfl
    · simp only [act, notePast, hs]
      exact ⟨h.bounded, h.newest⟩
  | finishFrame =>
    have hhistory : (m.act .finishFrame).history = m.history := history_finishFrame m
    exact ⟨hhistory ▸ h.bounded, hhistory ▸ h.newest⟩
  | undo =>
    rcases undo_cases m with ⟨_, hundo⟩ | ⟨n, hundo, hnewest, hcapacity⟩
    · simp only [act, notePast, hundo]
      exact h
    · simp only [act, notePast, hundo]
      exact h.pop hnewest hcapacity
  | _ => exact ⟨h.bounded, h.newest⟩

theorem remembers_acts (h : m.Remembers past) (as : List Action) :
    (m.acts as).Remembers (m.track notePast past as) :=
  track_invariant remembers_act h as

/-- A history that is no larger than it may be remembers what it holds, and goes on doing so. -/
theorem historySize_acts (h : m.history.size ≤ m.history.capacity) (as : List Action) :
    (m.acts as).history.size ≤ (m.acts as).history.capacity := by
  have hnow : m.Remembers m.history.newestFirst := by
    refine ⟨h, ?_⟩
    rw [← History.length_newestFirst, List.take_length]
  exact (remembers_acts hnow as).bounded

/-! ## Runs that only go on -/

/-- An executed step is recorded, and a step that fails is not. -/
theorem history_step (m : Machine) :
    (m.step.1.isOk = true ∧ (m.act .step).history = m.history.push m.state) ∨
      (m.step.1.isOk = false ∧ (m.act .step).history = m.history) := by
  rcases step_cases m with ⟨_, hs⟩ | ⟨r, _, _, hs⟩ | ⟨cause, _, _, hs⟩
  · right
    rw [act, hs]
    exact ⟨rfl, rfl⟩
  · left
    rw [act, hs]
    exact ⟨rfl, rfl⟩
  · right
    rw [act, hs]
    exact ⟨rfl, rfl⟩

/-- Where nothing is loaded and nothing taken back, the past grows by the executed steps, and the
history grows with it until it is full. -/
theorem past_of_keepsPast {as : List Action} (hkeep : ∀ a ∈ as, a.KeepsPast) (m : Machine)
    (hsize : m.history.size ≤ m.history.capacity) :
    ∃ newly : List State,
      (∀ past, m.track notePast past as = newly ++ past) ∧
        (∀ n, m.track countExecuted n as = n + newly.length) ∧
          (m.acts as).history.size = min (m.history.size + newly.length) m.history.capacity := by
  induction as generalizing m with
  | nil => exact ⟨[], fun _ => rfl, fun _ => rfl, (Nat.min_eq_left hsize).symm⟩
  | cons a as ih =>
    have ih := ih (fun b hb => hkeep b (List.mem_cons_of_mem a hb)) (m.act a)
    rw [historyCapacity_act] at ih
    -- Every action but an executed step leaves the past and the history alone.
    have hsame (hhistory : (m.act a).history = m.history)
        (hnote : ∀ past, m.notePast past a = past) (hnumber : ∀ n, m.countExecuted n a = n) :
        ∃ newly : List State,
          (∀ past, m.track notePast past (a :: as) = newly ++ past) ∧
            (∀ n, m.track countExecuted n (a :: as) = n + newly.length) ∧
              (m.acts (a :: as)).history.size =
                min (m.history.size + newly.length) m.history.capacity := by
      rw [hhistory] at ih
      rcases ih hsize with ⟨newly, hpast, hcount, hgrown⟩
      refine ⟨newly, fun past => ?_, fun n => ?_, hgrown⟩
      · rw [track, hnote, hpast]
      · rw [track, hnumber, hcount]
    cases a with
    | load contents => exact (hkeep _ List.mem_cons_self).elim
    | undo => exact (hkeep _ List.mem_cons_self).elim
    | finishFrame => exact hsame (history_finishFrame m) (fun _ => rfl) (fun _ => rfl)
    | step =>
      rcases history_step m with ⟨hok, hhistory⟩ | ⟨hok, hhistory⟩
      -- The state before the step is the oldest of the new ones, so it goes to the end of the list.
      · have hpushed : (m.act .step).history.size = min (m.history.size + 1) m.history.capacity := by
          rw [hhistory, History.size_push hsize]
        rcases ih (by omega) with ⟨newly, hpast, hcount, hgrown⟩
        refine ⟨newly ++ [m.state], fun past => ?_, fun n => ?_, ?_⟩
        · simp only [track, notePast, hok, if_true, hpast, List.append_assoc, List.singleton_append]
        · simp only [track, countExecuted, hok, if_true, hcount, List.length_append,
            List.length_singleton]
          omega
        · rw [acts, hgrown, List.length_append, List.length_singleton]
          omega
      · exact hsame hhistory (fun _ => by simp [notePast, hok])
          (fun _ => by simp [countExecuted, hok])
    | _ => exact hsame rfl (fun _ => rfl) (fun _ => rfl)

end Machine

namespace Stepper

/-! ## Sessions -/

theorem takesBack_undo : Operation.TakesBack (.act .undo) := fun _ => ⟨rfl, rfl⟩

theorem takesBack_backward : Operation.TakesBack .backward := by
  intro s
  cases hundo : s.machine.undo with
  | mk changed m => cases changed <;> simp [perform, backward, hundo]

/-- The past of a session that starts without one. -/
def past (s : Stepper) (ops : List Operation) : List State :=
  s.machine.track Machine.notePast [] (s.trace ops)

/-- The number of steps that a session executes. -/
def executed (s : Stepper) (ops : List Operation) : Nat :=
  s.machine.track Machine.countExecuted 0 (s.trace ops)

/-- As many steps can be taken back, one after the other, as the history holds.  Each of them drops one
state from the timeline. -/
theorem answers_takeBack {op : Operation} (hop : op.TakesBack) (n : Nat) (s : Stepper)
    (hn : n ≤ s.machine.history.size) :
    s.answers (List.replicate n op) = List.replicate n (.undone true) ∧
      (s.run (List.replicate n op)).machine.timeline = s.machine.timeline.drop n := by
  induction n generalizing s with
  | zero => exact ⟨rfl, rfl⟩
  | succ n ih =>
    rcases Machine.undo_cases s.machine with ⟨hempty, _⟩ | ⟨m, hundo, hnewest, _⟩
    · rw [← History.length_newestFirst, hempty] at hn
      cases hn
    · obtain ⟨hanswer, hmachine⟩ :
          (s.perform op).1 = .undone true ∧ (s.perform op).2.machine = m := by
        simpa only [hundo] using hop s
      have hsize : s.machine.history.size = m.history.size + 1 := by
        rw [← History.length_newestFirst, hnewest, List.length_cons, History.length_newestFirst]
      have hroom : n ≤ (s.perform op).2.machine.history.size := by
        rw [hmachine]
        omega
      rcases ih (s.perform op).2 hroom with ⟨hanswers, htimeline⟩
      refine ⟨?_, ?_⟩
      · simp only [List.replicate_succ, answers, hanswer, hanswers]
      · have hdrop : s.machine.timeline.drop 1 = m.timeline := hnewest
        calc
          (s.run (List.replicate (n + 1) op)).machine.timeline
              = m.timeline.drop n := by
                rw [List.replicate_succ, run, htimeline, hmachine]
          _ = s.machine.timeline.drop (n + 1) := by
                rw [← hdrop, List.drop_drop, Nat.add_comm]

/-- A run that starts with an executed step, and neither loads a program nor takes a step back, is
undone by taking back as many steps as it has executed, if the history can hold them. -/
theorem undo_executed {s : Stepper} {past : List State} (hpast : s.machine.Remembers past)
    {ops : List Operation} {rest : List Action} (htrace : s.trace ops = .step :: rest)
    (hfirst : s.machine.step.1.isOk = true) (hrest : ∀ a ∈ rest, a.KeepsPast)
    (hroom : s.executed ops ≤ s.machine.history.capacity) :
    (s.run ops).answers (List.replicate (s.executed ops) (.act .undo)) =
        List.replicate (s.executed ops) (.undone true) ∧
      ((s.run ops).run (List.replicate (s.executed ops) (.act .undo))).machine.state =
        s.machine.state := by
  have hpushed : (s.machine.act .step).Remembers (s.machine.state :: past) := by
    have := Machine.remembers_act _ past .step hpast
    simpa only [Machine.notePast, hfirst, if_true] using this
  obtain ⟨newly, hnote, hcount, hgrown⟩ :=
    Machine.past_of_keepsPast hrest (s.machine.act .step) hpushed.bounded
  have hend : (s.run ops).machine = (s.machine.act .step).acts rest := by
    rw [machine_run, htrace, Machine.acts]
  have hexecuted : s.executed ops = newly.length + 1 := by
    rw [executed, htrace, Machine.track, hcount]
    simp only [Machine.countExecuted, hfirst, if_true]
    omega
  have hremembers := Machine.remembers_acts hpushed rest
  rw [← hend, hnote] at hremembers
  have hone : (s.machine.act .step).history.size =
      min (s.machine.history.size + 1) s.machine.history.capacity := by
    rcases Machine.history_step s.machine with ⟨_, hhistory⟩ | ⟨hfailed, _⟩
    · rw [hhistory, History.size_push hpast.bounded]
    · rw [hfirst] at hfailed
      cases hfailed
  have hsize : s.executed ops ≤ (s.run ops).machine.history.size := by
    rw [hend, hgrown, Machine.historyCapacity_act]
    omega
  rcases answers_takeBack takesBack_undo _ _ hsize with ⟨hanswers, htimeline⟩
  refine ⟨hanswers, Option.some.inj ?_⟩
  -- The state before the run lies right below the states that the rest of the run has put on top.
  calc
    some ((s.run ops).run (List.replicate (s.executed ops) (.act .undo))).machine.state
        = ((s.run ops).machine.timeline.drop (s.executed ops)).head? := by
          rw [← htimeline]
          rfl
    _ = ((s.run ops).machine.history.newestFirst)[newly.length]? := by
          rw [List.head?_drop, hexecuted, Machine.timeline, List.getElem?_cons_succ]
    _ = (newly ++ s.machine.state :: past)[newly.length]? := by
          rw [hremembers.newest, List.getElem?_take_of_lt (by omega)]
    _ = some s.machine.state := by
          simp

/-- Taking steps back is an exact undo over whole sessions.

After any operations the history is the newest part of the past and within its capacity.  An executed
step makes it longer by one until it is full, a step that fails leaves it alone.  A step can be taken
back iff the history is not empty, which restores the whole state from before the newest executed
step that was not taken back yet; otherwise nothing changes.  So a run that starts with an executed
step is undone by as many steps back as it has executed, whatever else happened in it, unless it
loads a program, takes steps back itself, or executes more steps than the history can hold. -/
theorem undo_restores_past (settings : Settings) (entropy : Nat → UInt32)
    (ops : List Operation) :
    let start := powerOn settings entropy
    let s := start.run ops
    let m := s.machine
    let past := start.past ops
    m = start.machine.acts (start.trace ops) ∧
      m.history.capacity = settings.historyCapacity ∧
      m.history.size ≤ settings.historyCapacity ∧
      m.history.newestFirst = past.take m.history.size ∧
      (∀ flow n, m.step = (.ok flow, n) →
        n.history.size = min (m.history.size + 1) settings.historyCapacity) ∧
      (∀ fault n, m.step = (.error fault, n) → n.history = m.history) ∧
      (m.undo.1 = true ↔ 0 < m.history.size) ∧
      (m.undo.1 = true → past.head? = some m.undo.2.state) ∧
      (m.undo.1 = false → m.undo.2 = m) ∧
      ∀ more rest, s.trace more = .step :: rest → m.step.1.isOk = true →
        (∀ a ∈ rest, a.KeepsPast) → s.executed more ≤ settings.historyCapacity →
          let back := List.replicate (s.executed more) (Operation.act .undo)
          (s.run more).answers back = List.replicate (s.executed more) (.undone true) ∧
            ((s.run more).run back).machine.state = m.state := by
  intro start s m past
  have hrun : m = start.machine.acts (start.trace ops) := machine_run start ops
  have hcapacity : m.history.capacity = settings.historyCapacity := by
    rw [hrun, Machine.historyCapacity_acts]
    rfl
  have hstart : start.machine.Remembers [] := ⟨Nat.zero_le _, rfl⟩
  have hpast : m.Remembers past := by
    rw [hrun]
    exact Machine.remembers_acts hstart (start.trace ops)
  refine ⟨hrun, hcapacity, hcapacity ▸ hpast.bounded, hpast.newest, ?_, ?_,
    Machine.undo_eq_true_iff m, hpast.head_of_undo, Machine.undo_of_unchanged, ?_⟩
  · intro flow n hstep
    rcases Machine.step_eq_ok_iff.mp hstep with ⟨_, r, _, _, rfl⟩
    rw [← hcapacity]
    exact History.size_push hpast.bounded m.state
  · intro fault n hstep
    rcases Machine.history_step m with ⟨hok, _⟩ | ⟨_, hhistory⟩
    · rw [hstep] at hok
      cases hok
    · rwa [Machine.act, hstep] at hhistory
  · intro more rest htrace hfirst hrest hroom
    exact undo_executed hpast htrace hfirst hrest (hcapacity ▸ hroom)

end Stepper
end Chip8
