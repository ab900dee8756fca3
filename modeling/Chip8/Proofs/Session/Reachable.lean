import Chip8.Proofs.Session.Operation

/-!
# Reachable machines

A machine is reachable if a host can bring it about: from a machine that was just switched on, by any
actions, where only states of reachable machines are restored.  Sessions do not leave the reachable
machines (`Reachable.run`).

What the start of a program, an executed step and the end of a frame keep is true of the state of
every reachable machine, and of every state that its history holds (`Reachable.invariant`).
-/

namespace Chip8

/-- The machines that a host can bring about. -/
inductive Reachable : Machine → Prop where
  | new (settings : Settings) (entropy : Nat → UInt32) : Reachable (Machine.new settings entropy)
  | act {m : Machine} (a : Action) :
      Reachable m → (∀ s, a ≠ .restore s) → Reachable (m.act a)
  /-- A state of a reachable machine, which may be another one, is restored. -/
  | restore {m n : Machine} : Reachable m → Reachable n → Reachable (m.restore n.state)

/-- Only states of reachable machines are restored. -/
def RestoresReachable (as : List Action) : Prop :=
  ∀ s, Action.restore s ∈ as → ∃ n, Reachable n ∧ n.state = s

theorem Reachable.acts {m : Machine} (h : Reachable m) {as : List Action}
    (hrestore : RestoresReachable as) : Reachable (m.acts as) := by
  induction as generalizing m with
  | nil => exact h
  | cons a as ih =>
    have hrest : RestoresReachable as := fun s hs => hrestore s (List.mem_cons_of_mem a hs)
    -- A restored state comes from a reachable machine; any other action is a constructor itself.
    by_cases ha : ∃ s, a = .restore s
    · rcases ha with ⟨s, rfl⟩
      rcases hrestore s List.mem_cons_self with ⟨n, hn, rfl⟩
      exact ih (h.restore hn) hrest
    · exact ih (h.act a (fun s hs => ha ⟨s, hs⟩)) hrest

/-! ## Sessions -/

theorem Stepper.mem_of_restore_mem_trace {s : Stepper} {ops : List Operation} {t : State}
    (h : Action.restore t ∈ s.trace ops) : Operation.act (.restore t) ∈ ops := by
  rcases exists_needs_of_mem_trace h with ⟨op, hop, hneeds⟩
  cases op with
  | act a =>
    rw [List.mem_singleton.mp hneeds]
    exact hop
  | _ => simp [Operation.needs] at hneeds

/-- A session that restores nothing but states of reachable machines keeps its machine reachable. -/
theorem Reachable.run {s : Stepper} (h : Reachable s.machine) {ops : List Operation}
    (hrestore : ∀ t, Operation.act (.restore t) ∈ ops → ∃ n, Reachable n ∧ n.state = t) :
    Reachable (s.run ops).machine := by
  rw [Stepper.machine_run]
  exact h.acts fun t ht => hrestore t (Stepper.mem_of_restore_mem_trace ht)

/-! ## Invariants of the state -/

/-- A property of states that every program starts with, and that executed steps and the ends of
frames keep. -/
structure StateInvariant (P : State → Prop) : Prop where
  boot : ∀ program, P (State.boot program)
  step : ∀ {c : Core} {r : Retired}, P c.state → c.step = .ok r → P r.core.state
  countDown : ∀ {s : State}, P s → P s.countDown

/-- The state and every state of the history have a property. -/
def Machine.Holds (P : State → Prop) (m : Machine) : Prop :=
  P m.state ∧ ∀ s ∈ m.history.newestFirst, P s

theorem History.mem_push {α : Type} {h : History α} {a b : α}
    (hb : b ∈ (h.push a).newestFirst) : b = a ∨ b ∈ h.newestFirst := by
  by_cases hc : h.capacity = 0
  · rw [push_of_capacity_eq_zero hc] at hb
    exact .inr hb
  · rw [newestFirst_push hc] at hb
    exact List.mem_cons.mp (List.mem_of_mem_take hb)

theorem Machine.holds_act {P : State → Prop} (inv : StateInvariant P) {m : Machine}
    (h : m.Holds P) {a : Action} (ha : ∀ s, a = .restore s → P s) : (m.act a).Holds P := by
  cases a with
  | load contents =>
    cases contents with
    | error text => exact h
    | ok program =>
      simp only [act, loadContents, load]
      split
      · exact ⟨inv.boot program, fun s hs => by cases hs⟩
      · exact h
  | step =>
    rcases step_cases m with ⟨_, hs⟩ | ⟨r, _, hcore, hs⟩ | ⟨cause, _, _, hs⟩
    · rw [act, hs]
      exact h
    · rw [act, hs]
      refine ⟨inv.step h.1 hcore, fun s hs => ?_⟩
      rcases History.mem_push hs with rfl | hs
      · exact h.1
      · exact h.2 s hs
    · rw [act, hs]
      exact h
  | finishFrame =>
    refine ⟨?_, ?_⟩
    · rw [act, state_finishFrame]
      exact inv.countDown h.1
    · rw [act, history_finishFrame]
      exact h.2
  | undo =>
    simp only [act, undo]
    split
    · exact h
    · rename_i s history hpop
      have hnewest := (History.pop?_eq_some_iff.mp hpop).2
      refine ⟨h.2 s ?_, fun t ht => h.2 t ?_⟩
      · rw [hnewest]
        exact List.mem_cons_self
      · rw [hnewest]
        exact List.mem_cons_of_mem s ht
  | restore s => exact ⟨ha s rfl, h.2⟩
  | _ => exact h

theorem Machine.holds_acts {P : State → Prop} (inv : StateInvariant P) {m : Machine}
    (h : m.Holds P) {as : List Action} (hrestore : ∀ s, Action.restore s ∈ as → P s) :
    (m.acts as).Holds P := by
  induction as generalizing m with
  | nil => exact h
  | cons a as ih =>
    have hfirst : (m.act a).Holds P := by
      refine holds_act inv h fun s hs => hrestore s ?_
      rw [hs]
      exact List.mem_cons_self
    exact ih hfirst fun s hs => hrestore s (List.mem_cons_of_mem a hs)

/-- An invariant of the state holds in every reachable machine, now and in its history. -/
theorem Reachable.invariant {P : State → Prop} (inv : StateInvariant P) {m : Machine}
    (h : Reachable m) : m.Holds P := by
  induction h with
  | new settings entropy => exact ⟨inv.boot #[], fun s hs => by cases hs⟩
  | act a _ ha ih => exact Machine.holds_act inv ih (fun s hs => (ha s hs).elim)
  | @restore m n _ _ ihm ihn =>
    exact Machine.holds_act inv ihm (a := .restore n.state) fun s hs => by
      cases hs
      exact ihn.1

end Chip8
