import Chip8.Proofs.Machine.KeyWait
import Chip8.Proofs.Session.Operation

/-!
# Key presses — one press satisfies at most one key wait

A step that completes a key wait releases the key it takes, and nothing but the host presses keys.
So every press of a key pays for one wait at most: the waits that a key has completed, and the key
itself if it is down, are never more than its presses (`Machine.paid_act` for one action,
`Machine.paid_acts` for a run).  Taking a step back brings back the wait but not the press.
-/

namespace Chip8

/-- How often a key was pressed while it was up, and how many key waits it has completed. -/
structure KeyTally where
  presses : Nat
  completed : Nat

namespace Machine

variable {m : Machine} {x : Reg} {key : Key} {a : Action}

/-- The key with which the next step completes a key wait, if it does: the step polls the keypad for
a register and succeeds, no wait is pending afterwards, and the register holds the key. -/
def completed? (m : Machine) : Option Key :=
  match m.core.polled? with
  | none => none
  | some x =>
    if m.step.1.isOk ∧ m.step.2.state.keyWait = none then
      some (Nibble.ofNat (m.step.2.state.reg x).toNat)
    else none

/-- Count the presses of a key and the waits that it completes. -/
def tally (key : Key) (m : Machine) (t : KeyTally) : Action → KeyTally
  | .step => if m.completed? = some key then { t with completed := t.completed + 1 } else t
  | .setKey other down =>
    if other = key ∧ down = true ∧ m.keypad.isDown key = false then
      { t with presses := t.presses + 1 }
    else t
  | _ => t

/-! ## Steps -/

theorem completed?_of_not_polled (hpolled : m.core.polled? = none) : m.completed? = none := by
  simp only [completed?, hpolled]

theorem completed?_of_halted (hhalt : m.halted = true) : m.completed? = none := by
  simp only [completed?, step_of_halted hhalt]
  split <;> simp [Except.isOk, Except.toBool]

/-- A running machine that polls the keypad takes the lowest key that is down. -/
theorem completed?_of_polled (hrun : m.halted = false) (hpolled : m.core.polled? = some x) :
    m.completed? = m.keypad.first? := by
  cases hfirst : m.keypad.first? with
  | none =>
    have hstep := step_of_retired hrun (Core.step_of_polled_none hpolled hfirst)
    simp only [completed?, hpolled, hstep]
    exact if_neg fun h => Option.some_ne_none x h.2
  | some key =>
    have hstep := step_of_retired hrun (Core.step_of_polled_some hpolled hfirst)
    have hreg : (m.core.takeKey x key).state.reg x = UInt8.ofNat key := Vector.getElem_set_self _
    have hkey : Nibble.ofNat (UInt8.ofNat key).toNat = key := by
      apply Fin.ext
      simp only [Nibble.val_ofNat, UInt8.toNat_ofNat']
      omega
    simp only [completed?, hpolled, hstep]
    calc
      _ = some (Nibble.ofNat ((m.core.takeKey x key).state.reg x).toNat) := if_pos ⟨rfl, rfl⟩
      _ = some key := by rw [hreg, hkey]

/-- A step releases the key with which it completes a wait, and no other. -/
theorem keypad_step (m : Machine) :
    m.step.2.keypad =
      match m.completed? with
      | some key => m.keypad.release key
      | none => m.keypad := by
  rcases step_cases m with ⟨hhalt, hs⟩ | ⟨r, hrun, hcore, hs⟩ | ⟨cause, hrun, hcore, hs⟩
  · rw [hs, completed?_of_halted hhalt]
  · cases hpolled : m.core.polled? with
    | none =>
      rw [hs, completed?_of_not_polled hpolled]
      exact (Core.keys_of_step hcore hpolled).1
    | some x =>
      rw [completed?_of_polled hrun hpolled]
      cases hfirst : m.keypad.first? with
      | none => rw [step_of_retired hrun (Core.step_of_polled_none hpolled hfirst)]; rfl
      | some key => rw [step_of_retired hrun (Core.step_of_polled_some hpolled hfirst)]; rfl
  · cases hpolled : m.core.polled? with
    | none =>
      rw [hs, completed?_of_not_polled hpolled]
      rfl
    | some x =>
      -- A step that polls the keypad does not fail.
      rw [Core.step_of_polled hpolled] at hcore
      cases hcore

theorem first?_of_completed? (h : m.completed? = some key) : m.keypad.first? = some key := by
  cases hhalt : m.halted with
  | true =>
    rw [completed?_of_halted hhalt] at h
    cases h
  | false =>
    cases hpolled : m.core.polled? with
    | none =>
      rw [completed?_of_not_polled hpolled] at h
      cases h
    | some x => rwa [completed?_of_polled hhalt hpolled] at h

/-! ## Actions -/

/-- What becomes of the keypad. -/
theorem keypad_act (m : Machine) (a : Action) :
    (m.act a).keypad =
      match a with
      | .step =>
        match m.completed? with
        | some key => m.keypad.release key
        | none => m.keypad
      | .setKey key down => m.keypad.set key down
      | .releaseKeys => Keypad.released
      | _ => m.keypad := by
  cases a with
  | load contents =>
    cases contents with
    | error text => rfl
    | ok program =>
      simp only [act, loadContents, load]
      split <;> rfl
  | step => exact keypad_step m
  | finishFrame => rw [act, keypad, core_finishFrame, keypad]
  | undo =>
    simp only [act, undo]
    split <;> rfl
  | _ => rfl

/-- The waits that a key has completed, and the key itself if it is down, are paid for by its presses
and by what was there at the start. -/
def Paid (key : Key) (start : Nat) (m : Machine) (t : KeyTally) : Prop :=
  t.completed + (m.keypad.isDown key).toNat ≤ t.presses + start

theorem paid_act {start : Nat} (m : Machine) (t : KeyTally) (a : Action)
    (h : Paid key start m t) : Paid key start (m.act a) (tally key m t a) := by
  unfold Paid at *
  rw [keypad_act]
  cases a with
  | step =>
    simp only [tally]
    cases hcompleted : m.completed? with
    | none => simpa using h
    | some taken =>
      by_cases hkey : taken = key
      · subst hkey
        have hdown := (Keypad.first?_eq_some_iff.mp (first?_of_completed? hcompleted)).1
        rw [hdown, Bool.toNat_true] at h
        simp only [if_true, Keypad.isDown_release, Bool.toNat_false]
        omega
      · simpa [hkey] using h
  | setKey other down =>
    simp only [tally, Keypad.isDown_set]
    by_cases hkey : other = key
    · subst hkey
      cases hbefore : m.keypad.isDown other <;> cases down <;> simp_all <;> omega
    · simpa [hkey] using h
  | releaseKeys =>
    simp only [tally, Keypad.isDown_released, Bool.toNat_false]
    omega
  | _ => exact h

theorem paid_acts {start : Nat} {t : KeyTally} (h : Paid key start m t) (as : List Action) :
    Paid key start (m.acts as) (m.track (tally key) t as) :=
  track_invariant paid_act h as

end Machine

namespace Stepper

open Machine

/-- One press of a key satisfies at most one key wait.

At every moment of a session, also in the middle of a batch, a key has completed no more waits than
it was pressed while it was up, counting it as pressed once if it was down at the start; and if it is
down now, one press is still unused.  On a new machine nothing is down at the start.  A step that
completes a wait takes the lowest key that is down, releases it and leaves the others as they are.
Apart from such steps nothing but the host changes the keypad. -/
theorem one_wait_for_a_press (s : Stepper) (ops : List Operation) (key : Key) :
    (s.run ops).machine = s.machine.acts (s.trace ops) ∧
      ∀ done, done <+: s.trace ops →
        let m := s.machine.acts done
        let t := s.machine.track (tally key) ⟨0, 0⟩ done
        t.completed + (m.keypad.isDown key).toNat ≤
            t.presses + (s.machine.keypad.isDown key).toNat ∧
          (∀ settings entropy, s = powerOn settings entropy → t.completed ≤ t.presses) ∧
          (∀ taken, m.completed? = some taken →
            m.keypad.isDown taken = true ∧ (∀ j < taken, m.keypad.isDown j = false) ∧
              ∀ j, (m.act .step).keypad.isDown j =
                if j = taken then false else m.keypad.isDown j) ∧
          ∀ a, (∀ k down, a ≠ .setKey k down) → a ≠ .releaseKeys →
            (a = .step → m.completed? = none) → (m.act a).keypad = m.keypad := by
  refine ⟨machine_run s ops, ?_⟩
  intro done _ m t
  have hpaid : Paid key (s.machine.keypad.isDown key).toNat m t :=
    paid_acts (by simp [Paid]) done
  refine ⟨hpaid, ?_, ?_, ?_⟩
  · rintro settings entropy rfl
    -- Nothing is down on a new machine.
    have hstart : (powerOn settings entropy).machine.keypad.isDown key = false :=
      Keypad.isDown_released key
    rw [Paid, hstart, Bool.toNat_false] at hpaid
    omega
  · intro taken htaken
    rcases Keypad.first?_eq_some_iff.mp (first?_of_completed? htaken) with ⟨hdown, hlowest⟩
    refine ⟨hdown, hlowest, ?_⟩
    intro j
    rw [keypad_act]
    simp only [htaken, Keypad.isDown_release, eq_comm]
  · intro a hset hrelease hstep
    rw [keypad_act]
    cases a with
    | step => simp only [hstep rfl]
    | setKey k down => exact (hset k down rfl).elim
    | releaseKeys => exact (hrelease rfl).elim
    | _ => rfl

end Stepper
end Chip8
