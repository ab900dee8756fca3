import Chip8.Proofs.Machine.Step

/-!
# Key waits — when a step polls the keypad

A step polls the keypad for a register if a key wait is pending for it, or if the word at the program
counter is one.  Both come to the same (`Core.step_of_polled`): without a key the wait is pending
afterwards, and the lowest key that is down ends it and is released.  No other step changes the
keypad or a key wait (`Core.keys_of_execute`).
-/

namespace Chip8

namespace Keypad

variable {k : Keypad} {key other : Key}

/-- The first key that is down is the lowest one. -/
theorem first?_eq_some_iff :
    k.first? = some key ↔ k.isDown key = true ∧ ∀ j < key, k.isDown j = false := by
  simp only [first?, Key.all, List.find?_eq_some_iff_getElem, List.getElem_finRange]
  constructor
  · rintro ⟨hdown, i, hi, rfl, hbefore⟩
    refine ⟨hdown, ?_⟩
    intro j hj
    simpa using hbefore j.val hj
  · rintro ⟨hdown, hbefore⟩
    refine ⟨hdown, key.val, by simp, rfl, ?_⟩
    intro j hj
    simpa using hbefore ⟨j, by omega⟩ hj

@[simp] theorem isDown_release :
    (k.release key).isDown other = if key = other then false else k.isDown other :=
  isDown_set k key other false

end Keypad

namespace Core

variable {c : Core} {r : Retired} {i : Instr} {x : Reg} {key : Key}

/-- The register for which the next step polls the keypad, if it does. -/
def polled? (c : Core) : Option Reg :=
  match c.state.keyWait with
  | some x => some x
  | none =>
    match Instr.decode? c.state.fetch with
    | some (.waitKey x) => some x
    | _ => none

/-- The core with a key wait pending for a register. -/
def suspend (c : Core) (x : Reg) : Core := { c with state := { c.state with keyWait := some x } }

/-- The core after a key has ended the wait of a register. -/
def takeKey (c : Core) (x : Reg) (key : Key) : Core :=
  { c with
    state := { (c.state.setReg x (UInt8.ofNat key)).advance with keyWait := none }
    keypad := c.keypad.release key }

theorem polled?_of_waiting (hwait : c.state.keyWait = some x) : c.polled? = some x := by
  simp only [polled?, hwait]

theorem polled?_eq_some_iff :
    c.polled? = some x ↔ c.state.keyWait = some x ∨
      c.state.keyWait = none ∧ Instr.decode? c.state.fetch = some (.waitKey x) := by
  cases hwait : c.state.keyWait with
  | some y => simp [polled?, hwait]
  | none =>
    simp only [polled?, hwait, reduceCtorEq, false_or, true_and]
    split <;> simp_all

theorem suspend_of_waiting (hwait : c.state.keyWait = some x) : c.suspend x = c := by
  rw [suspend, ← hwait]

/-- A step that polls the keypad answers a wait, which may have been pending before. -/
theorem step_of_polled (h : c.polled? = some x) : c.step = .ok ((c.suspend x).answerWait x) := by
  rcases polled?_eq_some_iff.mp h with hwait | ⟨hwait, hword⟩
  · rw [step_of_waiting hwait, suspend_of_waiting hwait]
  · rw [step_of_decoded hwait hword]
    rfl

theorem step_of_polled_none (h : c.polled? = some x) (hfirst : c.keypad.first? = none) :
    c.step = .ok ⟨c.suspend x, .waitKey, none⟩ := by
  have hfirst' : (c.suspend x).keypad.first? = none := hfirst
  simp only [step_of_polled h, answerWait, hfirst']
  rfl

theorem step_of_polled_some (h : c.polled? = some x) (hfirst : c.keypad.first? = some key) :
    c.step = .ok ⟨c.takeKey x key, .next, none⟩ := by
  have hfirst' : (c.suspend x).keypad.first? = some key := hfirst
  simp only [step_of_polled h, answerWait, hfirst']
  rfl

/-- A step that is executed polls the keypad, with or without a key, or executes an instruction that is
no wait. -/
theorem step_ok_wait_cases (h : c.step = .ok r) :
    (∃ x, c.polled? = some x ∧ c.keypad.first? = none ∧ r = ⟨c.suspend x, .waitKey, none⟩) ∨
      (∃ x key, c.polled? = some x ∧ c.keypad.first? = some key ∧
        r = ⟨c.takeKey x key, .next, none⟩) ∨
      ∃ i, c.state.keyWait = none ∧ Instr.decode? c.state.fetch = some i ∧
        (∀ x, i ≠ .waitKey x) ∧ c.execute i = .ok r := by
  cases hpolled : c.polled? with
  | some x =>
    cases hfirst : c.keypad.first? with
    | none =>
      rw [step_of_polled_none hpolled hfirst] at h
      exact .inl ⟨x, rfl, rfl, (Except.ok.inj h).symm⟩
    | some key =>
      rw [step_of_polled_some hpolled hfirst] at h
      exact .inr (.inl ⟨x, key, rfl, rfl, (Except.ok.inj h).symm⟩)
  | none =>
    rcases step_ok_cases h with ⟨x, hwait, _⟩ | ⟨hwait, i, hword, hexec⟩
    · rw [polled?_of_waiting hwait] at hpolled
      cases hpolled
    · refine .inr (.inr ⟨i, hwait, hword, ?_, hexec⟩)
      rintro x rfl
      rw [polled?_eq_some_iff.mpr (.inr ⟨hwait, hword⟩)] at hpolled
      cases hpolled

/-- An instruction that is no wait leaves keypad and key wait alone. -/
theorem keys_of_execute (h : c.execute i = .ok r) (hi : ∀ x, i ≠ .waitKey x) :
    r.core.keypad = c.keypad ∧ r.core.state.keyWait = c.state.keyWait := by
  cases i with
  | call target =>
    rcases execute_call_ok h with ⟨stack, _, rfl⟩
    exact ⟨rfl, rfl⟩
  | ret =>
    rcases execute_ret_ok h with ⟨address, stack, _, rfl⟩
    exact ⟨rfl, rfl⟩
  | _ => exact (kept_of_execute h (by simp) (by simp) hi).2

/-- A step that does not poll the keypad leaves it alone, and no wait is pending afterwards. -/
theorem keys_of_step (h : c.step = .ok r) (hpolled : c.polled? = none) :
    r.core.keypad = c.keypad ∧ r.core.state.keyWait = none := by
  rcases step_ok_wait_cases h with ⟨x, hx, _⟩ | ⟨x, key, hx, _⟩ | ⟨i, hwait, _, hother, hexec⟩
  · rw [hpolled] at hx
    cases hx
  · rw [hpolled] at hx
    cases hx
  · rw [← hwait]
    exact keys_of_execute hexec hother

end Core
end Chip8
