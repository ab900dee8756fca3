import Mathlib.Algebra.Ring.Nat
import Mathlib.Data.Finset.Dedup
import Mathlib.Data.Finset.Max
import Mathlib.Order.Fin.Basic
import Chip8.Proofs.Frames
import Chip8.Proofs.Suspension

/-!
# Key answers — a wait ends alike, suspended or not

A key wait ends in one of two ways: at once, if a key is down when the instruction is executed, or
later, when a machine that is suspended polls the keypad again.  `Machine.Awaits` relates a machine at
the wait to one that has polled in vain since, and has come to the ends of some frames.  Polls without
a key and ends of frames keep the relation, and so does a key that moves on both sides.  The first key
answers both machines alike, so that nothing tells them apart but the timers.
-/

namespace Chip8

/-- Polls of the keypad, with a number of frames that end after each of them. -/
def polls (gaps : List Nat) : List Action :=
  gaps.flatMap fun frames => .step :: List.replicate frames .finishFrame

/-- Keys are pressed, one after the other. -/
def presses (keys : List Key) : List Action := keys.map fun key => .setKey key true

namespace Keypad

variable {k : Keypad} {key : Key}

theorem first?_of_released (h : ∀ key, k.isDown key = false) : k.first? = none :=
  List.find?_eq_none.mpr fun key _ => by rw [h key]; exact Bool.false_ne_true

/-- The first key that is down is the least of them. -/
theorem first?_of_isDown_iff {K : Finset Key} (hK : K.Nonempty)
    (h : ∀ key, k.isDown key = true ↔ key ∈ K) : k.first? = some (K.min' hK) := by
  refine first?_eq_some_iff.mpr ⟨(h _).mpr (K.min'_mem hK), fun key hlow => ?_⟩
  rw [← Bool.not_eq_true, h]
  exact fun hmem => absurd (K.min'_le key hmem) (not_le.mpr hlow)

end Keypad

namespace Machine

variable {m n : Machine} {x : Reg} {frames late : Nat} {key : Key} {keys : List Key}
  {gaps : List Nat} {K : Finset Key}

/-- Both machines poll the keypad for a register with the next step.  But for the wait, which may be
pending or not, the second one differs from the first one by a number of frames that have ended. -/
structure Awaits (m n : Machine) (x : Reg) (frames : Nat) : Prop where
  running : n.halted = false
  polled : n.core.polled? = some x
  core_eq : n.core.suspend x = { m.core with state := m.state.elapse frames }.suspend x

namespace Awaits

theorem refl (h : m.Executes (.waitKey x)) : m.Awaits m x 0 := by
  refine ⟨h.1, Core.polled?_eq_some_iff.mpr (.inr h.2), ?_⟩
  rw [State.elapse_zero]
  rfl

theorem keypad_eq (h : m.Awaits n x frames) : n.keypad = m.keypad :=
  (congrArg Core.keypad h.core_eq :)

/-- A poll without a key answers that the machine waits. -/
theorem poll (h : m.Awaits n x frames) (hfirst : m.keypad.first? = none) :
    n.step.1 = .ok .waitKey ∧
      n.step.2.core = { m.core with state := m.state.elapse frames }.suspend x ∧
      m.Awaits n.step.2 x frames := by
  have hnone : n.core.keypad.first? = none := by
    rw [← hfirst, ← h.keypad_eq]
    rfl
  rw [step_of_retired h.running (Core.step_of_polled_none h.polled hnone)]
  exact ⟨rfl, h.core_eq, h.running, Core.polled?_of_waiting rfl, h.core_eq⟩

theorem finishFrame (h : m.Awaits n x frames) : m.Awaits n.finishFrame x (frames + 1) := by
  have hcore : n.finishFrame.core.suspend x =
      { n.core.suspend x with state := (n.core.suspend x).state.countDown } := by
    rw [core_finishFrame]
    rfl
  refine ⟨(halted_finishFrame n).trans h.running, ?_, ?_⟩
  · rw [core_finishFrame]
    exact h.polled
  · rw [hcore, h.core_eq, ← State.countDown_elapse]
    rfl

/-- A key moves on both sides. -/
theorem setKey (h : m.Awaits n x frames) (key : Key) (down : Bool) :
    (m.setKey key down).Awaits (n.setKey key down) x frames := by
  refine ⟨h.running, h.polled, ?_⟩
  show { n.core.suspend x with keypad := n.keypad.set key down } = _
  rw [h.core_eq, h.keypad_eq]
  rfl

/-- A key ends the wait of both machines, and is released. -/
theorem answer (h : m.Awaits n x frames) (hfirst : m.keypad.first? = some key) :
    n.step.1 = .ok .next ∧
      n.step.2.core = { m.core with state := m.state.elapse frames }.takeKey x key := by
  have hsome : n.core.keypad.first? = some key := by
    rw [← hfirst, ← h.keypad_eq]
    rfl
  rw [step_of_retired h.running (Core.step_of_polled_some h.polled hsome)]
  refine ⟨rfl, ?_⟩
  -- The key ends a wait whether it was pending or not.
  show (n.core.suspend x).takeKey x key = _
  rw [h.core_eq]
  rfl

theorem after_frames (h : m.Awaits n x frames) (more : Nat) :
    m.Awaits (n.acts (List.replicate more .finishFrame)) x (frames + more) := by
  induction more generalizing n frames with
  | zero => exact h
  | succ more ih =>
    rw [List.replicate_succ, acts, Nat.add_comm more 1, ← Nat.add_assoc]
    exact ih h.finishFrame

/-- Polls without a key keep a machine at the wait, whatever frames end in between. -/
theorem after_polls (h : m.Awaits n x frames) (hfirst : m.keypad.first? = none) (gaps : List Nat) :
    m.Awaits (n.acts (polls gaps)) x (frames + gaps.sum) := by
  induction gaps generalizing n frames with
  | nil => exact h
  | cons gap gaps ih =>
    -- The relation holds again after the first poll and the frames that end behind it.
    have hpolled : m.Awaits (n.act .step) x frames := (h.poll hfirst).2.2
    have hgap := hpolled.after_frames gap
    rw [polls, List.flatMap_cons, List.cons_append, acts, acts_append, List.sum_cons,
      ← Nat.add_assoc]
    exact ih hgap

theorem after_presses (h : m.Awaits n x frames) (keys : List Key) :
    (m.acts (presses keys)).Awaits (n.acts (presses keys)) x frames := by
  induction keys generalizing m n with
  | nil => exact h
  | cons key keys ih => exact ih (h.setKey key true)

end Awaits

theorem state_presses (m : Machine) (keys : List Key) : (m.acts (presses keys)).state = m.state := by
  induction keys generalizing m with
  | nil => rfl
  | cons key keys ih => exact ih (m.setKey key true)

/-- The keys that are down after some were pressed. -/
theorem isDown_presses (m : Machine) (keys : List Key) :
    (m.acts (presses keys)).keypad.isDown key = true ↔
      key ∈ keys ∨ m.keypad.isDown key = true := by
  induction keys generalizing m with
  | nil => simp [presses, acts]
  | cons first keys ih =>
    have hfirst : (m.setKey first true).keypad.isDown key = true ↔
        key = first ∨ m.keypad.isDown key = true := by
      show (m.keypad.set first true).isDown key = true ↔ _
      rw [Keypad.isDown_set]
      by_cases hsame : first = key
      · rw [if_pos hsame]
        exact iff_of_true rfl (.inl hsame.symm)
      · rw [if_neg hsame, or_iff_right (Ne.symm hsame)]
    show ((m.setKey first true).acts (presses keys)).keypad.isDown key = true ↔ _
    rw [ih, hfirst, List.mem_cons, or_left_comm, or_assoc]

/-- A wait that is suspended and one that is answered at once agree.

The machine stands on the instruction that waits for a key with register `x`, and no key is down.  Each
poll then answers that the machine waits, and leaves the state as it was, but for the wait itself and
for the frames that have ended since.  Keys are pressed, once after the polls and once instead of them.
Both times the next step takes the least key into the register, goes on to the next instruction, and
ends the wait; the keypad keeps all keys but this one.  So the states that follow are the same but for
the timers, and equal if no frame has ended. -/
theorem suspended_wait_agrees (hnext : m.Fetches (0xF00A + x * 256))
    (hup : ∀ key, m.keypad.isDown key = false) (hK : K.Nonempty) (hkeys : keys.toFinset = K)
    (gaps : List Nat) (late : Nat) :
    let s := m.state
    let low := K.min' hK
    let answered :=
      { s.setReg x (UInt8.ofNat low) with pc := s.pc + 2, keyWait := none }
    let now := m.acts (presses keys)
    let later := (m.acts (polls gaps)).acts (presses keys ++ List.replicate late .finishFrame)
    (∀ i < gaps.length,
      let poll := (m.acts (polls (gaps.take i))).step
      poll.1 = .ok .waitKey ∧
        poll.2.state = { s.elapse (gaps.take i).sum with keyWait := some x } ∧
        poll.2.keypad = m.keypad) ∧
      (∀ key, now.keypad.isDown key = true ↔ key ∈ K) ∧
      later.keypad = now.keypad ∧
      now.step.1 = .ok .next ∧ later.step.1 = .ok .next ∧
      now.step.2.state = answered ∧
      later.step.2.state = now.step.2.state.elapse (gaps.sum + late) ∧
      (gaps.sum + late = 0 → later.step.2.state = now.step.2.state) ∧
      later.step.2.keypad = now.step.2.keypad ∧
      ∀ key, now.step.2.keypad.isDown key = true ↔ key ∈ K.erase low := by
  intro s low answered now later
  have hexec : m.Executes (.waitKey x) := fetches_code_iff.mp hnext
  have hnone : m.keypad.first? = none := Keypad.first?_of_released hup
  have hdown : ∀ key, now.keypad.isDown key = true ↔ key ∈ K := by
    intro key
    rw [isDown_presses, hup, ← hkeys, List.mem_toFinset]
    simp
  have hwaits : m.Awaits m x 0 := Awaits.refl hexec
  have hnow : now.Awaits now x 0 := hwaits.after_presses keys
  have hlater : now.Awaits later x (gaps.sum + late) := by
    have hpolled := (hwaits.after_polls hnone gaps).after_presses keys
    rw [Nat.zero_add] at hpolled
    show now.Awaits ((m.acts (polls gaps)).acts (presses keys ++ _)) x _
    rw [acts_append]
    exact hpolled.after_frames late
  -- The machines are related when the keys are down, so the same key answers both.
  have hfirst : now.keypad.first? = some low := Keypad.first?_of_isDown_iff hK hdown
  obtain ⟨hnowFlow, hnowCore⟩ := hnow.answer hfirst
  obtain ⟨hlaterFlow, hlaterCore⟩ := hlater.answer hfirst
  have hstate : now.state = s := m.state_presses keys
  have hanswered : now.step.2.state = answered := by
    rw [state, hnowCore, hstate, State.elapse_zero]
    rfl
  have helapsed : later.step.2.state = now.step.2.state.elapse (gaps.sum + late) := by
    rw [hanswered, state, hlaterCore, hstate]
    rfl
  refine ⟨?_, hdown, hlater.keypad_eq, hnowFlow, hlaterFlow, hanswered, helapsed, ?_, ?_, ?_⟩
  · intro i _ poll
    have hpolled := hwaits.after_polls hnone (gaps.take i)
    rw [Nat.zero_add] at hpolled
    obtain ⟨hflow, hcore, _⟩ := hpolled.poll hnone
    exact ⟨hflow, congrArg Core.state hcore, (congrArg Core.keypad hcore :)⟩
  · intro hframes
    rw [helapsed, hframes, State.elapse_zero]
  · rw [keypad, keypad, hlaterCore, hnowCore]
    rfl
  · intro key
    rw [keypad, hnowCore]
    show (now.keypad.release low).isDown key = true ↔ _
    rw [Keypad.isDown_release, Finset.mem_erase, ← hdown]
    by_cases hsame : low = key
    · rw [if_pos hsame]
      exact iff_of_false Bool.false_ne_true fun h => h.1 hsame.symm
    · rw [if_neg hsame, and_iff_right (Ne.symm hsame)]

/-- Three polls, with frames that end between them and after two keys have come. -/
theorem suspended_wait_agrees_of_two_keys :
    let m := (new {} fun _ => 0).act (.load (.ok #[0xF3, 0x0A]))
    let later := (m.acts (polls [1, 0, 2])).acts (presses [9, 5] ++ List.replicate 1 .finishFrame)
    m.Fetches (0xF00A + (3 : Reg) * 256) ∧ (∀ key, m.keypad.isDown key = false) ∧
      (m.acts (polls [1, 0])).step.1 = .ok .waitKey ∧
      later.step.1 = .ok .next ∧ later.step.2.state.reg 3 = 5 ∧ later.step.2.state.pc = 0x202 ∧
      later.step.2.keypad.isDown 5 = false ∧ later.step.2.keypad.isDown 9 = true := by
  have hagrees (m : Machine) (hrun : m.halted = false)
      (hstate : m.state = State.boot #[0xF3, 0x0A]) (hkeys : m.keypad = Keypad.released) :
      let later := (m.acts (polls [1, 0, 2])).acts
        (presses [9, 5] ++ List.replicate 1 .finishFrame)
      m.Fetches (0xF00A + (3 : Reg) * 256) ∧ (∀ key, m.keypad.isDown key = false) ∧
        (m.acts (polls [1, 0])).step.1 = .ok .waitKey ∧
        later.step.1 = .ok .next ∧ later.step.2.state.reg 3 = 5 ∧ later.step.2.state.pc = 0x202 ∧
        later.step.2.keypad.isDown 5 = false ∧ later.step.2.keypad.isDown 9 = true := by
    intro later
    have hnext : m.Fetches (0xF00A + (3 : Reg) * 256) := by
      refine ⟨hrun, by rw [hstate]; rfl, ?_⟩
      rw [hstate, State.toNat_fetch_boot]
      rfl
    have hup : ∀ key, m.keypad.isDown key = false := by
      intro key
      rw [hkeys, Keypad.isDown_released]
    have hK : ({5, 9} : Finset Key).Nonempty := ⟨5, by decide⟩
    have hlow : ({5, 9} : Finset Key).min' ⟨5, by decide⟩ = 5 := by decide
    have hset : ([9, 5] : List Key).toFinset = {5, 9} := by decide
    rcases suspended_wait_agrees hnext hup hK hset [1, 0, 2] 1 with
      ⟨hpolls, _, _, _, hflow, hanswered, helapsed, _, hsame, hdown⟩
    rw [hlow, ← hsame] at hdown
    refine ⟨hnext, hup, (hpolls 2 (by decide)).1, hflow, ?_, ?_, ?_, ?_⟩
    · rw [helapsed, hanswered, hlow]
      exact Vector.getElem_set_self _
    · rw [helapsed, hanswered, hstate]
      rfl
    · rw [← Bool.not_eq_true, hdown]
      decide
    · rw [hdown]
      decide
  exact hagrees _ rfl rfl rfl

end Machine
end Chip8
