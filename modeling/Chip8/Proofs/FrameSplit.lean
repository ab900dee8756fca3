import Chip8.Proofs.Machine.Batch
import Chip8.Proofs.Machine.KeyWait
import Chip8.Proofs.Session.Log
import Chip8.Proofs.Session.Operation
import Mathlib.Algebra.Ring.Nat

/-!
# Frames — how steps are split into frames shows only in the timers

The end of a frame changes nothing of the core but the two timers.  The program sees them through one
instruction, which reads the delay timer: every other instruction does the same whatever the timers
are at (`Core.execute_untimed`), and the sound timer is read by none.

So two machines that differ in the timers alone stay so, step by step (`Machine.UpToTimers.step`),
and it does not matter when the one or the other ends a frame.  Two lists of frame lengths with the
same sum are two ways to put ends of frames between the same steps, and `SameTotal` goes through both
lists at once: an end of a frame on the left, one on the right, or a step on both sides.
-/

namespace Chip8

/-! ## Forgetting the timers -/

/-- The state with both timers at zero. -/
def State.untimed (s : State) : State := { s with delay := 0, sound := 0 }

def Core.untimed (c : Core) : Core := { c with state := c.state.untimed }

def Retired.untimed (r : Retired) : Retired := { r with core := r.core.untimed }

namespace State

variable {s t : State}

theorem untimed_countDown (s : State) : s.countDown.untimed = s.untimed := rfl

theorem eq_of_untimed (h : s.untimed = t.untimed) :
    s = { t with delay := s.delay, sound := s.sound } := by
  calc
    s = { s.untimed with delay := s.delay, sound := s.sound } := rfl
    _ = { t.untimed with delay := s.delay, sound := s.sound } := by rw [h]

end State

namespace Core

variable {c d : Core} {i : Instr}

theorem untimed_answerWait (c : Core) (x : Reg) :
    (c.untimed.answerWait x).untimed = (c.answerWait x).untimed := by
  rcases c with ⟨s, keypad, random⟩
  simp only [answerWait, untimed]
  cases keypad.first? <;> rfl

/-- An instruction that does not read the delay timer does the same whatever the timers are at. -/
theorem execute_untimed (c : Core) (hi : ∀ x, i ≠ .getDelay x) :
    (c.untimed.execute i).map Retired.untimed = (c.execute i).map Retired.untimed := by
  cases i with
  | getDelay x => exact (hi x rfl).elim
  | ret =>
    rcases c with ⟨s, keypad, random⟩
    simp only [execute, untimed, State.untimed]
    cases s.stack.pop? <;> rfl
  | call target =>
    rcases c with ⟨s, keypad, random⟩
    simp only [execute, untimed, State.untimed, State.advance]
    cases s.stack.push? (s.pc + 2) <;> rfl
  | waitKey x => exact congrArg Except.ok (untimed_answerWait (c.suspend x) x)
  | skipIf test =>
    rcases c with ⟨s, keypad, random⟩
    have hsame : test.holds s.untimed keypad = test.holds s keypad := by
      cases test <;> rfl
    simp only [execute, untimed, hsame]
    cases test.holds s keypad <;> rfl
  | alu op x y =>
    rcases c with ⟨s, keypad, random⟩
    simp only [execute, untimed]
    cases op <;> rfl
  | _ => rfl

/-- The same for a step, unless it executes the instruction that reads the delay timer. -/
theorem step_untimed (c : Core)
    (hi : c.state.keyWait = none → ∀ x, Instr.decode? c.state.fetch ≠ some (.getDelay x)) :
    c.untimed.step.map Retired.untimed = c.step.map Retired.untimed := by
  cases hwait : c.state.keyWait with
  | some x =>
    rw [step_of_waiting hwait, step_of_waiting (c := c.untimed) hwait]
    exact congrArg Except.ok (untimed_answerWait c x)
  | none =>
    cases hword : Instr.decode? c.state.fetch with
    | none =>
      rw [step_of_unknown hwait hword, step_of_unknown (c := c.untimed) hwait hword]
      rfl
    | some i =>
      rw [step_of_decoded hwait hword, step_of_decoded (c := c.untimed) hwait hword]
      refine execute_untimed c ?_
      rintro x rfl
      exact hi hwait x hword

end Core

/-! ## Lists of frame lengths -/

/-- Two lists of frame lengths with the same number of steps, taken apart at once: an end of a frame on
either side, or a step on both. -/
inductive SameTotal : List Nat → List Nat → Prop where
  | nil : SameTotal [] []
  | endLeft {sizes sizes' : List Nat} : SameTotal sizes sizes' → SameTotal (0 :: sizes) sizes'
  | endRight {sizes sizes' : List Nat} : SameTotal sizes sizes' → SameTotal sizes (0 :: sizes')
  | step {sizes sizes' : List Nat} {size size' : Nat} :
      SameTotal (size :: sizes) (size' :: sizes') →
        SameTotal ((size + 1) :: sizes) ((size' + 1) :: sizes')

theorem sameTotal_of_sum_eq {sizes sizes' : List Nat} (hsum : sizes.sum = sizes'.sum) :
    SameTotal sizes sizes' := by
  induction sizes generalizing sizes' with
  | nil =>
    -- What is left on the right are frames without steps.
    induction sizes' with
    | nil => exact .nil
    | cons size sizes' ih =>
      simp only [List.sum_nil, List.sum_cons] at hsum ih
      obtain rfl : size = 0 := by omega
      exact .endRight (ih (by omega))
  | cons size sizes ih =>
    induction size generalizing sizes' with
    | zero => exact .endLeft (ih (by simpa using hsum))
    | succ size ihsize =>
      -- The next step on the right comes after the ends of frames that stand before it.
      induction sizes' with
      | nil =>
        simp only [List.sum_nil, List.sum_cons] at hsum
        omega
      | cons size' sizes' ih' =>
        simp only [List.sum_cons] at hsum ih'
        cases size' with
        | zero => exact .endRight (ih' (by omega))
        | succ size' =>
          refine .step (ihsize ?_)
          simp only [List.sum_cons]
          omega

namespace Machine

variable {m n : Machine} {flow : Flow} {fault : Fault} {sizes sizes' : List Nat}

/-! ## Two machines that differ in the timers -/

/-- The machines are in the same state but for the timers, have the same inputs, and both are halted or
both not. -/
structure UpToTimers (m n : Machine) : Prop where
  core : m.core.untimed = n.core.untimed
  halted : m.halted = n.halted

namespace UpToTimers

theorem refl (m : Machine) : m.UpToTimers m := ⟨rfl, rfl⟩

theorem symm (h : m.UpToTimers n) : n.UpToTimers m := ⟨h.core.symm, h.halted.symm⟩

theorem state (h : m.UpToTimers n) : m.state.untimed = n.state.untimed := congrArg Core.state h.core

/-- Ends of frames do not show. -/
theorem finishFrame (h : m.UpToTimers n) : m.finishFrame.UpToTimers n := by
  refine ⟨?_, (halted_finishFrame m).trans h.halted⟩
  calc
    m.finishFrame.core.untimed = { m.core with state := m.state.countDown.untimed } := by
      rw [core_finishFrame, Core.untimed]
    _ = m.core.untimed := by rw [State.untimed_countDown, Core.untimed, Machine.state]
    _ = n.core.untimed := h.core

theorem next? (h : m.UpToTimers n) : m.next? = n.next? := by
  have hwait : m.state.keyWait = n.state.keyWait := by
    rw [State.eq_of_untimed h.state]
  have hfetch : m.state.fetch = n.state.fetch := by
    rw [State.eq_of_untimed h.state]
    rfl
  simp only [Machine.next?, h.halted, hwait, hfetch]

theorem attempt (h : m.UpToTimers n) : m.attempt = n.attempt := by
  have hpc : m.state.pc = n.state.pc := by
    rw [State.eq_of_untimed h.state]
  simp only [Machine.attempt, hpc, h.next?]

/-- The machines take the same step, unless it reads the delay timer. -/
theorem step (h : m.UpToTimers n) (hquiet : ∀ x, m.next? ≠ some (.getDelay x)) :
    m.step.1 = n.step.1 ∧ m.step.2.UpToTimers n.step.2 := by
  cases hhalt : m.halted with
  | true =>
    rw [step_of_halted hhalt, step_of_halted (h.halted ▸ hhalt)]
    exact ⟨rfl, h⟩
  | false =>
    have hcore : m.core.step.map Retired.untimed = n.core.step.map Retired.untimed := by
      rw [← Core.step_untimed, h.core, Core.step_untimed]
      · intro hwait x hword
        exact hquiet x (h.next?.trans (next?_eq_some_iff.mpr ⟨h.halted ▸ hhalt, hwait, hword⟩))
      · intro hwait x hword
        exact hquiet x (next?_eq_some_iff.mpr ⟨hhalt, hwait, hword⟩)
    rcases step_together h.halted hcore with ⟨hm, hn⟩ | ⟨r, r', hsame, _, _, hm, hn⟩ |
      ⟨cause, hm, hn⟩
    · rw [hm, hn]
      exact ⟨rfl, h⟩
    · have hflow : r.flow = r'.flow := (congrArg Retired.flow hsame :)
      rw [hm, hn, hflow]
      exact ⟨rfl, congrArg Retired.core hsame, h.halted⟩
    · rw [hm, hn]
      exact ⟨rfl, h.core, rfl⟩

end UpToTimers

/-! ## Frames of different lengths -/

/-- Execute frames of the given lengths until one fails. -/
def frames (m : Machine) : List Nat → Except Fault Unit × Machine
  | [] => (.ok (), m)
  | size :: sizes =>
    match m.frame size with
    | (.ok _, m) => m.frames sizes
    | (.error fault, m) => (.error fault, m)

/-- The actions that the frames come to. -/
def framesActions (m : Machine) : List Nat → List Action
  | [] => []
  | size :: sizes =>
    m.frameActions size ++
      if (m.frame size).1.isOk then (m.frame size).2.framesActions sizes else []

theorem acts_framesActions (m : Machine) (sizes : List Nat) :
    m.acts (m.framesActions sizes) = (m.frames sizes).2 := by
  induction sizes generalizing m with
  | nil => rfl
  | cons size sizes ih =>
    rw [framesActions, acts_append, acts_frameActions, frames]
    cases hframe : m.frame size with
    | mk outcome n =>
      cases outcome with
      | ok flow => exact ih n
      | error fault => rfl

/-- A frame goes on after a step that succeeds. -/
theorem frames_of_step (hstep : m.step = (.ok flow, n)) (size : Nat) (sizes : List Nat) :
    m.frames ((size + 1) :: sizes) = n.frames (size :: sizes) ∧
      m.framesActions ((size + 1) :: sizes) = .step :: n.framesActions (size :: sizes) := by
  have hactions : m.frameActions (size + 1) = .step :: n.frameActions size := by
    simp only [frameActions, steps, stepsFrom, tries, hstep]
    -- The flow that a batch starts with is what an empty one ends with.
    cases size <;> rfl
  rw [framesActions, hactions]
  cases size with
  | zero =>
    simp only [frames, framesActions, frame, steps, stepsFrom, hstep]
    exact ⟨trivial, rfl⟩
  | succ size =>
    have hframe : m.frame (size + 2) = n.frame (size + 1) := by
      simp only [frame, steps, stepsFrom, hstep]
    simp only [frames, framesActions, hframe]
    exact ⟨trivial, rfl⟩

/-- Nothing is executed after a step that fails. -/
theorem frames_of_failed_step (hstep : m.step = (.error fault, n)) (size : Nat)
    (sizes : List Nat) :
    m.frames ((size + 1) :: sizes) = (.error fault, n) ∧
      m.framesActions ((size + 1) :: sizes) = [.step] := by
  simp only [frames, framesActions, frameActions, frame, steps, stepsFrom, tries, hstep]
  exact ⟨trivial, rfl⟩

theorem framesActions_succ (m : Machine) (size : Nat) (sizes : List Nat) :
    ∃ rest, m.framesActions ((size + 1) :: sizes) = .step :: rest := ⟨_, rfl⟩

/-- As long as the first machine does not read the delay timer, both go through the same steps, however
they are split into frames. -/
theorem UpToTimers.frames (hsizes : SameTotal sizes sizes') (h : m.UpToTimers n)
    (hquiet : ∀ t ∈ m.log (m.framesActions sizes), ∀ x, t.instr? ≠ some (.getDelay x)) :
    n.log (n.framesActions sizes') = m.log (m.framesActions sizes) ∧
      (n.frames sizes').1 = (m.frames sizes).1 ∧
      (m.frames sizes).2.UpToTimers (n.frames sizes').2 := by
  induction hsizes generalizing m n with
  | nil => exact ⟨rfl, rfl, h⟩
  -- The end of a frame without steps leaves no entry in the log.
  | endLeft _ ih => exact ih h.finishFrame hquiet
  | endRight _ ih => exact ih h.symm.finishFrame.symm hquiet
  | @step sizes sizes' size size' _ ih =>
    have hfirst : ∀ x, m.next? ≠ some (.getDelay x) := by
      obtain ⟨rest, hactions⟩ := framesActions_succ m size sizes
      rw [hactions, log_step] at hquiet
      exact hquiet m.attempt List.mem_cons_self
    rcases h.step hfirst with ⟨houtcome, hnext⟩
    cases hm : m.step with
    | mk outcome m' =>
      cases hn : n.step with
      | mk outcome' n' =>
        rw [hm, hn] at houtcome hnext
        obtain rfl : outcome = outcome' := houtcome
        cases outcome with
        | error fault =>
          rcases frames_of_failed_step hm size sizes with ⟨hframes, hactions⟩
          rcases frames_of_failed_step hn size' sizes' with ⟨hframes', hactions'⟩
          rw [hframes, hframes', hactions, hactions', log_step, log_step, h.attempt]
          exact ⟨rfl, rfl, hnext⟩
        | ok flow =>
          rcases frames_of_step hm size sizes with ⟨hframes, hactions⟩
          rcases frames_of_step hn size' sizes' with ⟨hframes', hactions'⟩
          have hmNext : m.act .step = m' := congrArg Prod.snd hm
          have hnNext : n.act .step = n' := congrArg Prod.snd hn
          rw [hactions, log_step, hmNext] at hquiet
          rcases ih hnext fun t ht => hquiet t (List.mem_cons_of_mem _ ht) with
            ⟨hlog, houtcomes, hlast⟩
          rw [hframes, hframes', hactions, hactions', log_step, log_step, h.attempt, hmNext, hnNext,
            hlog]
          exact ⟨rfl, houtcomes, hlast⟩

/-! ## A program that jumps to itself -/

/-- The machine executes a jump to itself, with the delay timer at some value. -/
structure Spins (m : Machine) (delay : UInt8) : Prop where
  running : m.halted = false
  state : m.state = { State.boot #[0x12, 0x00] with delay := delay }

namespace Spins

variable {delay : UInt8}

theorem executes (h : m.Spins delay) : m.Executes (.jump 0x200) := by
  have hcode : (State.boot #[0x12, 0x00]).fetch = 0x1200 := by
    apply UInt16.toNat.inj
    rw [State.toNat_fetch_boot]
    rfl
  refine ⟨h.running, by rw [h.state]; rfl, ?_⟩
  rw [h.state]
  show Instr.decode? (State.boot #[0x12, 0x00]).fetch = some (.jump 0x200)
  rw [hcode]
  rfl

theorem attempt (h : m.Spins delay) : m.attempt = ⟨0x200, some (.jump 0x200)⟩ := by
  rw [Machine.attempt, next?_eq_some_iff.mpr h.executes, h.state]
  rfl

theorem step (h : m.Spins delay) : ∃ n, m.step = (.ok .jump, n) ∧ n.Spins delay := by
  refine ⟨_, step_of_retired h.running h.executes.core_step, h.running, ?_⟩
  show { m.state with pc := UInt16.ofNat (0x200 : Addr) } = _
  rw [h.state]
  rfl

theorem finishFrame (h : m.Spins delay) : m.finishFrame.Spins (Timing.countDown delay) := by
  refine ⟨(halted_finishFrame m).trans h.running, ?_⟩
  rw [state_finishFrame, h.state]
  rfl

/-- Every step is the jump, and every frame counts the delay timer down. -/
theorem frames (h : m.Spins delay) (sizes : List Nat) :
    m.log (m.framesActions sizes) = List.replicate sizes.sum ⟨0x200, some (.jump 0x200)⟩ ∧
      (m.frames sizes).2.Spins (sizes.foldl (fun d _ => Timing.countDown d) delay) := by
  induction sizes generalizing m delay with
  | nil => exact ⟨rfl, h⟩
  | cons size sizes ih =>
    induction size generalizing m with
    | zero =>
      rw [List.sum_cons, Nat.zero_add]
      exact ih h.finishFrame
    | succ size ihsize =>
      obtain ⟨n, hstep, hn⟩ := h.step
      have hnext : m.act .step = n := congrArg Prod.snd hstep
      rcases frames_of_step hstep size sizes with ⟨hframes, hactions⟩
      rcases ihsize hn with ⟨hlog, hspins⟩
      have hsum : ((size + 1) :: sizes).sum = (size :: sizes).sum + 1 := by
        simp only [List.sum_cons]
        omega
      rw [hframes, hactions, log_step, hnext, hlog, h.attempt, hsum, List.replicate_succ]
      exact ⟨rfl, hspins⟩

end Spins

/-! ## Runs of frames -/

/-- How instructions are split into frames is invisible but for the timers.

Two lists of frame lengths with the same sum are executed frame by frame on one machine, each until a
frame fails.  If the first run executes no instruction that reads the delay timer, then both runs try
the same steps with the same instructions at the same addresses, so that a fault comes at the same
step of both, and both end in the same way.  The states at the end are the same in everything but the
two timers, and so are the random numbers, the keypad, and whether the machine is halted. -/
theorem frames_split_invisible (hsum : sizes.sum = sizes'.sum)
    (hquiet : ∀ t ∈ m.log (m.framesActions sizes), ∀ x, t.instr? ≠ some (.getDelay x)) :
    let one := m.frames sizes
    let other := m.frames sizes'
    one.2 = m.acts (m.framesActions sizes) ∧ other.2 = m.acts (m.framesActions sizes') ∧
      m.log (m.framesActions sizes') = m.log (m.framesActions sizes) ∧
      other.1 = one.1 ∧
      other.2.state =
        { one.2.state with delay := other.2.state.delay, sound := other.2.state.sound } ∧
      other.2.core.random = one.2.core.random ∧
      other.2.keypad = one.2.keypad ∧
      other.2.halted = one.2.halted := by
  intro one other
  obtain ⟨hlog, houtcome, hlast⟩ :=
    (UpToTimers.refl m).frames (sameTotal_of_sum_eq hsum) hquiet
  have hsame : other.2.UpToTimers one.2 := hlast.symm
  refine ⟨(acts_framesActions m sizes).symm, (acts_framesActions m sizes').symm, hlog, houtcome,
    State.eq_of_untimed hsame.state, ?_, ?_, hsame.halted⟩
  · exact (congrArg Core.random hsame.core :)
  · exact (congrArg Core.keypad hsame.core :)

/-- Three frames of one step each, and one frame of three steps. -/
theorem frames_split_invisible_of_spinning :
    let m := (new {} fun _ => 0).restore { State.boot #[0x12, 0x00] with delay := 9 }
    let one := m.frames [1, 1, 1]
    let other := m.frames [3]
    (∀ t ∈ m.log (m.framesActions [1, 1, 1]), ∀ x, t.instr? ≠ some (.getDelay x)) ∧
      m.log (m.framesActions [3]) = m.log (m.framesActions [1, 1, 1]) ∧
      one.2.state.delay = 6 ∧ other.2.state.delay = 8 ∧
      other.2.state =
        { one.2.state with delay := other.2.state.delay, sound := other.2.state.sound } := by
  intro m
  have hm : m.Spins 9 := ⟨rfl, rfl⟩
  clear_value m
  obtain ⟨hlog, hone⟩ := hm.frames [1, 1, 1]
  obtain ⟨_, hother⟩ := hm.frames [3]
  have hquiet : ∀ t ∈ m.log (m.framesActions [1, 1, 1]), ∀ x, t.instr? ≠ some (.getDelay x) := by
    intro t ht x
    rw [hlog] at ht
    rw [List.eq_of_mem_replicate ht]
    exact nofun
  have hsum : [1, 1, 1].sum = [3].sum := rfl
  obtain ⟨_, _, hsame, _, hstate, _⟩ := frames_split_invisible hsum hquiet
  refine ⟨hquiet, hsame, ?_, ?_, hstate⟩
  · rw [hone.state]
    rfl
  · rw [hother.state]
    rfl

end Machine
end Chip8
