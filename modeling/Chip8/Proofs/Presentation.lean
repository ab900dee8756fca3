import Chip8.Proofs.Machine.Effect
import Chip8.Proofs.Session.Output
import Chip8.Proofs.Undo

/-!
# Presentation — the frame that a host sees is not stale

The screen of a machine and the frame that was presented last are two copies of one picture.  A frame
is presented when it ends and when the state is replaced by an earlier one, so at that moment the
copies agree.  Afterwards they can part in two ways only, and a host is told of both: a step whose
flow is `draw` (`Core.screen_of_step`), and a program that is loaded.
-/

namespace Chip8

/-! ## Steps -/

namespace Core

variable {c : Core} {r : Retired}

/-- A step that touches the screen says so. -/
theorem screen_of_step (h : c.step = .ok r) (hflow : r.flow ≠ .draw) :
    r.core.state.screen = c.state.screen := by
  rcases step_ok_wait_cases h with ⟨x, _, _, rfl⟩ | ⟨x, key, _, _, rfl⟩ | ⟨i, _, _, hother, hexec⟩
  · rfl
  · rfl
  · have heffect := effect_of_execute hexec hother
    exact heffect.screen_eq (heffect.flow_eq ▸ hflow)

end Core

/-! ## What presents the screen, and what touches it -/

namespace Moment

/-- A frame ends. -/
def endsFrame (t : Moment) : Bool :=
  match t.action with
  | .finishFrame => true
  | _ => false

/-- A step is taken back. -/
def takesBack (t : Moment) : Bool :=
  match t.action with
  | .undo => t.machine.undo.1
  | _ => false

/-- A state is restored. -/
def restores (t : Moment) : Bool :=
  match t.action with
  | .restore _ => true
  | _ => false

/-- The screen is presented. -/
def presents (t : Moment) : Bool := t.endsFrame || t.takesBack || t.restores

/-- The host is told that the screen may have changed: a step is executed with the flow `draw`, or a
program is loaded. -/
def redraws (t : Moment) : Bool :=
  match t.action with
  | .step =>
    match t.machine.step.1 with
    | .ok .draw => true
    | _ => false
  | .load contents => (t.machine.loadContents contents).1.isOk
  | _ => false

end Moment

namespace Machine

variable {m : Machine} {a : Action} {as : List Action} {t : Moment} {earlier since : List Moment}

/-- An action presents the screen as it is afterwards, and once. -/
theorem screens_outputs (m : Machine) (a : Action) :
    (m.outputs a).filterMap Output.screen? =
      if (Moment.mk m a).presents then [(m.act a).state.screen] else [] := by
  cases a with
  | load contents =>
    simp only [outputs, Moment.presents, Moment.endsFrame, Moment.takesBack, Moment.restores]
    split
    · rfl
    · split <;> rfl
  | step =>
    simp only [outputs, Moment.presents, Moment.endsFrame, Moment.takesBack, Moment.restores]
    split
    · rfl
    · split
      · rename_i r _
        cases r.cue <;> rfl
      · rfl
  | finishFrame =>
    have hscreen : (m.act .finishFrame).state.screen = m.state.screen := by
      rw [act, state_finishFrame]
      rfl
    rw [hscreen]
    simp only [outputs]
    split <;> rfl
  | undo =>
    cases hundo : m.undo.1 <;>
      simp [outputs, act, Moment.presents, Moment.endsFrame, Moment.takesBack, Moment.restores, hundo,
        Output.screen?]
  | _ => rfl

/-- What neither presents the screen nor tells of a change leaves it alone. -/
theorem screen_act (hpresents : (Moment.mk m a).presents = false)
    (hredraws : (Moment.mk m a).redraws = false) :
    (m.act a).state.screen = m.state.screen := by
  cases a with
  | load contents =>
    cases contents with
    | error text => rfl
    | ok program =>
      have hrejected : ¬ program.size ≤ Memory.programCapacity := by
        intro hfits
        simp [Moment.redraws, loadContents, load, hfits, Except.isOk, Except.toBool] at hredraws
      simp only [act, loadContents, load, hrejected, if_false]
      rfl
  | step =>
    rcases step_cases m with ⟨_, hs⟩ | ⟨r, _, hcore, hs⟩ | ⟨cause, _, _, hs⟩
    · rw [act, hs]
    · have hflow : r.flow ≠ .draw := by
        intro hdraw
        simp [Moment.redraws, hs, hdraw] at hredraws
      rw [act, hs]
      exact Core.screen_of_step hcore hflow
    · rw [act, hs]
      rfl
  | undo =>
    have hnone : m.undo.1 = false := by
      simpa [Moment.presents, Moment.endsFrame, Moment.takesBack, Moment.restores] using hpresents
    rw [act, undo_of_unchanged hnone]
  | finishFrame => cases hpresents
  | restore s => cases hpresents
  | _ => rfl

/-! ## Runs -/

theorem frame_act (m : Machine) (a : Action) :
    (m.act a).recording.frame =
      if (Moment.mk m a).presents then some (m.act a).state.screen else m.recording.frame := by
  rw [recording_act, (Recording.frame_foldl_add _ _).2, screens_outputs]
  split <;> rfl

theorem frames_act (m : Machine) (a : Action) :
    (m.act a).recording.frames = m.recording.frames + (Moment.mk m a).presents.toNat := by
  rw [recording_act, (Recording.frame_foldl_add _ _).1, screens_outputs]
  cases (Moment.mk m a).presents <;> rfl

theorem frames_acts (m : Machine) (as : List Action) :
    (m.acts as).recording.frames =
      m.recording.frames + (m.moments as).countP Moment.presents := by
  induction as generalizing m with
  | nil => rfl
  | cons a as ih =>
    rw [acts, ih, frames_act, moments, List.countP_cons]
    cases (Moment.mk m a).presents <;> simp +arith

/-- The presented frame stays that of the screen as long as no change of the screen is told of. -/
theorem frame_acts_of_quiet (hcurrent : m.recording.frame = some m.state.screen)
    (hquiet : ∀ t ∈ m.moments as, t.redraws = false) :
    (m.acts as).recording.frame = some (m.acts as).state.screen := by
  induction as generalizing m with
  | nil => exact hcurrent
  | cons a as ih =>
    refine ih ?_ fun t ht => hquiet t (List.mem_cons_of_mem _ ht)
    rw [frame_act]
    cases hpresents : (Moment.mk m a).presents with
    | true => rfl
    | false => rw [screen_act hpresents (hquiet _ List.mem_cons_self), hcurrent]; rfl

theorem frame_acts_of_presented (hmoments : m.moments as = earlier ++ t :: since)
    (hpresents : t.presents = true) (hquiet : ∀ t ∈ since, t.redraws = false) :
    (m.acts as).recording.frame = some (m.acts as).state.screen := by
  -- By induction on what came before the presentation.
  induction earlier generalizing m as with
  | nil =>
    cases as with
    | nil => cases hmoments
    | cons a as =>
      obtain ⟨rfl, rfl⟩ := List.cons.inj hmoments
      have hcurrent : (m.act a).recording.frame = some (m.act a).state.screen := by
        rw [frame_act, hpresents, if_pos rfl]
      rw [acts]
      exact frame_acts_of_quiet hcurrent hquiet
  | cons first earlier ih =>
    cases as with
    | nil => cases hmoments
    | cons a as =>
      have hlater : (m.act a).moments as = earlier ++ t :: since := (List.cons.inj hmoments).2
      rw [acts]
      exact ih hlater

end Machine

/-- The three ways to present the screen exclude each other. -/
theorem Moment.countP_presents (moments : List Moment) :
    moments.countP presents =
      moments.countP endsFrame + moments.countP takesBack + moments.countP restores := by
  induction moments with
  | nil => rfl
  | cons t moments ih =>
    rcases t with ⟨m, a⟩
    rw [List.countP_cons, List.countP_cons, List.countP_cons, List.countP_cons, ih]
    cases a with
    | undo => cases hundo : m.undo.1 <;> simp +arith [presents, endsFrame, takesBack, restores, hundo]
    | _ => simp +arith [presents, endsFrame, takesBack, restores]

namespace Stepper

/-- The frame that was presented last is the screen, unless the host was told of a change since.

At every moment of a session with a new machine, also in the middle of a batch, as many frames were
presented as frames have ended, steps were taken back and states were restored.  Take any of these
presentations.  Right after it, and as long as no step is executed with the flow `draw` and no program
is loaded, the frame that was presented last is the screen of the machine. -/
theorem presented_frame_current (settings : Settings) (entropy : Nat → UInt32)
    (ops : List Operation) :
    let start := powerOn settings entropy
    let first := start.machine
    (start.run ops).machine = first.acts (start.trace ops) ∧
      ∀ done, done <+: start.trace ops →
        let now := first.acts done
        let moments := first.moments done
        now.recording.frames =
            moments.countP Moment.endsFrame + moments.countP Moment.takesBack +
              moments.countP Moment.restores ∧
          ∀ earlier t since, moments = earlier ++ t :: since →
            t.endsFrame ∨ t.takesBack ∨ t.restores →
            (∀ u ∈ since, u.redraws = false) →
              now.recording.frame = some now.state.screen := by
  intro start first
  refine ⟨Stepper.machine_run start ops, ?_⟩
  intro done _ now moments
  refine ⟨?_, ?_⟩
  · have hnone : first.recording.frames = 0 := rfl
    calc
      now.recording.frames = first.recording.frames + moments.countP Moment.presents :=
        Machine.frames_acts first done
      _ = moments.countP Moment.endsFrame + moments.countP Moment.takesBack +
            moments.countP Moment.restores := by
          rw [hnone, Nat.zero_add, Moment.countP_presents]
  · intro earlier t since hmoments hpresented hquiet
    have hpresents : t.presents = true := by
      simpa [Moment.presents, or_assoc] using hpresented
    exact Machine.frame_acts_of_presented hmoments hpresents hquiet

end Stepper
end Chip8
