import Chip8.Proofs.Session.Twins

/-!
# Onlookers — what watches a machine does not influence it

A machine keeps a record of its past, tells observers of every change, and sends frames, sounds and
faults to its devices.  Nothing of that is read by the steps that it executes.  So machines that
agree in their cores, their clock and their halt run alike, whether one of them records every step
and the other none, whoever looks on, and whatever either has recorded or sent before.

The one thing that reads the record is a step back, and sessions with steps back are left out.
-/

namespace Chip8

namespace Operation

/-- The operation takes no step back. -/
def GoesOn : Operation → Prop
  | .act .undo => False
  | .backward => False
  | _ => True

theorem GoesOn.ne_undo {op : Operation} (hop : op.GoesOn) {a : Action} (ha : a ∈ op.needs) :
    a ≠ .undo := by
  cases op with
  | act b =>
    rw [List.mem_singleton.mp ha]
    rintro rfl
    exact hop
  | backward => exact hop.elim
  | _ => grind [needs]

end Operation

namespace Machine

/-- Without steps back, machines with the same core cannot be told apart. -/
theorem sameCore_simulation : Simulation View.exact (fun a => a ≠ .undo) SameCore where
  clock h := h.clock
  state h := h.state
  answer h ha := congrArg _ (h.act ha).1
  outputs h ha := congrArg _ (h.act ha).2.1
  act h ha := (h.act ha).2.2

end Machine

namespace Stepper

open Machine

variable {s t : Stepper} {ops done : List Operation}

theorem ne_undo_of_mem_trace (hops : ∀ op ∈ ops, op.GoesOn) {a : Action} (ha : a ∈ s.trace ops) :
    a ≠ .undo := by
  rcases exists_needs_of_mem_trace ha with ⟨op, hop, hneeds⟩
  exact (hops op hop).ne_undo hneeds

/-- After any part of a session the machines still agree, and what they have sent to their devices
since the start is the same. -/
theorem Related.sameCore_after (h : s.Related SameCore t) (hops : ∀ op ∈ ops, op.GoesOn)
    (hdone : done <+: ops) :
    (s.run done).Related SameCore (t.run done) ∧
      ∃ newly : List Output,
        (s.run done).machine.recording = newly.foldl Recording.add s.machine.recording ∧
          (t.run done).machine.recording = newly.foldl Recording.add t.machine.recording := by
  have hallowed : ∀ op ∈ done, ∀ a ∈ op.needs, a ≠ .undo := by
    intro op hop a ha
    exact (hops op (hdone.subset hop)).ne_undo ha
  rcases sameCore_simulation.run h done hallowed with ⟨_, _, hsent, hrun⟩
  rw [View.map_output_exact, View.map_output_exact] at hsent
  refine ⟨hrun, s.sent done, recording_run s done, ?_⟩
  rw [recording_run t done, hsent]

/-- What watches a machine does not influence it.

Two machines agree in their cores, their clock and their halt; their histories, their observers and
what they have sent before may differ in any way.  Then every session without steps back gets the
same answers from both and comes to the same actions.  After each of these actions, also in the
middle of a batch, the machines agree again.  After each operation their steppers are at the same
point of a frame, and the same frames, sounds and faults have been added to what they had sent. -/
theorem run_alike_whoever_watches {m n : Machine} (hcore : m.SameCore n) (countdown : Nat)
    {ops : List Operation} (hops : ∀ op ∈ ops, op.GoesOn) :
    let s : Stepper := ⟨m, countdown⟩
    let t : Stepper := ⟨n, countdown⟩
    s.answers ops = t.answers ops ∧
      s.trace ops = t.trace ops ∧
      (∀ as, as <+: s.trace ops → (m.acts as).SameCore (n.acts as)) ∧
      ∀ done, done <+: ops →
        (s.run done).machine.SameCore (t.run done).machine ∧
          (s.run done).countdown = (t.run done).countdown ∧
          ∃ newly : List Output,
            (s.run done).machine.recording = newly.foldl Recording.add m.recording ∧
              (t.run done).machine.recording = newly.foldl Recording.add n.recording := by
  intro s t
  have hrelated : s.Related SameCore t := ⟨hcore, rfl⟩
  have hallowed : ∀ op ∈ ops, ∀ a ∈ op.needs, a ≠ .undo := fun op hop a ha =>
    (hops op hop).ne_undo ha
  rcases sameCore_simulation.run hrelated ops hallowed with ⟨hanswers, htrace, _, _⟩
  rw [View.map_answer_exact, View.map_answer_exact] at hanswers
  refine ⟨hanswers, htrace, ?_, ?_⟩
  · intro as has
    exact sameCore_simulation.acts hcore fun a ha => ne_undo_of_mem_trace hops (has.subset ha)
  · intro done hdone
    rcases hrelated.sameCore_after hops hdone with ⟨⟨hmachine, hcountdown⟩, hnewly⟩
    exact ⟨hmachine, hcountdown, hnewly⟩

/-- A machine that records nothing and one with two observers, which remembers a step of another
program, run a new program alike. -/
theorem run_alike_whoever_watches_of_no_history :
    let m := Machine.new { historyCapacity := 0 } fun _ => 0
    let n := { Machine.new {} fun _ => 0 with
      history := (History.empty 3).push (State.boot #[0x12, 0x00])
      observers := 2 }
    let ops := [.act (.load (.ok #[0xA2, 0x00, 0xD0, 0x15])), .forward, .steps 2,
      .act (.setKey 7 true), .act (.restore State.powerOn), .clockedFrame]
    m.history.capacity = 0 ∧ n.history.size = 1 ∧ m.SameCore n ∧
      (start m).answers ops = (start n).answers ops := by
  intro m n ops
  have hcore : m.SameCore n := ⟨rfl, rfl, rfl⟩
  have hops : ∀ op ∈ ops, op.GoesOn := by simp [ops, Operation.GoesOn]
  exact ⟨rfl, rfl, hcore, (run_alike_whoever_watches hcore _ hops).1⟩

end Stepper
end Chip8
