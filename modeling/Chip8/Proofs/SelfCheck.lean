import Chip8.Proofs.KnownState
import Chip8.Proofs.Listing.Printed

/-!
# The self-check of a trace

A trace takes steps until one fails, and otherwise takes all of them back and compares the state
with the one it started from.  The history of the traced machine is as long as the trace, so the
comparison never fails: the status that reports such a failure is not reached.

What a trace prints is the dumps of the steps that succeed, in order (`Stepper.Shows`).
-/

namespace Chip8

namespace Stepper

variable {s t : Stepper} {flow : Flow}

/-- The texts show the next steps, one text for each of them: a step that succeeds is dumped with its
flow and with the registers behind it. -/
inductive Shows : Stepper → Nat → List String → Prop where
  | nil (s : Stepper) : Shows s 0 []
  | cons {s t : Stepper} {flow : Flow} {n : Nat} {entry : String} {entries : List String}
      (hforward : s.forward = (.ok flow, t)) (hdump : flow.Dumps t.machine.state entry)
      (h : Shows t n entries) : Shows s (n + 1) (entry :: entries)

theorem Shows.length {n : Nat} {entries : List String} (h : s.Shows n entries) :
    entries.length = n := by
  induction h with
  | nil s => rfl
  | cons hforward hdump h ih => rw [List.length_cons, ih]

/-- Each of the texts is the dump of its step. -/
theorem Shows.getElem? {n i : Nat} {entries : List String} (h : s.Shows n entries) (hi : i < n) :
    ∃ flow t entry, (s.ahead i).forward = (.ok flow, t) ∧ entries[i]? = some entry ∧
      flow.Dumps t.machine.state entry := by
  induction h generalizing i with
  | nil s => exact absurd hi (Nat.not_lt_zero i)
  | @cons s t flow n entry entries hforward hdump h ih =>
    cases i with
    | zero => exact ⟨flow, t, entry, hforward, rfl, hdump⟩
    | succ i =>
      have hnext : s.forward.2 = t := congrArg Prod.snd hforward
      rw [ahead_succ, hnext]
      exact ih (Nat.lt_of_succ_lt_succ hi)

end Stepper

namespace Command

open Stepper

variable {s : Stepper}

/-! ## Walks -/

/-- A walk without a failing step shows every step. -/
theorem walk_of_succeeds {n : Nat} (hok : s.Succeeds n) (taken : Array String) :
    ∃ entries, s.Shows n entries ∧
      walk taken n s = (none, taken ++ entries.toArray, s.ahead n) := by
  induction n generalizing s taken with
  | zero => exact ⟨[], .nil s, by simp [walk, ahead_zero]⟩
  | succ n ih =>
    obtain ⟨flow, hforward⟩ := hok.forward_eq
    have hdump := dumps_traceEntry flow s.forward.2.machine.state
    obtain ⟨entries, hshows, hwalk⟩ :=
      ih hok.tail (taken.push (traceEntry flow s.forward.2.machine.state))
    refine ⟨_ :: entries, .cons hforward hdump hshows, ?_⟩
    rw [walk, hforward]
    simp only [hwalk, ahead_succ]
    simp

/-- A walk with a failing step shows those before it, and ends there. -/
theorem walk_of_fault {j n : Nat} {fault : Fault} (hok : s.Succeeds j) (hj : j < n)
    (hfault : (s.ahead j).forward.1 = .error fault) (taken : Array String) :
    ∃ entries last, s.Shows j entries ∧
      walk taken n s = (some fault, taken ++ entries.toArray, last) := by
  induction j generalizing s n taken with
  | zero =>
    obtain ⟨more, rfl⟩ : ∃ more, n = more + 1 := ⟨n - 1, by omega⟩
    have hforward : s.forward = (.error fault, s.forward.2) := Prod.ext hfault rfl
    refine ⟨[], s.forward.2, .nil s, ?_⟩
    rw [walk, hforward]
    simp
  | succ j ih =>
    obtain ⟨more, rfl⟩ : ∃ more, n = more + 1 := ⟨n - 1, by omega⟩
    obtain ⟨flow, hforward⟩ := hok.forward_eq
    have hdump := dumps_traceEntry flow s.forward.2.machine.state
    rw [ahead_succ] at hfault
    have hlater : j < more := by omega
    obtain ⟨entries, last, hshows, hwalk⟩ :=
      ih hok.tail hlater hfault (taken.push (traceEntry flow s.forward.2.machine.state))
    refine ⟨_ :: entries, last, .cons hforward hdump hshows, ?_⟩
    rw [walk, hforward]
    simp only [hwalk]
    simp

/-! ## Traces -/

/-- The machine runs, and has an empty history that is as long as the trace. -/
structure Traceable (m : Machine) (count : Nat) : Prop where
  running : m.halted = false
  fresh : m.history.newestFirst = []
  capacity : m.history.capacity = count

theorem traceable_of_load {count : Nat} {rom : Program}
    (hfits : rom.size ≤ Memory.programCapacity) (entropy : Nat → UInt32) :
    Traceable ((Machine.new { historyCapacity := count } entropy).load rom).2 count := by
  simp only [Machine.load, hfits, if_true]
  exact ⟨rfl, rfl, rfl⟩

namespace Traceable

variable {m : Machine} {count : Nat}

theorem size (hm : Traceable m count) : m.history.size = 0 := by
  rw [← History.length_newestFirst, hm.fresh, List.length_nil]

theorem room (hm : Traceable m count) : m.history.size + count ≤ m.history.capacity := by
  have hempty := hm.size
  have hcapacity := hm.capacity
  omega

/-- Taking all steps back arrives at the state from the start, and nothing is left to take back. -/
theorem rewinds (hm : Traceable m count) (hok : (start m).Succeeds count) :
    let last := (start m).ahead count
    let back := List.replicate count Operation.backward
    last.answers back = List.replicate count (.undone true) ∧
      (last.run back).backward.1 = false ∧
      last.backwardAll = last.run back ∧
      (last.run back).machine.state = m.state := by
  intro last back
  rcases round_trip hok hm.room with ⟨hanswers, htimeline⟩
  have hstate : (last.run back).machine.state = m.state := (List.cons.inj htimeline).1
  have hhistory : (last.run back).machine.history.newestFirst = [] :=
    (List.cons.inj htimeline).2.trans hm.fresh
  have hsize : last.machine.history.size = m.history.size + count := size_ahead hok hm.room
  rw [hm.size, Nat.zero_add] at hsize
  refine ⟨hanswers, ?_, ?_, hstate⟩
  · rcases Machine.undo_cases (last.run back).machine with ⟨_, hundo⟩ | ⟨n, _, hnewest, _⟩
    · rw [backward_changed, hundo]
    · rw [hhistory] at hnewest
      cases hnewest
  · rw [backwardAll, hsize, backwardUpTo_eq_run]

theorem report_of_succeeds (hm : Traceable m count) (hok : (start m).Succeeds count) :
    ∃ entries, (start m).Shows count entries ∧
      traceReport m count = ⟨0, String.join entries, [], 0⟩ := by
  obtain ⟨_, _, hback, hstate⟩ := hm.rewinds hok
  obtain ⟨entries, hshows, hwalk⟩ := walk_of_succeeds hok #[]
  refine ⟨entries, hshows, ?_⟩
  have hrestored : ((start m).ahead count).backwardAll.machine.state = m.state := by
    rw [hback, hstate]
  simp only [traceReport, hwalk, hrestored, if_true, Report.success, Array.toList_append,
    List.nil_append]

theorem report_of_fault (hm : Traceable m count) {j : Nat} {fault : Fault} (hj : j < count)
    (hok : (start m).Succeeds j) (hfault : ((start m).ahead j).forward.1 = .error fault) :
    ∃ entries, (start m).Shows j entries ∧
      traceReport m count = ⟨65, String.join entries, [.fault fault], 0⟩ := by
  obtain ⟨entries, last, hshows, hwalk⟩ := walk_of_fault hok hj hfault #[]
  refine ⟨entries, hshows, ?_⟩
  -- The machine runs until the step that fails, so the program is to blame.
  obtain ⟨cause, rfl⟩ := trap_of_failed_ahead hm.running hok hfault
  simp only [traceReport, hwalk, Report.failure, Fault.exitStatus, Array.toList_append,
    List.nil_append]

theorem status_ne (hm : Traceable m count) : (traceReport m count).status ≠ 70 := by
  rcases succeeds_or_fails (start m) count with hok | ⟨j, hj, hok, fault, hfault⟩
  · obtain ⟨entries, _, hreport⟩ := hm.report_of_succeeds hok
    simp [hreport]
  · obtain ⟨entries, _, hreport⟩ := hm.report_of_fault hj hok hfault
    simp [hreport]

end Traceable

/-! ## The report -/

theorem exitStatus_ne (fault : Fault) : fault.exitStatus ≠ 70 := by
  cases fault <;> simp [Fault.exitStatus]

theorem stepReport_status_ne (files : Files) (entropy : Nat → UInt32) (program : String)
    (count : Nat) : (stepReport files entropy program count).status ≠ 70 := by
  rw [stepReport]
  cases hfile : files program with
  | error text => exact exitStatus_ne (.io text)
  | ok rom =>
    by_cases hfits : rom.size ≤ Memory.programCapacity
    · have htraceable : Traceable _ count := traceable_of_load hfits entropy
      have hstatus := htraceable.status_ne
      simpa [Machine.loadContents, Machine.load, hfits] using hstatus
    · have hstatus := exitStatus_ne (.programTooLarge rom.size Memory.programCapacity)
      simpa [Machine.loadContents, Machine.load, hfits, Report.failure] using hstatus

theorem stepReport_of_load {files : Files} {entropy : Nat → UInt32} {program : String}
    {count : Nat} {rom : Program} (hfile : files program = .ok rom)
    (hfits : rom.size ≤ Memory.programCapacity) :
    stepReport files entropy program count =
      traceReport ((Machine.new { historyCapacity := count } entropy).load rom).2 count := by
  rw [stepReport, hfile]
  simp [Machine.loadContents, Machine.load, hfits]

/-- The self-check of a trace cannot fail, and the report is exact.

Whatever follows the command `step` on the command line, the status is not that of a failed check.
If a program of `rom` is loaded and all steps succeed, each of them can be taken back, then nothing
is left to take back, and the whole state is the one after loading; all steps are shown and the
status is zero.  Where a step is the first to fail, the steps before it are shown, and the status
says that the program is to blame. -/
theorem step_report_exact (files : Files) (entropy : Nat → UInt32) (program text : String)
    (rest : List String) :
    let report := Report.ofArgs ("step" :: program :: text :: rest) files entropy
    report.status ≠ 70 ∧
      ∀ count rom, readCount? text = some count → files program = .ok rom →
        rom.size ≤ Memory.programCapacity →
          let m := ((Machine.new { historyCapacity := count } entropy).load rom).2
          let s := start m
          (s.Succeeds count →
              let last := s.ahead count
              let back := List.replicate count Operation.backward
              last.answers back = List.replicate count (.undone true) ∧
                (last.run back).backward.1 = false ∧
                last.backwardAll = last.run back ∧
                (last.run back).machine.state = m.state ∧
                ∃ entries, s.Shows count entries ∧ entries.length = count ∧
                  report = ⟨0, String.join entries, [], 0⟩) ∧
            ∀ j < count, s.Succeeds j → ∀ fault, (s.ahead j).forward.1 = .error fault →
              ∃ entries, s.Shows j entries ∧ entries.length = j ∧
                report = ⟨65, String.join entries, [.fault fault], 0⟩ := by
  intro report
  have hreport : report =
      (readCount? text).elim .misuse (stepReport files entropy program) := by
    show Report.ofArgs _ _ _ = _
    simp only [Report.ofArgs, ofArgs?]
    cases readCount? text <;> rfl
  refine ⟨?_, ?_⟩
  · rw [hreport]
    cases readCount? text with
    | none =>
      show Report.misuse.status ≠ 70
      decide
    | some count => exact stepReport_status_ne files entropy program count
  · intro count rom hcount hfile hfits m s
    have hm : Traceable m count := traceable_of_load hfits entropy
    have htrace : report = traceReport m count := by
      rw [hreport, hcount]
      exact stepReport_of_load hfile hfits
    refine ⟨?_, ?_⟩
    · intro hok last back
      obtain ⟨hanswers, hdone, hback, hstate⟩ := hm.rewinds hok
      obtain ⟨entries, hshows, hentries⟩ := hm.report_of_succeeds hok
      refine ⟨hanswers, hdone, hback, hstate, entries, hshows, hshows.length, ?_⟩
      rw [htrace, hentries]
    · intro j hj hok fault hfault
      obtain ⟨entries, hshows, hentries⟩ := hm.report_of_fault hj hok hfault
      refine ⟨entries, hshows, hshows.length, ?_⟩
      rw [htrace, hentries]

/-- Twelve steps of a program that sets the delay timer and then jumps to itself. -/
theorem shows_timed_jump (h : s.RunsIn (State.boot (.timed 7 0x12 0x04)) 10) :
    s.Succeeds 12 ∧ (s.ahead 12).machine.state.delay = 6 ∧
      ∀ entries, s.Shows 12 entries → entries[11]? = some ("Jump\n" ++
        "V0=07 V1=00 V2=00 V3=00 V4=00 V5=00 V6=00 V7=00 " ++
        "V8=00 V9=00 VA=00 VB=00 VC=00 VD=00 VE=00 VF=00 \n" ++
        "I=0000 PC=0204 SP=0 DT=06 ST=00\n\n") := by
  obtain ⟨hok, hlast⟩ := h.ahead_timed 10
  refine ⟨hok, ?_, fun entries hshows => ?_⟩
  · rw [hlast.machine.state_eq]
    decide
  · have hbefore : (s.ahead 11).RunsIn ((State.timedTwice 7 0x12 0x04).elapse 1) (7 + 2) :=
      (h.ahead_timed 9).2
    obtain ⟨hforward, hstands⟩ := hbefore.forward (State.moves_timedTwice 1)
    obtain ⟨flow, t, entry, hstep, hentry, hdump⟩ := hshows.getElem? (i := 11) (by decide)
    rw [hforward] at hstep
    cases hstep
    rw [hentry, hdump.eq, hstands.machine.state_eq]
    decide +kernel

/-- The same program without the jump: the word behind the first two instructions is none. -/
theorem shows_timed_stuck (h : s.RunsIn (State.boot (.timed 5 0xFF 0xFF)) 10) :
    s.Succeeds 2 ∧ (s.ahead 2).forward.1 = .error (.trap (.unknownOpcode 0xFFFF 0x204)) ∧
      ∀ entries, s.Shows 2 entries → String.join entries = "Ok\n" ++
        "V0=05 V1=00 V2=00 V3=00 V4=00 V5=00 V6=00 V7=00 " ++
        "V8=00 V9=00 VA=00 VB=00 VC=00 VD=00 VE=00 VF=00 \n" ++
        "I=0000 PC=0202 SP=0 DT=00 ST=00\n\n" ++ "Ok\n" ++
        "V0=05 V1=00 V2=00 V3=00 V4=00 V5=00 V6=00 V7=00 " ++
        "V8=00 V9=00 VA=00 VB=00 VC=00 VD=00 VE=00 VF=00 \n" ++
        "I=0000 PC=0204 SP=0 DT=05 ST=00\n\n" := by
  obtain ⟨hone, htwo, hstandsOne, hstandsTwo⟩ := h.forward_timed
  refine ⟨.cons hone (.cons htwo nofun), hstandsTwo.forward_of_stuck State.stuck_timedTwice, ?_⟩
  intro entries hshows
  cases hshows with
  | cons hforward hdump hrest =>
    rw [hone] at hforward
    cases hforward
    cases hrest with
    | cons hforward' hdump' hnil =>
      rw [htwo] at hforward'
      cases hforward'
      cases hnil
      rw [hdump.eq, hdump'.eq, hstandsOne.machine.state_eq, hstandsTwo.machine.state_eq]
      decide +kernel

/-- A program sets the delay timer and then jumps to itself.  Twelve steps of it are shown, the last one
with a timer that has counted down at the end of a frame, and all of them are taken back.  With a word
that is no instruction instead of the jump, the two steps before it are shown. -/
theorem step_report_exact_of_timed :
    (let rom := Program.timed 7 0x12 0x04
      let m := ((Machine.new { historyCapacity := 12 } fun _ => 0).load rom).2
      (start m).Succeeds 12 ∧ ((start m).ahead 12).machine.state.delay = 6 ∧
        (((start m).ahead 12).run (List.replicate 12 .backward)).machine.state = m.state ∧
        ∃ entries, entries.length = 12 ∧
          entries[11]? = some ("Jump\n" ++
            "V0=07 V1=00 V2=00 V3=00 V4=00 V5=00 V6=00 V7=00 " ++
            "V8=00 V9=00 VA=00 VB=00 VC=00 VD=00 VE=00 VF=00 \n" ++
            "I=0000 PC=0204 SP=0 DT=06 ST=00\n\n") ∧
          Report.ofArgs ["step", "jump.rom", "12"] (fun _ => .ok rom) (fun _ => 0) =
            ⟨0, String.join entries, [], 0⟩) ∧
      Report.ofArgs ["step", "stuck.rom", "4"] (fun _ => .ok (.timed 5 0xFF 0xFF)) (fun _ => 0) =
        ⟨65, "Ok\n" ++
          "V0=05 V1=00 V2=00 V3=00 V4=00 V5=00 V6=00 V7=00 " ++
          "V8=00 V9=00 VA=00 VB=00 VC=00 VD=00 VE=00 VF=00 \n" ++
          "I=0000 PC=0202 SP=0 DT=00 ST=00\n\n" ++ "Ok\n" ++
          "V0=05 V1=00 V2=00 V3=00 V4=00 V5=00 V6=00 V7=00 " ++
          "V8=00 V9=00 VA=00 VB=00 VC=00 VD=00 VE=00 VF=00 \n" ++
          "I=0000 PC=0204 SP=0 DT=05 ST=00\n\n",
          [.fault (.trap (.unknownOpcode 0xFFFF 0x204))], 0⟩ := by
  refine ⟨?_, ?_⟩
  · intro rom m
    obtain ⟨_, hreport⟩ :=
      step_report_exact (fun _ => .ok rom) (fun _ => 0) "jump.rom" "12" []
    obtain ⟨hall, _⟩ := hreport 12 rom (by decide) rfl (by decide)
    have hstart : (start m).RunsIn (State.boot rom) 10 :=
      runsIn_start (Machine.runsIn_load rfl (by decide) _)
    obtain ⟨hok, hdelay, htext⟩ := shows_timed_jump hstart
    obtain ⟨_, _, _, hrestored, entries, hshows, hlength, h⟩ := hall hok
    exact ⟨hok, hdelay, hrestored, entries, hlength, htext entries hshows, h⟩
  · obtain ⟨_, hreport⟩ := step_report_exact (fun _ => .ok (.timed 5 0xFF 0xFF)) (fun _ => 0)
      "stuck.rom" "4" []
    obtain ⟨_, hfirst⟩ := hreport 4 (.timed 5 0xFF 0xFF) (by decide) rfl (by decide)
    have hstart : (start ((Machine.new { historyCapacity := 4 } fun _ => 0).load
        (.timed 5 0xFF 0xFF)).2).RunsIn (State.boot (.timed 5 0xFF 0xFF)) 10 :=
      runsIn_start (Machine.runsIn_load rfl (by decide) _)
    obtain ⟨hok, hfault, htext⟩ := shows_timed_stuck hstart
    obtain ⟨entries, hshows, _, h⟩ := hfirst 2 (by decide) hok _ hfault
    rw [h, htext entries hshows]

end Command
end Chip8
