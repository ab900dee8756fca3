import Chip8.Proofs.Memory
import Chip8.Proofs.Session.Twins

/-!
# Loading — a program that starts finds no trace of the past

A program that is loaded finds the state of a machine that was just switched on, with its own bytes
in memory.  `State.Fresh` says so component by component, and there is but one such state
(`State.Fresh.unique`).

Loading also clears the history and the halt.  All that is left of the past is the world outside:
the random numbers, the keypad, and what devices and observers have received.  So two machines in
the same world are twins once they have loaded the same program (`Machine.SameWorld.twin_load`), and
no session tells twins apart.
-/

namespace Chip8

namespace State

/-- The state of a program that has not started yet.  Memory holds the glyphs and the program, the
program counter is at its first byte, and all else is zero, the unused cells of the stack
included. -/
structure Fresh (s : State) (program : Program) : Prop where
  pc : s.pc = 0x200
  depth : s.stack.depth = 0
  cells : ∀ i (h : i < 12), s.stack.cells[i] = 0
  regs : ∀ x, s.reg x = 0
  index : s.index = 0
  delay : s.delay = 0
  sound : s.sound = 0
  keyWait : s.keyWait = none
  screen : ∀ c, s.screen.get c = false
  glyphs : ∀ i (h : i < 80), s.memory.read i = Memory.font[i]
  bytes : ∀ i (h : i < program.size), s.memory.read (0x200 + i) = program[i]
  rest : ∀ address < 4096, 80 ≤ address → (address < 0x200 ∨ 0x200 + program.size ≤ address) →
    s.memory.read address = 0

namespace Fresh

variable {s t : State} {program : Program}

/-- Nothing in the memory of a fresh state is left open. -/
theorem memory_eq (hs : s.Fresh program) (ht : t.Fresh program) : s.memory = t.memory := by
  apply Memory.ext_read
  intro address haddress
  -- The glyphs, the program, and what is neither cover all of memory.
  by_cases hglyph : address < 80
  · rw [hs.glyphs address hglyph, ht.glyphs address hglyph]
  · by_cases hinside : 0x200 ≤ address ∧ address < 0x200 + program.size
    · obtain ⟨i, rfl⟩ := Nat.exists_eq_add_of_le hinside.1
      have hi : i < program.size := by omega
      rw [hs.bytes i hi, ht.bytes i hi]
    · have houtside : address < 0x200 ∨ 0x200 + program.size ≤ address := by omega
      have hbehind : 80 ≤ address := by omega
      rw [hs.rest address haddress hbehind houtside, ht.rest address haddress hbehind houtside]

theorem stack_eq (hs : s.Fresh program) : s.stack = CallStack.empty := by
  have hcells : s.stack.cells = Vector.replicate 12 0 := by
    apply Vector.ext
    intro i hi
    rw [hs.cells i hi, Vector.getElem_replicate]
  calc s.stack = ⟨s.stack.cells, s.stack.depth⟩ := rfl
    _ = CallStack.empty := by rw [hcells, hs.depth, CallStack.empty]

theorem regs_eq (hs : s.Fresh program) : s.regs = Vector.replicate 16 0 := by
  apply Vector.ext
  intro i hi
  rw [Vector.getElem_replicate]
  exact hs.regs ⟨i, hi⟩

/-- There is but one fresh state for a program. -/
theorem unique (hs : s.Fresh program) (ht : t.Fresh program) : s = t := by
  have hmemory := hs.memory_eq ht
  have hstack : s.stack = t.stack := by rw [hs.stack_eq, ht.stack_eq]
  have hregs : s.regs = t.regs := by rw [hs.regs_eq, ht.regs_eq]
  have hscreen : s.screen = t.screen := by
    apply Screen.ext_get
    intro c
    rw [hs.screen, ht.screen]
  have hpc : s.pc = t.pc := hs.pc.trans ht.pc.symm
  have hindex : s.index = t.index := hs.index.trans ht.index.symm
  have hdelay : s.delay = t.delay := hs.delay.trans ht.delay.symm
  have hsound : s.sound = t.sound := hs.sound.trans ht.sound.symm
  have hwait : s.keyWait = t.keyWait := hs.keyWait.trans ht.keyWait.symm
  -- That is every field of the record.
  rcases s
  rcases t
  simp_all

end Fresh

theorem fresh_boot {program : Program} (hfits : program.size ≤ Memory.programCapacity) :
    (boot program).Fresh program where
  pc := rfl
  depth := rfl
  cells i hi := Vector.getElem_replicate hi
  regs x := Vector.getElem_replicate x.isLt
  index := rfl
  delay := rfl
  sound := rfl
  keyWait := rfl
  screen c := Screen.get_blank c
  glyphs i hi := by
    have hsmall : i < 4096 := by omega
    rw [boot, Memory.read_boot, Nat.mod_eq_of_lt hsmall, Memory.bootByte, dif_pos hi]
  bytes i hi := by
    have hshort : program.size ≤ 3584 := hfits
    have hsmall : 0x200 + i < 4096 := by omega
    have hbehind : ¬ 0x200 + i < 80 := by omega
    rw [boot, Memory.read_boot, Nat.mod_eq_of_lt hsmall, Memory.bootByte, dif_neg hbehind]
    simp [Memory.programStart, hi]
  rest address haddress hbehind houtside := by
    rw [boot, Memory.read_boot, Nat.mod_eq_of_lt haddress, Memory.bootByte,
      dif_neg (Nat.not_lt.mpr hbehind)]
    -- In front of the program nothing was written, and behind it the program has no byte.
    rcases houtside with hbefore | hafter
    · exact if_neg (Nat.not_le.mpr hbefore)
    · have hinside : 0x200 ≤ address := by omega
      have hnone : program.size ≤ address - 0x200 := by omega
      simp [Memory.programStart, hinside, hnone]

theorem fresh_iff {s : State} {program : Program} (hfits : program.size ≤ Memory.programCapacity) :
    s.Fresh program ↔ s = boot program := by
  constructor
  · intro hs
    exact hs.unique (fresh_boot hfits)
  · rintro rfl
    exact fresh_boot hfits

end State

namespace Machine

/-- The machines get the same random numbers, keys and clock, and remember as many steps. -/
structure SameWorld (m n : Machine) : Prop where
  random : m.core.random = n.core.random
  keypad : m.keypad = n.keypad
  clock : m.clock = n.clock
  capacity : m.history.capacity = n.history.capacity

variable {m n : Machine} {program : Program}

theorem load_of_fits (m : Machine) (hfits : program.size ≤ Memory.programCapacity) :
    m.load program = (.ok (), { m with
      core := { m.core with state := State.boot program }
      history := History.empty m.history.capacity
      halted := false }) := by
  simp only [load, hfits, if_true]
  rfl

/-- Loading the same program makes twins of machines with different pasts. -/
theorem SameWorld.twin_load (h : m.SameWorld n) (hfits : program.size ≤ Memory.programCapacity) :
    (m.load program).2.Twin (n.load program).2 := by
  rw [load_of_fits m hfits, load_of_fits n hfits]
  -- Only random numbers and keys are left of the old cores.
  refine ⟨⟨?_, h.clock, rfl⟩, congrArg History.empty h.capacity⟩
  have hkeypad : m.core.keypad = n.core.keypad := h.keypad
  simp only [h.random, hkeypad]

/-- Loading forgets the past completely, or it changes nothing of it.

A program that fits finds the state of a machine that was just switched on, whatever its settings,
with its own bytes behind the glyphs: the one state that is fresh for it.  The history is empty and
the halt is over.  Random numbers, keypad, recording, clock and observers are as they were.  From
then on the machine cannot be told from any other machine in the same world that has loaded the same
program: every session gets the same answers and outputs, comes to the same actions and passes
through the same states.

A program that does not fit halts the machine and is reported, and a file that could not be read
changes nothing at all. -/
theorem load_forgets_past (m : Machine) (program : Program) :
    (program.size ≤ Memory.programCapacity →
      (∀ settings entropy,
        let fresh := (Machine.new settings entropy).state
        (∀ s : State, s.Fresh #[] ↔ s = fresh) ∧
          m.load program = (.ok (), { m with
            core := { m.core with
              state := { fresh with
                memory := fresh.memory.writeAll Memory.programStart program.toList } }
            history := History.empty m.history.capacity
            halted := false })) ∧
      (∀ s : State, s.Fresh program ↔ s = (m.load program).2.state) ∧
      ∀ n, m.SameWorld n → ∀ countdown ops,
        let s : Stepper := ⟨(m.load program).2, countdown⟩
        let t : Stepper := ⟨(n.load program).2, countdown⟩
        s.SameSession t ops) ∧
    (Memory.programCapacity < program.size →
      let fault := Fault.programTooLarge program.size Memory.programCapacity
      m.load program = (.error fault, { m with
        halted := true
        recording := { m.recording with faults := m.recording.faults.push fault } })) ∧
    ∀ text, m.loadContents (.error text) = (.error (.io text), m) := by
  refine ⟨fun hfits => ⟨?_, ?_, ?_⟩, ?_, fun text => rfl⟩
  · intro settings entropy fresh
    refine ⟨fun s => State.fresh_iff (Nat.zero_le _), ?_⟩
    have hmemory := Memory.boot_eq_writeAll hfits
    rw [load_of_fits m hfits, State.boot, hmemory]
    rfl
  · intro s
    rw [load_of_fits m hfits]
    exact State.fresh_iff hfits
  · intro n hworld countdown ops s t
    have htwin : s.Related Twin t := ⟨hworld.twin_load hfits, rfl⟩
    exact htwin.session ops
  · intro htoo fault
    have hbig : ¬ program.size ≤ Memory.programCapacity := Nat.not_le.mpr htoo
    simp only [load, hbig, if_false]
    rfl

/-- A machine that waits for a key, with the program counter astray, has forgotten both once a
program is loaded: it cannot be told from a new machine. -/
theorem load_forgets_past_of_suspended :
    let n := Machine.new {} fun _ => 0
    let m := n.restore { State.powerOn with pc := 0x300, keyWait := some 3 }
    let program := #[0x12, 0x00]
    let ops := [.forward, .act (.setKey 3 true), .backward, .clockedFrame]
    m.state.keyWait ≠ n.state.keyWait ∧ m.SameWorld n ∧
      (m.load program).2.state.Fresh program ∧
      (Stepper.start (m.load program).2).answers ops =
        (Stepper.start (n.load program).2).answers ops := by
  intro n m program ops
  have hfits : program.size ≤ Memory.programCapacity := by decide
  have hworld : m.SameWorld n := ⟨rfl, rfl, rfl, rfl⟩
  obtain ⟨_, hfresh, hsessions⟩ := (load_forgets_past m program).1 hfits
  refine ⟨Option.some_ne_none 3, hworld, (hfresh _).mpr rfl, ?_⟩
  exact (hsessions n hworld _ ops).answers

end Machine
end Chip8
