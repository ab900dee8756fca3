import Chip8.Proofs.Sprite
import Chip8.Proofs.Subroutine

/-!
# Drawing steps

The sprite of a drawing instruction has fewer than sixteen rows, so no cell is hit twice, and drawing
comes to one sentence: a cell is turned over if and only if a set bit of the sprite falls on it
(`Screen.get_draw_of_short`).  The flag tells whether one of them was on.

Coordinates are read before the flag is written, so the flag register may be one of them.  A second
drawing at once is a case of the first, where the screen before it is the one that the first has left
(`Draws.back`).
-/

namespace Chip8

/-! ## Short sprites -/

namespace Screen

variable {x y : Nat} {rows : List UInt8}

/-- No cell is hit twice by a sprite that is no taller than the screen, so hits turn cells over. -/
theorem get_draw_of_short (s : Screen) (hrows : rows.length ≤ 32) (c : Cell) :
    (s.draw x y rows).screen.get c ≠ s.get c ↔
      ∃ p : Sprite.Pixel rows, p.IsSet ∧ p.FallsOn x y c := by
  have hodd : 1 ≤ Sprite.hits x y rows c ↔ Sprite.hits x y rows c % 2 = 1 := by
    have hone := Sprite.hits_le_one x y hrows c
    omega
  rw [← Sprite.hits_pos_iff, hodd, get_draw]
  cases s.get c <;> simp

/-- Some cell goes off if and only if one that is hit was on. -/
theorem erased_draw_of_short (s : Screen) (hrows : rows.length ≤ 32) :
    (s.draw x y rows).erased = true ↔
      ∃ c, (∃ p : Sprite.Pixel rows, p.IsSet ∧ p.FallsOn x y c) ∧ s.get c = true := by
  rw [erased_draw]
  refine exists_congr fun c => ?_
  rw [← Sprite.hits_pos_iff]
  have hone := Sprite.hits_le_one x y hrows c
  constructor
  · rintro (hon | htwice)
    · exact hon
    · omega
  · exact .inl

end Screen

namespace State

/-! ## What a drawing instruction reads and writes -/

/-- The sprite of some rows at the index, around the end of memory. -/
def sprite (s : State) (rows : Nat) : List UInt8 :=
  (List.range rows).map fun r => s.memory.bytes[(s.index.toNat + r) % 4096]

@[simp] theorem length_sprite (s : State) (rows : Nat) : (s.sprite rows).length = rows := by
  simp [sprite]

theorem slice_index (s : State) (rows : Nat) :
    s.memory.slice s.index.toNat rows = s.sprite rows := rfl

/-- A set bit of the sprite at the index falls on a cell, if the sprite starts at the coordinates that
`Vx` and `Vy` hold. -/
def SpriteHits (s : State) (x y : Reg) (rows : Nat) (c : Cell) : Prop :=
  ∃ p : Sprite.Pixel (s.sprite rows), p.IsSet ∧ p.FallsOn (s.reg x).toNat (s.reg y).toNat c

/-- The flag register tells whether something holds. -/
structure Flags (s : State) (p : Prop) : Prop where
  one : p → s.reg Reg.flag = 1
  zero : ¬ p → s.reg Reg.flag = 0

theorem flags_setFlag {s : State} {flag : Bool} {p : Prop} (h : flag = true ↔ p) :
    (s.setFlag flag).Flags p := by
  have hreg : (s.setFlag flag).reg Reg.flag = if flag then 1 else 0 := by
    rw [setFlag, reg_setReg, if_pos rfl]
  refine ⟨fun hp => ?_, fun hp => ?_⟩
  · rw [hreg, if_pos (h.mpr hp)]
  · rw [hreg, if_neg fun hflag => hp (h.mp hflag)]

/-- The state `t` is left by an instruction that draws, in the state `s`, a sprite of some rows at the
coordinates that `Vx` and `Vy` hold. -/
structure Draws (s : State) (x y : Reg) (rows : Nat) (t : State) : Prop where
  toggled_iff : ∀ c, t.screen.get c ≠ s.screen.get c ↔ s.SpriteHits x y rows c
  flags : t.Flags (∃ c, t.screen.get c ≠ s.screen.get c ∧ s.screen.get c = true)
  reg_eq : ∀ k, k ≠ Reg.flag → t.reg k = s.reg k
  rest_eq : t = { s with pc := s.pc + 2, regs := t.regs, screen := t.screen }

theorem draws_drawSprite (s : State) (x y : Reg) {rows : Nat} (hrows : rows ≤ 32) :
    s.Draws x y rows (s.advance.drawSprite x y rows) := by
  have hshort : (s.sprite rows).length ≤ 32 := by
    rw [length_sprite]
    exact hrows
  have htoggled (c : Cell) : (s.advance.drawSprite x y rows).screen.get c ≠ s.screen.get c ↔
      s.SpriteHits x y rows c := s.screen.get_draw_of_short hshort c
  refine ⟨htoggled, ?_, ?_, rfl⟩
  · simp only [htoggled]
    exact flags_setFlag (s.screen.erased_draw_of_short hshort)
  · intro k hk
    exact (reg_setReg _ Reg.flag k _).trans (if_neg hk.symm)

/-- Drawing a second time restores the screen, and the flag then tells of the cells that were off at
first.  The state in between may differ in its program counter. -/
theorem Draws.back {s t u : State} {x y : Reg} {rows : Nat} (hx : x ≠ Reg.flag) (hy : y ≠ Reg.flag)
    (hfirst : s.Draws x y rows t) (hsecond : { t with pc := s.pc }.Draws x y rows u) :
    u.screen = s.screen ∧ u.Flags (∃ c, s.SpriteHits x y rows c ∧ s.screen.get c = false) := by
  have hmemory : t.memory = s.memory := by rw [hfirst.rest_eq]
  have hindex : t.index = s.index := by rw [hfirst.rest_eq]
  have hsprite : { t with pc := s.pc }.sprite rows = s.sprite rows := by
    simp only [sprite, hmemory, hindex]
  -- The coordinates and the sprite are those of the first time, so the same cells are hit.
  have hhits (c : Cell) :
      { t with pc := s.pc }.SpriteHits x y rows c ↔ s.SpriteHits x y rows c := by
    have hcolumn : { t with pc := s.pc }.reg x = s.reg x := hfirst.reg_eq x hx
    have hline : { t with pc := s.pc }.reg y = s.reg y := hfirst.reg_eq y hy
    rw [SpriteHits, SpriteHits, hsprite, hcolumn, hline]
  have hagain (c : Cell) :
      u.screen.get c ≠ t.screen.get c ↔ t.screen.get c ≠ s.screen.get c :=
    (hsecond.toggled_iff c).trans ((hhits c).trans (hfirst.toggled_iff c).symm)
  refine ⟨?_, ?_⟩
  · apply Screen.ext_get
    intro c
    have hc := hagain c
    revert hc
    cases u.screen.get c <;> cases t.screen.get c <;> cases s.screen.get c <;> simp
  · -- A cell that is turned over twice is on in between if and only if it was off at first.
    have hon : (∃ c, u.screen.get c ≠ t.screen.get c ∧ t.screen.get c = true) ↔
        ∃ c, s.SpriteHits x y rows c ∧ s.screen.get c = false := by
      refine exists_congr fun c => ?_
      rw [hagain, hfirst.toggled_iff c]
      refine and_congr_right fun hc => ?_
      have hflip := (hfirst.toggled_iff c).mpr hc
      revert hflip
      cases t.screen.get c <;> cases s.screen.get c <;> simp
    exact ⟨fun h => hsecond.flags.one (hon.mpr h), fun h => hsecond.flags.zero fun h' => h (hon.mp h')⟩

end State

/-! ## Steps -/

namespace Machine

variable {m : Machine} {x y : Reg} {rows : Nibble}

theorem Executes.step_of_draw (h : m.Executes (.draw x y rows)) :
    m.step = (.ok .draw,
      m.commit (m.core.retire (m.state.advance.drawSprite x y rows) .draw)) := by
  have hcore : m.core.step =
      .ok (m.core.retire (m.state.advance.drawSprite x y rows) .draw) := by
    rw [h.core_step]
    rfl
  exact step_of_retired h.1 hcore

/-- A drawing step succeeds, and this is what it does.

A cell is turned over if and only if a set bit of the sprite falls on it; the sprite is read from the
index on, and starts at the coordinates that the two registers held before the step.  The flag tells
whether one of the cells that were turned over was on.  Apart from that only the program counter
changes.

If neither coordinate is in the flag register, the same instruction at once again is a drawing step
too, which restores the screen; its flag tells whether one of the cells was off at first. -/
theorem draw_step_exact (h : m.Executes (.draw x y rows)) :
    let t := m.step.2.state
    m.step.1 = .ok .draw ∧
      (∀ c, t.screen.get c ≠ m.state.screen.get c ↔ m.state.SpriteHits x y rows c) ∧
      t.Flags (∃ c, t.screen.get c ≠ m.state.screen.get c ∧ m.state.screen.get c = true) ∧
      (∀ k, k ≠ Reg.flag → t.reg k = m.state.reg k) ∧
      t = { m.state with pc := m.state.pc + 2, regs := t.regs, screen := t.screen } ∧
      (x ≠ Reg.flag → y ≠ Reg.flag →
        let n := m.step.2.withState { t with pc := m.state.pc }
        n.Executes (.draw x y rows) ∧ n.step.1 = .ok .draw ∧
          n.step.2.state.screen = m.state.screen ∧
          n.step.2.state.Flags
            (∃ c, m.state.SpriteHits x y rows c ∧ m.state.screen.get c = false)) := by
  intro t
  have hrows : rows.val ≤ 32 := by omega
  have hstep := h.step_of_draw
  have hdraws : m.state.Draws x y rows t := by
    have hafter : t = m.state.advance.drawSprite x y rows := by
      simp only [t, hstep]
      rfl
    rw [hafter]
    exact m.state.draws_drawSprite x y hrows
  refine ⟨by rw [hstep], hdraws.toggled_iff, hdraws.flags, hdraws.reg_eq, hdraws.rest_eq, ?_⟩
  intro hx hy n
  -- The instruction stands where it stood, since drawing leaves memory alone.
  have hagain : n.Executes (.draw x y rows) := by
    refine ⟨?_, ?_, ?_⟩
    · show m.step.2.halted = false
      rw [hstep]
      exact h.1
    · exact (congrArg State.keyWait hdraws.rest_eq).trans h.2.1
    · have hfetch : n.state.fetch = m.state.fetch :=
        congrArg (fun s => s.memory.word m.state.pc.toNat) hdraws.rest_eq
      rw [hfetch]
      exact h.2.2
  have hback := hdraws.back hx hy (n.state.draws_drawSprite x y hrows)
  rw [hagain.step_of_draw]
  exact ⟨hagain, rfl, hback.1, hback.2⟩

/-- The glyph of zero on a blank screen, where the flag register holds the column: no cell was on, so
the flag is zero, and a corner of the glyph is on. -/
theorem draw_step_exact_of_glyph :
    let m := (new {} fun _ => 0).act (.load (.ok #[0xDF, 0x05]))
    m.Executes (.draw 15 0 5) ∧ m.step.1 = .ok .draw ∧ m.step.2.state.reg Reg.flag = 0 ∧
      m.step.2.state.screen.get (Cell.wrap 3 4) = true := by
  have hdrawn (m : Machine) (hm : m.StandsAt #[0xDF, 0x05] 0x200 CallStack.empty) :
      m.Executes (.draw 15 0 5) ∧ m.step.1 = .ok .draw ∧ m.step.2.state.reg Reg.flag = 0 ∧
        m.step.2.state.screen.get (Cell.wrap 3 4) = true := by
    have hcode : (Memory.boot #[0xDF, 0x05]).word 0x200 = 0xDF05 := by
      apply UInt16.toNat.inj
      rw [Memory.toNat_word]
      simp [Memory.read_boot, Memory.bootByte, Memory.programStart]
    have hexec : m.Executes (.draw 15 0 5) := hm.executes hcode rfl
    have hblank (c : Cell) : m.state.screen.get c = false := by
      rw [hm.state]
      exact Screen.get_blank c
    rcases draw_step_exact hexec with ⟨hflow, htoggled, hflags, _⟩
    refine ⟨hexec, hflow, ?_, ?_⟩
    · apply hflags.zero
      rintro ⟨c, _, hon⟩
      rw [hblank] at hon
      cases hon
    · -- The last row of the glyph has its fourth pixel set.
      have hhit : m.state.SpriteHits 15 0 5 (Cell.wrap 3 4) := by
        have hsprite : m.state.sprite 5 = [0xF0, 0x90, 0x90, 0x90, 0xF0] := by
          rw [← State.slice_index, hm.state]
          simp [Memory.slice, State.boot, Memory.read_boot, Memory.bootByte, Memory.font,
            List.range, List.range.loop]
        have hzero (k : Reg) : m.state.reg k = 0 := by
          rw [hm.state]
          simp [State.reg, State.boot]
        rw [State.SpriteHits, hsprite, hzero, hzero]
        exact ⟨(4, 3), by decide, by decide⟩
      have hchanged := (htoggled _).mpr hhit
      rw [hblank] at hchanged
      exact Bool.eq_true_of_not_eq_false hchanged
  exact hdrawn _ ⟨rfl, rfl⟩

end Machine
end Chip8
