import Mathlib.Algebra.BigOperators.Fin
import Mathlib.Data.Finset.Card
import Chip8.Screen

/-!
# Sprites on the torus

Drawing goes pixel by pixel and tests the screen that it changes, and a tall sprite wraps onto
itself.  Still the outcome can be told from the screen before and from the number of set pixels that
fall on each cell (`Sprite.hits`): a cell ends turned over if this number is odd, and some cell went
off if it was on and is hit, or is hit twice (`Screen.draw_by_hits`).

The link is the list of the cells that drawing goes through: it holds each cell as often as the
sprite hits it (`Sprite.count_cells`).
-/

namespace Chip8

/-! ## Pixels -/

namespace Sprite

/-- A pixel of a sprite: its row, and its place in the row from the left. -/
abbrev Pixel (rows : List UInt8) := Fin rows.length × Fin 8

namespace Pixel

variable {rows : List UInt8}

/-- Whether a pixel is set: a row is a byte, and pixel `j` of it is the bit of `2 ^ (7 - j)`. -/
def IsSet (p : Pixel rows) : Prop := rows[p.1].toNat / 2 ^ (7 - p.2.val) % 2 = 1

instance (p : Pixel rows) : Decidable p.IsSet := inferInstanceAs (Decidable (_ = 1))

/-- The pixel falls on the cell if the upper left corner of the sprite is at `x` and `y`.  Columns are
counted modulo 64 and rows modulo 32. -/
def FallsOn (x y : Nat) (p : Pixel rows) (c : Cell) : Prop :=
  c.val % 64 = (x + p.2.val) % 64 ∧ c.val / 64 = (y + p.1.val) % 32

instance (x y : Nat) (p : Pixel rows) (c : Cell) : Decidable (p.FallsOn x y c) :=
  inferInstanceAs (Decidable (_ ∧ _))

theorem isSet_iff {p : Pixel rows} : p.IsSet ↔ pixel rows[p.1] p.2 = true := by
  rw [IsSet, pixel, Nat.testBit_eq_decide_div_mod_eq, decide_eq_true_iff]

theorem fallsOn_iff {x y : Nat} {p : Pixel rows} {c : Cell} :
    p.FallsOn x y c ↔ Cell.wrap (x + p.2) (y + p.1) = c := by
  constructor
  · rintro ⟨hcolumn, hrow⟩
    apply Fin.ext
    show (y + p.1.val) % 32 * 64 + (x + p.2.val) % 64 = c.val
    omega
  · rintro rfl
    exact ⟨Cell.column_wrap _ _, Cell.row_wrap _ _⟩

/-- No two pixels of a sprite that is no taller than the screen fall on one cell. -/
theorem eq_of_fallsOn {x y : Nat} {p q : Pixel rows} {c : Cell} (hrows : rows.length ≤ 32)
    (hp : p.FallsOn x y c) (hq : q.FallsOn x y c) : p = q := by
  rcases p with ⟨r, j⟩
  rcases q with ⟨r', j'⟩
  have hcolumn : (x + j.val) % 64 = (x + j'.val) % 64 := hp.1.symm.trans hq.1
  have hrow : (y + r.val) % 32 = (y + r'.val) % 32 := hp.2.symm.trans hq.2
  have hr := r.isLt
  have hr' := r'.isLt
  -- Eight columns are less than a line, and the rows are no more than there are lines.
  have hj : j = j' := Fin.ext (by omega)
  have hrr : r = r' := Fin.ext (by omega)
  rw [hj, hrr]

end Pixel

/-- The number of set pixels that fall on a cell. -/
def hits (x y : Nat) (rows : List UInt8) (c : Cell) : Nat :=
  (Finset.univ.filter fun p : Pixel rows => p.IsSet ∧ p.FallsOn x y c).card

/-- Counting set pixels row by row. -/
theorem hits_eq_sum (x y : Nat) (rows : List UInt8) (c : Cell) :
    hits x y rows c =
      ∑ r : Fin rows.length, ∑ j : Fin 8,
        if pixel rows[r] j = true ∧ Cell.wrap (x + j) (y + r) = c then 1 else 0 := by
  rw [hits, Finset.card_filter, Fintype.sum_prod_type]
  refine Finset.sum_congr rfl fun r _ => Finset.sum_congr rfl fun j _ => ?_
  exact if_congr (and_congr Pixel.isSet_iff Pixel.fallsOn_iff) rfl rfl

theorem count_rowCells (x y : Nat) (row : UInt8) (c : Cell) :
    (rowCells x y row).count c =
      ∑ j : Fin 8, if pixel row j = true ∧ Cell.wrap (x + j) y = c then 1 else 0 := by
  have hcount (n : Nat) (f : Nat → Cell) :
      (((List.range n).filter (pixel row)).map f).count c =
        ∑ j : Fin n, if pixel row j = true ∧ f j = c then 1 else 0 := by
    induction n with
    | zero => rfl
    | succ n ih =>
      rw [List.range_succ, List.filter_append, List.map_append, List.count_append, ih,
        Fin.sum_univ_castSucc]
      congr 1
      by_cases hpixel : pixel row n = true <;> simp [hpixel, List.count_singleton]
  exact hcount 8 fun j => Cell.wrap (x + j) y

/-- Drawing goes through a cell as often as the sprite hits it. -/
theorem count_cells (x y : Nat) (rows : List UInt8) (c : Cell) :
    (cells x y rows).count c = hits x y rows c := by
  induction rows generalizing y with
  | nil => rfl
  | cons row rows ih =>
    rw [cells, List.count_append, count_rowCells, ih, hits_eq_sum, hits_eq_sum]
    refine Eq.trans ?_ (Fin.sum_univ_succ (n := rows.length) _).symm
    congr 1
    -- Seen from the first row, each further row lies one line lower.
    refine Finset.sum_congr rfl fun r _ => Finset.sum_congr rfl fun j _ => ?_
    have hline : y + 1 + r.val = y + r.succ.val := by
      rw [Fin.val_succ]
      omega
    rw [hline]
    rfl

theorem hits_pos_iff {x y : Nat} {rows : List UInt8} {c : Cell} :
    1 ≤ hits x y rows c ↔ ∃ p : Pixel rows, p.IsSet ∧ p.FallsOn x y c := by
  rw [hits, Nat.one_le_iff_ne_zero, Finset.card_ne_zero]
  simp [Finset.Nonempty]

/-- A sprite that is no taller than the screen hits no cell twice. -/
theorem hits_le_one (x y : Nat) {rows : List UInt8} (hrows : rows.length ≤ 32) (c : Cell) :
    hits x y rows c ≤ 1 := by
  rw [hits, Finset.card_le_one]
  intro p hp q hq
  exact Pixel.eq_of_fallsOn hrows (Finset.mem_filter.mp hp).2.2 (Finset.mem_filter.mp hq).2.2

end Sprite

/-! ## Turning cells over -/

namespace Screen

/-- Turning over the listed cells turns over those that the list holds an odd number of times. -/
theorem get_flipAll (d : Drawn) (cells : List Cell) (c : Cell) :
    (flipAll d cells).screen.get c = (d.screen.get c ^^ decide (cells.count c % 2 = 1)) := by
  induction cells generalizing d with
  | nil => simp [flipAll]
  | cons first cells ih =>
    rw [flipAll, ih, get_flip, List.count_cons]
    by_cases hfirst : first = c
    · subst hfirst
      have hparity : decide ((cells.count first + 1) % 2 = 1) =
          !decide (cells.count first % 2 = 1) := by
        rw [← decide_not]
        congr 1
        apply propext
        omega
      simp [hparity]
    · simp [hfirst]

/-- Some cell goes off if and only if a listed cell was on or is listed again. -/
theorem erased_flipAll (d : Drawn) (cells : List Cell) :
    (flipAll d cells).erased = true ↔
      d.erased = true ∨
        ∃ c, (1 ≤ cells.count c ∧ d.screen.get c = true) ∨ 2 ≤ cells.count c := by
  induction cells generalizing d with
  | nil => simp [flipAll]
  | cons first cells ih =>
    rw [flipAll, ih, Bool.or_eq_true, or_assoc]
    -- The flag so far is one disjunct on both sides; the rest is about the cells.
    apply or_congr Iff.rfl
    have hcount (c : Cell) : (first :: cells).count c =
        cells.count c + if first = c then 1 else 0 := by
      rw [List.count_cons]
      simp
    constructor
    · rintro (hon | ⟨c, hc⟩)
      · refine ⟨first, .inl ⟨?_, hon⟩⟩
        rw [hcount, if_pos rfl]
        omega
      · by_cases hfirst : first = c
        · -- After its first turn the cell is on only if it was off, and then it turns once more.
          subst hfirst
          refine ⟨first, ?_⟩
          rw [hcount, if_pos rfl]
          rcases hc with ⟨hlisted, _⟩ | hagain
          · exact .inr (by omega)
          · exact .inr (by omega)
        · refine ⟨c, ?_⟩
          rw [hcount, if_neg hfirst, Nat.add_zero]
          simpa only [get_flip, if_neg hfirst] using hc
    · rintro ⟨c, hc⟩
      by_cases hfirst : first = c
      · subst hfirst
        rw [hcount, if_pos rfl] at hc
        cases hon : d.screen.get first with
        | true => exact .inl rfl
        | false =>
          have hagain : 1 ≤ cells.count first := by
            rcases hc with ⟨_, h⟩ | h
            · rw [hon] at h
              cases h
            · omega
          refine .inr ⟨first, .inl ⟨hagain, ?_⟩⟩
          rw [get_flip, if_pos rfl, hon]
          rfl
      · rw [hcount, if_neg hfirst, Nat.add_zero] at hc
        refine .inr ⟨c, ?_⟩
        simpa only [get_flip, if_neg hfirst] using hc

/-! ## Drawing -/

theorem get_draw (s : Screen) (x y : Nat) (rows : List UInt8) (c : Cell) :
    (s.draw x y rows).screen.get c =
      (s.get c ^^ decide (Sprite.hits x y rows c % 2 = 1)) := by
  rw [draw, get_flipAll, Sprite.count_cells]

theorem erased_draw (s : Screen) (x y : Nat) (rows : List UInt8) :
    (s.draw x y rows).erased = true ↔
      ∃ c, (1 ≤ Sprite.hits x y rows c ∧ s.get c = true) ∨ 2 ≤ Sprite.hits x y rows c := by
  rw [draw, erased_flipAll]
  simp only [Sprite.count_cells, Bool.false_eq_true, false_or]

/-- Drawing is decided by the number of set pixels that fall on each cell.

A cell ends turned over if the number is odd.  Some cell went off if and only if one was on and is
hit, or is hit twice.  So a sprite drawn twice leaves the screen as it was, and of two sprites either
may be drawn first.  The sprite may have any number of rows, and it may start anywhere. -/
theorem draw_by_hits (s : Screen) (x y : Nat) (rows : List UInt8) :
    (∀ c, (s.draw x y rows).screen.get c =
        (s.get c ^^ decide (Sprite.hits x y rows c % 2 = 1))) ∧
      ((s.draw x y rows).erased = true ↔
        ∃ c, (1 ≤ Sprite.hits x y rows c ∧ s.get c = true) ∨ 2 ≤ Sprite.hits x y rows c) ∧
      ((s.draw x y rows).screen.draw x y rows).screen = s ∧
      ∀ x' y' rows',
        ((s.draw x y rows).screen.draw x' y' rows').screen =
          ((s.draw x' y' rows').screen.draw x y rows).screen := by
  refine ⟨get_draw s x y rows, erased_draw s x y rows, ?_, ?_⟩
  · apply ext_get
    intro c
    rw [get_draw, get_draw, Bool.xor_assoc, Bool.xor_self, Bool.xor_false]
  · intro x' y' rows'
    apply ext_get
    intro c
    rw [get_draw, get_draw, get_draw, get_draw, Bool.xor_assoc, Bool.xor_assoc,
      Bool.xor_comm (decide _)]

/-- Two equal rows, one screen apart, cancel each other, and yet a cell goes off. -/
example : Sprite.hits 3 5 (0x80 :: (List.replicate 31 0 ++ [0x80])) (Cell.wrap 3 5) = 2 := by
  decide

end Screen
end Chip8
