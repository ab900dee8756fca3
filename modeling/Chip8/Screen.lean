/-!
# Screen — sprites on a torus

The screen has 64 columns and 32 rows of cells that are on or off.  Coordinates wrap around both
edges, so every pair of numbers names a cell.  A sprite is a list of rows of eight pixels; drawing
it turns over the cells of its set pixels, one after the other, and tells whether a cell went off.

The cells that a sprite touches are a list (`Sprite.cells`), and drawing is a fold over that list:
what a sprite does to the screen depends on how often each cell occurs in the list, and on nothing
else.
-/

namespace Chip8

/-- The position of a cell, counted row by row from the upper left. -/
abbrev Cell := Fin 2048

namespace Cell

/-- The cell in column `x` and row `y`, both wrapped to the screen. -/
def wrap (x y : Nat) : Cell :=
  ⟨y % 32 * 64 + x % 64, by omega⟩

/-- The column of a cell. -/
def column (c : Cell) : Nat := c.val % 64

/-- The row of a cell. -/
def row (c : Cell) : Nat := c.val / 64

theorem wrap_column_row (c : Cell) : Cell.wrap c.column c.row = c := by
  apply Fin.ext
  simp only [Cell.wrap, column, row]
  omega

@[simp] theorem column_wrap (x y : Nat) : (Cell.wrap x y).column = x % 64 := by
  simp only [Cell.wrap, column]
  omega

@[simp] theorem row_wrap (x y : Nat) : (Cell.wrap x y).row = y % 32 := by
  simp only [Cell.wrap, row]
  omega

end Cell

namespace Sprite

/-- Pixel `j` of a row, counted from the most significant bit. -/
def pixel (row : UInt8) (j : Nat) : Bool :=
  row.toNat.testBit (7 - j)

/-- The cells touched by one row that starts in column `x` of row `y`, from left to right. -/
def rowCells (x y : Nat) (row : UInt8) : List Cell :=
  ((List.range 8).filter (pixel row)).map fun j => Cell.wrap (x + j) y

/-- The cells touched by a sprite whose upper left corner is at `x` and `y`, in drawing order. -/
def cells (x : Nat) : (y : Nat) → (rows : List UInt8) → List Cell
  | _, [] => []
  | y, row :: rows => rowCells x y row ++ cells x (y + 1) rows

end Sprite

/-- The cells of the display, on or off. -/
structure Screen where
  lit : Vector Bool 2048
  deriving DecidableEq

namespace Screen

/-- Every cell is off. -/
def blank : Screen := ⟨Vector.replicate 2048 false⟩

/-- Whether a cell is on. -/
def get (s : Screen) (c : Cell) : Bool := s.lit[c]

/-- Turn one cell over. -/
def flip (s : Screen) (c : Cell) : Screen := ⟨s.lit.set c (!s.lit[c])⟩

/-- The number of cells that are on. -/
def litCount (s : Screen) : Nat := s.lit.count true

@[simp] theorem get_blank (c : Cell) : blank.get c = false := by
  simp [blank, get]

theorem get_flip (s : Screen) (c d : Cell) :
    (s.flip c).get d = if c = d then !s.get c else s.get d := by
  simp only [flip, get, Fin.getElem_fin, Vector.getElem_set, Fin.ext_iff]

/-- Two screens with the same cells are the same screen. -/
theorem ext_get {s t : Screen} (h : ∀ c, s.get c = t.get c) : s = t := by
  cases s; cases t
  simp only [mk.injEq]
  apply Vector.ext
  intro i hi
  exact h ⟨i, hi⟩

/-- A screen, and whether drawing has turned a cell off so far. -/
structure Drawn where
  screen : Screen
  erased : Bool
  deriving DecidableEq

/-- Turn the listed cells over in order.  A cell that occurs twice is turned over twice, and its
second turn can erase what its first has drawn. -/
def flipAll (d : Drawn) : List Cell → Drawn
  | [] => d
  | c :: cells => flipAll ⟨d.screen.flip c, d.erased || d.screen.get c⟩ cells

/-- Draw a sprite with its upper left corner at `x` and `y`. -/
def draw (s : Screen) (x y : Nat) (rows : List UInt8) : Drawn :=
  flipAll ⟨s, false⟩ (Sprite.cells x y rows)

end Screen
end Chip8
