import Chip8.Proofs.Bounds.Access

/-!
# Checked drawing

Here the cells of the screen are bytes, as a display buffer has them, and a sprite is drawn pixel by
pixel: the bit of a pixel is shifted out of its row, the cell is found from the wrapped coordinates,
and its byte is combined with one.  All three are checked, and so is the outcome, in that a buffer is
a screen only if each of its bytes is zero or one.

Combining with one turns zero and one into each other, so drawing on the bytes of a screen never
leaves the bytes of screens, and it is the drawing that the screen itself does
(`Screen.drawRows?_buffer`).
-/

namespace Chip8

open Checked

namespace Screen

/-- The cells as bytes. -/
def bytes (s : Screen) : Vector UInt8 2048 := s.lit.map Bool.toUInt8

/-- The screen with these bytes for cells, if each of them is zero or one. -/
def ofBytes? (cells : Vector UInt8 2048) : Option Screen :=
  if ∀ c : Cell, cells.get c = 0 ∨ cells.get c = 1 then some ⟨cells.map (· == 1)⟩ else none

theorem get_bytes (s : Screen) (c : Cell) : s.bytes.get c = (s.get c).toUInt8 := by
  show s.bytes[c.val] = _
  simp [bytes, get]

theorem bytes_binary (s : Screen) (c : Cell) : s.bytes.get c = 0 ∨ s.bytes.get c = 1 := by
  rw [get_bytes]
  cases s.get c with
  | false => exact .inl rfl
  | true => exact .inr rfl

theorem ofBytes?_bytes (s : Screen) : ofBytes? s.bytes = some s := by
  rw [ofBytes?, if_pos s.bytes_binary, Option.some.injEq]
  apply ext_get
  intro c
  have hbyte : s.bytes[c.val] = (s.lit[c.val]).toUInt8 := s.get_bytes c
  simp only [get, Fin.getElem_fin, Vector.getElem_map, hbyte]
  cases s.lit[c.val] <;> rfl

/-- The position in a display buffer of the cell at two coordinates. -/
def position (x y : Nat) : Nat := x % 64 + y % 32 * 64

theorem position_eq (x y : Nat) : position x y = (Cell.wrap x y).val := Nat.add_comm _ _

/-- The byte of the cell at two coordinates, read from the display buffer. -/
def byte? (s : Screen) (x y : Nat) : Option UInt8 := s.bytes[position x y]?

theorem byte?_eq (s : Screen) (x y : Nat) : s.byte? x y = some (s.get (Cell.wrap x y)).toUInt8 := by
  rw [byte?, position_eq, Vector.getElem?_eq_getElem (Cell.wrap x y).isLt]
  exact congrArg some (s.get_bytes (Cell.wrap x y))

/-- A display buffer, and whether drawing has turned a cell off so far. -/
structure Buffer where
  cells : Vector UInt8 2048
  erased : Bool

/-- What was drawn, as bytes. -/
def Drawn.buffer (d : Drawn) : Buffer := ⟨d.screen.bytes, d.erased⟩

namespace Buffer

/-- Combine the byte of a cell with one. -/
def flip? (b : Buffer) (i : Nat) : Option Buffer := do
  let byte ← b.cells[i]?
  let cells ← store b.cells i (byte ^^^ 1)
  return ⟨cells, b.erased || byte == 1⟩

/-- Draw pixel `j` of row `r` of a sprite. -/
def drawPixel? (x y r : Nat) (row : UInt8) (b : Buffer) (j : Nat) : Option Buffer := do
  let shift ← subSize 7 j
  -- The coordinates are added up only where there is something to draw.
  if row.toNat.testBit shift then
    let column ← addSize x j
    let line ← addSize y r
    b.flip? (position column line)
  else
    return b

/-- Draw the rows of a sprite from row `r` on. -/
def drawRows? (x y : Nat) : (r : Nat) → List UInt8 → Buffer → Option Buffer
  | _, [], b => some b
  | r, row :: rows, b => do
    let b ← (List.range 8).foldlM (drawPixel? x y r row) b
    drawRows? x y (r + 1) rows b

end Buffer

/-- The cells of those pixels of a row that are set, among the given ones. -/
def pixelCells (x y : Nat) (row : UInt8) (js : List Nat) : List Cell :=
  (js.filter (Sprite.pixel row)).map fun j => Cell.wrap (x + j) y

theorem pixelCells_cons (x y : Nat) (row : UInt8) (j : Nat) (js : List Nat) :
    pixelCells x y row (j :: js) = pixelCells x y row [j] ++ pixelCells x y row js := by
  rw [pixelCells, pixelCells, pixelCells, ← List.map_append, ← List.filter_append]
  rfl

theorem flipAll_append (d : Drawn) (cells more : List Cell) :
    flipAll d (cells ++ more) = flipAll (flipAll d cells) more := by
  induction cells generalizing d with
  | nil => rfl
  | cons c cells ih => exact ih _

/-- Zero and one change places when they are combined with one. -/
theorem toUInt8_xor_one (lit : Bool) : lit.toUInt8 ^^^ 1 = (!lit).toUInt8 := by
  cases lit <;> rfl

theorem flip?_buffer (d : Drawn) (c : Cell) :
    d.buffer.flip? c.val = some (flipAll d [c]).buffer := by
  have hbyte : d.buffer.cells[c.val]? = some (d.screen.get c).toUInt8 := by
    rw [Vector.getElem?_eq_getElem c.isLt]
    exact congrArg some (d.screen.get_bytes c)
  have hcells : d.screen.bytes.set c.val (!d.screen.get c).toUInt8 = (d.screen.flip c).bytes := by
    simp [bytes, flip, get]
  have herased : ((d.screen.get c).toUInt8 == 1) = d.screen.get c := by
    cases d.screen.get c <;> rfl
  rw [Buffer.flip?, hbyte]
  simp only [Option.bind_eq_bind, Option.bind_some, store_of_lt _ _ c.isLt, toUInt8_xor_one, herased]
  rw [show d.buffer.cells = d.screen.bytes from rfl, hcells]
  rfl

theorem drawPixel?_buffer (d : Drawn) {x y r j : Nat} (row : UInt8) (hx : x < 256)
    (hy : y + r < 0x100000000) (hj : j < 8) :
    d.buffer.drawPixel? x y r row j =
      some (flipAll d (pixelCells x (y + r) row [j])).buffer := by
  rw [Buffer.drawPixel?, subSize_of_le (by omega), addSize_of_small (by omega), addSize_of_small hy]
  cases hset : row.toNat.testBit (7 - j) with
  | false => simp [pixelCells, Sprite.pixel, hset, flipAll]
  | true => simp [pixelCells, Sprite.pixel, hset, position_eq, flip?_buffer]

theorem foldlM_drawPixel? (d : Drawn) {x y r : Nat} (row : UInt8) (hx : x < 256)
    (hy : y + r < 0x100000000) {js : List Nat} (hjs : ∀ j ∈ js, j < 8) :
    js.foldlM (Buffer.drawPixel? x y r row) d.buffer =
      some (flipAll d (pixelCells x (y + r) row js)).buffer := by
  induction js generalizing d with
  | nil => rfl
  | cons j js ih =>
    have hfirst := drawPixel?_buffer d row hx hy (hjs j List.mem_cons_self)
    have hrest := ih (flipAll d (pixelCells x (y + r) row [j])) fun k hk =>
      hjs k (List.mem_cons_of_mem j hk)
    rw [List.foldlM_cons, hfirst, Option.bind_eq_bind, Option.bind_some, hrest,
      ← flipAll_append, ← pixelCells_cons]

/-- Drawing on the bytes of a screen is drawing on the screen. -/
theorem drawRows?_buffer (d : Drawn) {x y : Nat} (r : Nat) (rows : List UInt8) (hx : x < 256)
    (hy : y + r + rows.length < 0x100000000) :
    d.buffer.drawRows? x y r rows = some (flipAll d (Sprite.cells x (y + r) rows)).buffer := by
  induction rows generalizing d r with
  | nil => rfl
  | cons row rows ih =>
    have hline : y + r < 0x100000000 := by omega
    have hrest : y + (r + 1) + rows.length < 0x100000000 := by
      rw [List.length_cons] at hy
      omega
    have height : ∀ j ∈ List.range 8, j < 8 := fun j hj => List.mem_range.mp hj
    have hfirst := foldlM_drawPixel? d row hx hline height
    rw [Buffer.drawRows?, hfirst, Option.bind_eq_bind, Option.bind_some, ih _ _ hrest,
      ← flipAll_append]
    rfl

end Screen
end Chip8
