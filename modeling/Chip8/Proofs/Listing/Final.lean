import Chip8.Command
import Chip8.Proofs.KeyScript
import Chip8.Proofs.Listing.Cutting
import Mathlib.Data.List.OfFn
import Mathlib.Data.List.FinRange

/-!
# The last listing — what the end of a run tells of the machine

At the end of a run the screen is shown as a picture, the registers on two lines, and the keys that
are down on another one.  Lines and words are cut apart without knowing what stands in them, and each
word names what it shows.  So nothing gets lost: from the text, the whole screen, all registers and
timers, the depth of the call stack, the pending key wait and the keypad can be told
(`Machine.finalListing_eq_iff`).  The depth has as many digits as it needs, the key wait and the keys
are shown only if there are any, and none of them can be taken for another.
-/

namespace Chip8

open Listing
open Hex (digits)

/-! ## The picture -/

namespace Screen

variable {s t : Screen}

theorem toList_pictureLine (s : Screen) (y : Nat) :
    (s.pictureLine y).toList =
      (List.range 64).map fun x => if s.get (Cell.wrap x y) then '#' else '.' :=
  String.toList_ofList

/-- The rows of the picture. -/
def rows (s : Screen) : List (List Char) := (List.range 32).map fun y => (s.pictureLine y).toList

theorem length_rows (s : Screen) : s.rows.length = 32 := by
  rw [rows, List.length_map, List.length_range]

theorem length_of_mem_rows {row : List Char} (h : row ∈ s.rows) : row.length = 64 := by
  obtain ⟨y, _, rfl⟩ := List.mem_map.mp h
  rw [toList_pictureLine, List.length_map, List.length_range]

theorem lines_listing (s : Screen) : lines s.listing = s.rows ++ [[]] := by
  have hline : ∀ text ∈ (List.range 32).map s.pictureLine, '\n' ∉ text.toList := by
    intro text htext
    obtain ⟨y, _, rfl⟩ := List.mem_map.mp htext
    rw [toList_pictureLine, List.mem_map]
    rintro ⟨x, _, hx⟩
    split at hx
    · cases hx
    · cases hx
  rw [listing, lines_unlines hline, List.map_map]
  rfl

/-- The character in column `x` of row `y` shows one cell. -/
theorem getElem?_rows {x y : Nat} (hx : x < 64) (hy : y < 32) :
    s.rows[y]?.bind (·[x]?) = some (if s.get (Cell.wrap x y) then '#' else '.') := by
  rw [rows, List.getElem?_map, List.getElem?_range hy, Option.map_some, Option.bind_some,
    toList_pictureLine, List.getElem?_map, List.getElem?_range hx, Option.map_some]

/-- Screens with the same picture are the same. -/
theorem eq_of_rows_eq (h : s.rows = t.rows) : s = t := by
  refine ext_get fun c => ?_
  have hcell : c.val < 2048 := c.isLt
  have hx : c.column < 64 := by
    rw [Cell.column]
    omega
  have hy : c.row < 32 := by
    rw [Cell.row]
    omega
  have hsign : (if s.get c then '#' else '.') = if t.get c then '#' else '.' := by
    have hs := s.getElem?_rows hx hy
    rw [h, t.getElem?_rows hx hy, Cell.wrap_column_row] at hs
    exact (Option.some.inj hs).symm
  revert hsign
  cases s.get c <;> cases t.get c <;> decide

/-- The cells of the screen, row by row. -/
theorem toList_lit (s : Screen) :
    s.lit.toList =
      (List.range 32).flatMap fun y => (List.range 64).map fun x => s.get (Cell.wrap x y) := by
  have hrange {α : Type} (n : Nat) (f : Nat → α) :
      (List.range n).map f = List.ofFn fun i : Fin n => f i := by
    rw [List.ofFn_eq_map, ← List.map_coe_finRange_eq_range, List.map_map]
    rfl
  have hcells : s.lit.toList = List.ofFn fun c : Fin (32 * 64) => s.get c := by
    rw [← Vector.toList_ofFn]
    exact congrArg Vector.toList Vector.ofFn_getElem.symm
  rw [hcells, List.ofFn_mul, List.flatMap_def, hrange]
  refine congrArg (List.flatten ∘ List.ofFn) (funext fun y => ?_)
  rw [hrange]
  refine congrArg List.ofFn (funext fun x => ?_)
  refine congrArg s.get (Fin.ext ?_)
  show y.val * 64 + x.val = y.val % 32 * 64 + x.val % 64
  rw [Nat.mod_eq_of_lt y.isLt, Nat.mod_eq_of_lt x.isLt]

/-- There is a sharp in the picture for every cell that is on. -/
theorem count_rows (s : Screen) : s.rows.flatten.count '#' = s.litCount := by
  have hsign (cells : List Bool) :
      (cells.map fun cell => if cell then '#' else '.').count '#' = cells.count true := by
    induction cells with
    | nil => rfl
    | cons cell cells ih => cases cell <;> simpa using ih
  have hrows : s.rows.flatten = s.lit.toList.map fun cell => if cell then '#' else '.' := by
    rw [toList_lit, List.map_flatMap, rows, ← List.flatMap_def]
    exact List.flatMap_congr fun y _ => by rw [toList_pictureLine, List.map_map]; rfl
  rw [hrows, hsign, Vector.count_toList, litCount]

end Screen

/-! ## The registers -/

namespace State

variable {s t : State}

/-- The name of a register and what it holds. -/
def regWord (s : State) (x : Reg) : List Char :=
  (['V'] ++ digits 1 x) ++ (['='] ++ digits 2 (s.reg x).toNat)

/-- The register that waits for a key, if one does. -/
def waitWords (s : State) : List (List Char) :=
  s.keyWait.toList.map fun (x : Reg) => "K=V".toList ++ digits 1 x

/-- What is shown behind the index register. -/
def statusWords (s : State) : List (List Char) :=
  ("PC=".toList ++ digits 4 s.pc.toNat) ::
    ("SP=".toList ++ digits (s.stack.depth.log2 / 4 + 1) s.stack.depth) ::
    ("DT=".toList ++ digits 2 s.delay.toNat) ::
    ("ST=".toList ++ digits 2 s.sound.toNat) :: s.waitWords

theorem toList_regsLine (s : State) :
    s.regsLine.toList = ((List.finRange 16).map s.regWord).flatMap fun word => word ++ [' '] := by
  simp [regsLine, regWord, String.toList_join, List.flatMap_map, Hex.fixed]

theorem toList_statusLine (s : State) :
    s.statusLine.toList =
      ("I=".toList ++ digits 4 s.index.toNat) ++ s.statusWords.flatMap fun word => ' ' :: word := by
  cases hwait : s.keyWait with
  | none => simp [statusLine, keyWaitText, statusWords, waitWords, hwait, Hex.fixed, Hex.shortest]
  | some x => simp [statusLine, keyWaitText, statusWords, waitWords, hwait, Hex.fixed, Hex.shortest]

theorem notMem_regWord (s : State) (x : Reg) : ∀ c ∈ breaks, c ∉ s.regWord x := by
  intro c hc hmem
  rcases List.mem_append.mp hmem with hmem | hmem
  · exact notMem_word (forall_breaks.mpr (by decide)) 1 x c hc hmem
  · exact notMem_word (forall_breaks.mpr (by decide)) 2 _ c hc hmem

theorem notMem_statusWord {word : List Char} (s : State)
    (h : word ∈ ("I=".toList ++ digits 4 s.index.toNat) :: s.statusWords) :
    ∀ c ∈ breaks, c ∉ word := by
  simp only [statusWords, waitWords, List.mem_cons, List.mem_map] at h
  rcases h with rfl | rfl | rfl | rfl | rfl | ⟨x, _, rfl⟩
  all_goals exact notMem_word (forall_breaks.mpr (by decide)) _ _

theorem words_regsLine (s : State) :
    words s.regsLine.toList = (List.finRange 16).map s.regWord ++ [[]] := by
  rw [words, toList_regsLine]
  refine splitOn_ended fun word hword => ?_
  obtain ⟨x, _, rfl⟩ := List.mem_map.mp hword
  exact s.notMem_regWord x ' ' blank_mem_breaks

theorem words_statusLine (s : State) :
    words s.statusLine.toList = ("I=".toList ++ digits 4 s.index.toNat) :: s.statusWords := by
  rw [words, toList_statusLine]
  exact splitOn_led (s.notMem_statusWord List.mem_cons_self ' ' blank_mem_breaks) fun word hword =>
    s.notMem_statusWord (List.mem_cons_of_mem _ hword) ' ' blank_mem_breaks

/-- The registers take two lines. -/
theorem lines_listing (s : State) :
    lines s.listing = [s.regsLine.toList, s.statusLine.toList] := by
  have hregs : '\n' ∉ s.regsLine.toList := by
    rw [toList_regsLine]
    refine notMem_ended (by decide) fun word hword => ?_
    obtain ⟨x, _, rfl⟩ := List.mem_map.mp hword
    exact s.notMem_regWord x '\n' feed_mem_breaks
  have hstatus : '\n' ∉ s.statusLine.toList := by
    rw [toList_statusLine]
    exact notMem_led (by decide) (s.notMem_statusWord List.mem_cons_self '\n' feed_mem_breaks)
      fun word hword => s.notMem_statusWord (List.mem_cons_of_mem _ hword) '\n' feed_mem_breaks
  have htext : s.listing.toList = s.regsLine.toList ++ '\n' :: s.statusLine.toList := by
    simp [listing]
  rw [lines, htext, splitOn_append_cons, List.splitOn_eq_singleton hregs,
    List.splitOn_eq_singleton hstatus]
  rfl

theorem regs_eq_of_line (h : s.regsLine.toList = t.regsLine.toList) (x : Reg) : s.reg x = t.reg x := by
  have hwords := congrArg words h
  rw [words_regsLine, words_regsLine, List.append_cancel_right_eq] at hwords
  have hword : s.regWord x = t.regWord x := List.map_inj_left.mp hwords x (List.mem_finRange x)
  have hdigits : digits 2 (s.reg x).toNat = digits 2 (t.reg x).toNat := by
    rw [regWord, regWord] at hword
    exact List.append_cancel_left (List.append_cancel_left hword)
  exact UInt8.toNat.inj (Hex.eq_of_digits_eq (s.reg x).toNat_lt (t.reg x).toNat_lt hdigits)

theorem keyWait_eq_of_waitWords (h : s.waitWords = t.waitWords) : s.keyWait = t.keyWait := by
  have hinjective : Function.Injective fun x : Reg => "K=V".toList ++ digits 1 x := by
    intro x y hxy
    exact Fin.ext (Hex.eq_of_digits_eq x.isLt y.isLt (List.append_cancel_left hxy))
  rw [waitWords, waitWords] at h
  have hlist : s.keyWait.toList = t.keyWait.toList := List.map_injective_iff.mpr hinjective h
  simpa using congrArg List.head? hlist

/-- The status line tells the index, the program counter, the depth, the timers and the key wait. -/
theorem status_eq_of_line (h : s.statusLine.toList = t.statusLine.toList) :
    s.index = t.index ∧ s.pc = t.pc ∧ s.stack.depth = t.stack.depth ∧ s.delay = t.delay ∧
      s.sound = t.sound ∧ s.keyWait = t.keyWait := by
  have hwords := congrArg words h
  rw [words_statusLine, words_statusLine, statusWords, statusWords] at hwords
  simp only [List.cons.injEq, List.append_cancel_left_eq] at hwords
  obtain ⟨hindex, hpc, hdepth, hdelay, hsound, hwait⟩ := hwords
  refine ⟨?_, ?_, ?_, ?_, ?_, keyWait_eq_of_waitWords hwait⟩
  · exact UInt16.toNat.inj (Hex.eq_of_digits_eq s.index.toNat_lt t.index.toNat_lt hindex)
  · exact UInt16.toNat.inj (Hex.eq_of_digits_eq s.pc.toNat_lt t.pc.toNat_lt hpc)
  · have hshortest : (Hex.shortest s.stack.depth).toList = (Hex.shortest t.stack.depth).toList := by
      rw [Hex.shortest, Hex.shortest, Hex.fixed, Hex.fixed, hdepth]
    exact Hex.eq_of_shortest_eq hshortest
  · exact UInt8.toNat.inj (Hex.eq_of_digits_eq s.delay.toNat_lt t.delay.toNat_lt hdelay)
  · exact UInt8.toNat.inj (Hex.eq_of_digits_eq s.sound.toNat_lt t.sound.toNat_lt hsound)

end State

/-! ## The keys -/

namespace Keypad

variable {k k' : Keypad}

theorem any_eq_false_iff (k : Keypad) : k.any = false ↔ k.pressed = [] := by
  rw [any, pressed, List.any_eq_false, List.filter_eq_nil_iff]

theorem notMem_name (key : Key) : ∀ c ∈ breaks, c ∉ key.name.toList := by
  refine forall_breaks.mpr ?_
  revert key
  decide

theorem toList_listing (hany : k.any = true) :
    k.listing.toList = "keys:".toList ++
      (k.pressed.map fun key => key.name.toList).flatMap fun word => ' ' :: word := by
  simp [listing, hany, String.toList_join, List.flatMap_map]

/-- Without a key that is down the line is empty, and one empty piece. -/
theorem words_listing (k : Keypad) :
    words k.listing.toList =
      if k.pressed = [] then [[]] else "keys:".toList :: k.pressed.map fun key => key.name.toList := by
  cases hany : k.any with
  | false =>
    rw [listing, hany, if_pos (k.any_eq_false_iff.mp hany), if_neg Bool.false_ne_true]
    exact List.splitOn_nil ' '
  | true =>
    have hsome : k.pressed ≠ [] := fun hnone =>
      Bool.false_ne_true ((k.any_eq_false_iff.mpr hnone).symm.trans hany)
    rw [if_neg hsome, words, toList_listing hany]
    refine splitOn_led (by decide) fun word hword => ?_
    obtain ⟨key, _, rfl⟩ := List.mem_map.mp hword
    exact notMem_name key ' ' blank_mem_breaks

theorem notMem_listing (k : Keypad) : '\n' ∉ k.listing.toList := by
  cases hany : k.any with
  | false => simp [listing, hany]
  | true =>
    rw [toList_listing hany]
    refine notMem_led (by decide) (by decide) fun word hword => ?_
    obtain ⟨key, _, rfl⟩ := List.mem_map.mp hword
    exact notMem_name key '\n' feed_mem_breaks

/-- The keys that are down are told apart. -/
theorem eq_of_listing_eq (h : k.listing = k'.listing) : k = k' := by
  have hname : Function.Injective fun key : Key => key.name.toList := by
    intro key key'
    revert key key'
    decide
  have hwords := congrArg (fun text : String => words text.toList) h
  simp only [words_listing] at hwords
  have hpressed : k.pressed = k'.pressed := by
    by_cases hnone : k.pressed = [] <;> by_cases hnone' : k'.pressed = []
    · rw [hnone, hnone']
    · simp [hnone, hnone'] at hwords
    · simp [hnone, hnone'] at hwords
    · rw [if_neg hnone, if_neg hnone'] at hwords
      exact List.map_injective_iff.mpr hname (List.cons.inj hwords).2
  refine eq_of_isDown fun key => ?_
  have hmem (k : Keypad) : key ∈ k.pressed ↔ k.isDown key = true := by
    simp [pressed, Key.all]
  rw [Bool.eq_iff_iff, ← hmem, ← hmem, hpressed]

end Keypad

/-! ## The whole listing -/

namespace Machine

variable {m n : Machine}

/-- The machines agree in what is shown at the end of a run. -/
structure LooksLike (m n : Machine) : Prop where
  screen : m.state.screen = n.state.screen
  reg : ∀ x, m.state.reg x = n.state.reg x
  index : m.state.index = n.state.index
  pc : m.state.pc = n.state.pc
  depth : m.state.stack.depth = n.state.stack.depth
  delay : m.state.delay = n.state.delay
  sound : m.state.sound = n.state.sound
  keyWait : m.state.keyWait = n.state.keyWait
  keypad : m.keypad = n.keypad

/-- The picture, an empty line, two lines of registers and one of keys. -/
theorem lines_finalListing (m : Machine) :
    lines m.finalListing = m.state.screen.rows ++
      [[], m.state.regsLine.toList, m.state.statusLine.toList, m.keypad.listing.toList, []] := by
  have htext : m.finalListing.toList = m.state.screen.listing.toList ++
      '\n' :: (m.state.listing.toList ++ '\n' :: (m.keypad.listing.toList ++ '\n' :: [])) := by
    simp [finalListing, toList_unlines]
  have hscreen : m.state.screen.listing.toList.splitOn '\n' = m.state.screen.rows ++ [[]] :=
    m.state.screen.lines_listing
  have hstate : m.state.listing.toList.splitOn '\n' =
      [m.state.regsLine.toList, m.state.statusLine.toList] := m.state.lines_listing
  have hkeys : m.keypad.listing.toList.splitOn '\n' = [m.keypad.listing.toList] :=
    List.splitOn_eq_singleton m.keypad.notMem_listing
  rw [lines, htext, splitOn_append_cons, splitOn_append_cons, splitOn_append_cons, hscreen, hstate,
    hkeys, List.splitOn_nil]
  simp

theorem looksLike_of_listing (h : m.finalListing = n.finalListing) : m.LooksLike n := by
  have hlines := congrArg lines h
  rw [lines_finalListing, lines_finalListing] at hlines
  have hlength : m.state.screen.rows.length = n.state.screen.rows.length := by
    rw [Screen.length_rows, Screen.length_rows]
  obtain ⟨hrows, hrest⟩ := List.append_inj hlines hlength
  simp only [List.cons.injEq, true_and, and_true] at hrest
  obtain ⟨hregs, hstatus, hkeys⟩ := hrest
  obtain ⟨hindex, hpc, hdepth, hdelay, hsound, hwait⟩ := State.status_eq_of_line hstatus
  exact ⟨Screen.eq_of_rows_eq hrows, State.regs_eq_of_line hregs, hindex, hpc, hdepth, hdelay, hsound,
    hwait, Keypad.eq_of_listing_eq (String.toList_injective hkeys)⟩

theorem LooksLike.listing (h : m.LooksLike n) : m.finalListing = n.finalListing := by
  have hregs : m.state.regsLine = n.state.regsLine := by
    simp only [State.regsLine, h.reg]
  have hstatus : m.state.statusLine = n.state.statusLine := by
    simp only [State.statusLine, State.keyWaitText, h.index, h.pc, h.depth, h.delay, h.sound,
      h.keyWait]
  simp only [finalListing, State.listing, hregs, hstatus, h.screen, h.keypad]

theorem finalListing_eq_iff : m.finalListing = n.finalListing ↔ m.LooksLike n :=
  ⟨looksLike_of_listing, LooksLike.listing⟩

end Machine

/-- A run ends with the listing of the machine, whether it ends with a fault or not. -/
theorem Command.output_playReport (plan : RunPlan) (m : Machine) :
    (playReport plan m).output = (plan.play m).2.finalListing := by
  rw [playReport]
  cases hplay : plan.play m with
  | mk result last => cases result <;> rfl

namespace Machine

/-- What is shown at the end of a run is faithful.

The text begins with 32 lines of 64 characters and an empty line.  Column `x` of line `y` has a sharp
if the cell at `x` and `y` is on and a point if it is off, so there are as many sharps as cells that
are on.  Two machines show the same text if and only if they agree in the whole screen, in all general
registers, the index, the program counter, the depth of the call stack, both timers, the pending key
wait and the keypad.  And so do the machines at the end of two runs whose reports are the same text. -/
theorem last_listing_faithful (m n : Machine) :
    (∃ rows rest : List (List Char), lines m.finalListing = rows ++ [] :: rest ∧
      rows.length = 32 ∧ (∀ row ∈ rows, row.length = 64) ∧
      (∀ x < 64, ∀ y < 32, rows[y]?.bind (·[x]?) =
        some (if m.state.screen.get (Cell.wrap x y) then '#' else '.')) ∧
      rows.flatten.count '#' = m.state.screen.litCount) ∧
      (m.finalListing = n.finalListing ↔ m.LooksLike n) ∧
      ∀ plan plan' : RunPlan,
        (Command.playReport plan m).output = (Command.playReport plan' n).output ↔
          (plan.play m).2.LooksLike (plan'.play n).2 := by
  refine ⟨⟨m.state.screen.rows, _, m.lines_finalListing, Screen.length_rows _,
    fun row hrow => Screen.length_of_mem_rows hrow, fun x hx y hy => Screen.getElem?_rows hx hy,
    Screen.count_rows _⟩, finalListing_eq_iff, fun plan plan' => ?_⟩
  rw [Command.output_playReport, Command.output_playReport]
  exact finalListing_eq_iff

/-- A machine that waits for a key does not look like one that does not, and a blank screen is shown
with a point in its last cell. -/
theorem last_listing_faithful_of_key_wait :
    let m := Machine.new {} fun _ => 0
    let n := m.restore { m.state with keyWait := some 3 }
    (∃ rows rest : List (List Char), lines m.finalListing = rows ++ [] :: rest ∧
      (63 < 64 ∧ 31 < 32) ∧ rows[31]?.bind (·[63]?) = some '.') ∧
      m.finalListing ≠ n.finalListing := by
  intro m n
  obtain ⟨⟨rows, rest, hlines, _, _, hcells, _⟩, hlooks, _⟩ := last_listing_faithful m n
  have hblank : m.state.screen.get (Cell.wrap 63 31) = false := Screen.get_blank _
  have hlast := hcells 63 (by decide) 31 (by decide)
  rw [hblank] at hlast
  refine ⟨⟨rows, rest, hlines, by decide, hlast⟩, fun hsame => ?_⟩
  have hwait : none = some (3 : Reg) := (hlooks.mp hsame).keyWait
  cases hwait

end Machine
end Chip8
