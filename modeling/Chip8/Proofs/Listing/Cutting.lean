import Chip8.Listing
import Chip8.Proofs.Hex

/-!
# Cutting — a listing falls into the pieces it was put together from

A listing is made of lines, and a line of words.  Lines end with a line feed, and blanks stand between
words or behind them.  Cutting a text at such a character undoes putting it together, since no piece
contains the character itself: a piece has letters, signs and digits in base sixteen.

So two listings are the same only if they agree piece by piece.
-/

namespace Chip8
namespace Listing

variable {sep other : Char} {first : List Char} {pieces : List (List Char)}

/-- The pieces of a text between its ends of lines. -/
def lines (text : String) : List (List Char) := text.toList.splitOn '\n'

/-- The pieces of a line between its blanks. -/
def words (line : List Char) : List (List Char) := line.splitOn ' '

theorem splitOn_append_cons (sep : Char) (before after : List Char) :
    (before ++ sep :: after).splitOn sep = before.splitOn sep ++ after.splitOn sep :=
  List.splitOnP_append_cons before after (beq_self_eq_true sep)

/-- Pieces that are each followed by the character they are cut at. -/
theorem splitOn_ended (h : ∀ piece ∈ pieces, sep ∉ piece) :
    (pieces.flatMap fun piece => piece ++ [sep]).splitOn sep = pieces ++ [[]] := by
  induction pieces with
  | nil => exact List.splitOn_nil sep
  | cons piece pieces ih =>
    have hpiece : piece.splitOn sep = [piece] :=
      List.splitOn_eq_singleton (h piece List.mem_cons_self)
    rw [List.flatMap_cons, List.append_assoc, List.singleton_append, splitOn_append_cons, hpiece,
      ih fun other hother => h other (List.mem_cons_of_mem piece hother)]
    rfl

/-- Pieces that are each led by the character they are cut at, behind a first one. -/
theorem splitOn_led (hfirst : sep ∉ first) (h : ∀ piece ∈ pieces, sep ∉ piece) :
    (first ++ pieces.flatMap fun piece => sep :: piece).splitOn sep = first :: pieces := by
  induction pieces generalizing first with
  | nil => rw [List.flatMap_nil, List.append_nil, List.splitOn_eq_singleton hfirst]
  | cons piece pieces ih =>
    have hrest := ih (h piece List.mem_cons_self) fun more hmore =>
      h more (List.mem_cons_of_mem piece hmore)
    rw [List.flatMap_cons, List.cons_append, splitOn_append_cons, List.splitOn_eq_singleton hfirst,
      hrest]
    rfl

theorem notMem_ended (hne : sep ≠ other) (h : ∀ piece ∈ pieces, sep ∉ piece) :
    sep ∉ pieces.flatMap fun piece => piece ++ [other] := by
  intro hmem
  obtain ⟨piece, hpiece, hmem⟩ := List.mem_flatMap.mp hmem
  rcases List.mem_append.mp hmem with hmem | hmem
  · exact h piece hpiece hmem
  · exact hne (List.mem_singleton.mp hmem)

theorem notMem_led (hne : sep ≠ other) (hfirst : sep ∉ first)
    (h : ∀ piece ∈ pieces, sep ∉ piece) :
    sep ∉ first ++ pieces.flatMap fun piece => other :: piece := by
  intro hmem
  rcases List.mem_append.mp hmem with hmem | hmem
  · exact hfirst hmem
  · obtain ⟨piece, hpiece, hmem⟩ := List.mem_flatMap.mp hmem
    rcases List.mem_cons.mp hmem with hmem | hmem
    · exact hne hmem
    · exact h piece hpiece hmem

theorem toList_unlines (texts : List String) :
    (unlines texts).toList = (texts.map String.toList).flatMap fun line => line ++ ['\n'] := by
  simp only [unlines, String.toList_join, List.flatMap_map, String.toList_append]
  rfl

theorem lines_unlines {texts : List String} (h : ∀ text ∈ texts, '\n' ∉ text.toList) :
    lines (unlines texts) = texts.map String.toList ++ [[]] := by
  rw [lines, toList_unlines, splitOn_ended]
  intro piece hpiece
  obtain ⟨text, htext, rfl⟩ := List.mem_map.mp hpiece
  exact h text htext

/-! ## Words -/

/-- The characters that texts are cut at. -/
def breaks : List Char := [' ', '\n']

theorem blank_mem_breaks : ' ' ∈ breaks := List.mem_cons_self

theorem feed_mem_breaks : '\n' ∈ breaks := List.mem_cons_of_mem ' ' List.mem_cons_self

theorem forall_breaks {P : Char → Prop} : (∀ c ∈ breaks, P c) ↔ P ' ' ∧ P '\n' := by
  simp [breaks]

/-- A word is a label and the digits of a number.  It is not cut if its label is not. -/
theorem notMem_word {label : List Char} (hlabel : ∀ c ∈ breaks, c ∉ label) (width n : Nat) :
    ∀ c ∈ breaks, c ∉ label ++ Hex.digits width n := by
  have hdigits : ∀ c ∈ breaks, c ∉ Hex.alphabet := forall_breaks.mpr (by decide)
  intro c hc hmem
  rcases List.mem_append.mp hmem with hmem | hmem
  · exact hlabel c hc hmem
  · exact hdigits c hc (Hex.mem_alphabet hmem)

end Listing
end Chip8
