/-!
# Layout

What stands between the parts of a written document: blanks, line ends and comments.  Between
brackets they mean nothing.  Outside of them the column of the first part of a line says what the
line belongs to, so no tab may stand there, and a line of three hyphens or three points is the
boundary of a document.
-/

namespace Chip8
namespace Layout

/-! ## Characters -/

/-- A character that separates parts of a line. -/
def isBlank (c : Char) : Bool := c = ' ' || c = '\t'

/-- A character that ends a line: a line feed, a carriage return, a next line, or a separator of
lines or paragraphs. -/
def isBreak (c : Char) : Bool :=
  c = '\n' || c = '\r' || c = '\u0085' || c = '\u2028' || c = '\u2029'

/-- A character that separates parts. -/
def isGap (c : Char) : Bool := isBlank c || isBreak c

/-- A character that a text may hold.  Other control characters, and the two code points at the end
of the basic plane that are no characters, are written as escapes only. -/
def isAllowed (c : Char) : Bool :=
  isGap c || (' ' ≤ c && c ≤ '~') || ('\u00a0' ≤ c && c ≤ '\ufffd') || 0x10000 ≤ c.toNat

/-- A character of a plain name: a letter or digit, a hyphen or an underscore. -/
def isWordChar (c : Char) : Bool := c.isAlphanum || c = '-' || c = '_'

/-- Whether a part that ends here stands alone. -/
def startsGap : List Char → Bool
  | [] => true
  | c :: _ => isGap c

/-! ## Lines -/

/-- The characters in front of the end of a line. -/
def restOfLine (cs : List Char) : List Char := cs.takeWhile fun c => !isBreak c

/-- The end of a line at the front of a text, which is one or two characters, or none at the end of
the text. -/
def lineEnd : List Char → List Char
  | [] => []
  | '\r' :: '\n' :: _ => ['\r', '\n']
  | c :: _ => if isBreak c then [c] else []

/-- What the end of a line stands for inside a scalar.  Only the separators of lines and paragraphs
stand for themselves. -/
def lineEndValue (c : Char) : Char := if c = '\u2028' || c = '\u2029' then c else '\n'

/-- Whether the rest of a line holds nothing but a comment. -/
def isIdle (line : List Char) : Bool :=
  match line.dropWhile isBlank with
  | [] => true
  | c :: _ => c = '#'

/-! ## Places -/

/-- A place in a text, counted from zero. -/
structure Place where
  /-- The bytes in front of it. -/
  offset : Nat := 0
  line : Nat := 0
  column : Nat := 0
  deriving DecidableEq, Repr

namespace Place

/-- The place behind a character. -/
def next (p : Place) (c : Char) : Place :=
  if isBreak c then ⟨p.offset + c.utf8Size, p.line + 1, 0⟩
  else ⟨p.offset + c.utf8Size, p.line, p.column + 1⟩

/-- The place behind some characters. -/
def after (p : Place) (cs : List Char) : Place := cs.foldl next p

end Place

/-! ## Boundaries -/

/-- Whether three hyphens or three points stand alone here. -/
def startsBoundary : List Char → Bool
  | a :: b :: c :: cs => a = b && b = c && (a = '-' || a = '.') && startsGap cs
  | _ => false

/-- Whether some line starts like a boundary.  The flag says whether a line starts here. -/
def hasBoundary : (lineStart : Bool) → List Char → Bool
  | _, [] => false
  | lineStart, c :: cs =>
    if lineStart && startsBoundary (c :: cs) then true else hasBoundary (isBreak c) cs

/-! ## Gaps -/

/-- What follows a gap. -/
structure AfterGap where
  /-- Whether a name may stand there. -/
  nameAllowed : Bool
  place : Place
  rest : List Char

/-- Drop what may stand between two parts.  A new line outside of brackets may start with a name,
and where one may start no tab may stand in front of it.  A byte order mark may start any line. -/
def skipGap (inBrackets : Bool) : (comment nameAllowed : Bool) → Place → List Char → AfterGap
  | _, nameAllowed, place, [] => ⟨nameAllowed, place, []⟩
  | comment, nameAllowed, place, c :: cs =>
    if isBreak c then skipGap inBrackets false (nameAllowed || !inBrackets) (place.next c) cs
    else if comment || c = ' ' || (c = '\t' && (inBrackets || !nameAllowed)) ||
        (c = '\ufeff' && place.column = 0) then
      skipGap inBrackets comment nameAllowed (place.next c) cs
    else if c = '#' then skipGap inBrackets true nameAllowed (place.next c) cs
    else ⟨nameAllowed, place, c :: cs⟩

end Layout
end Chip8
