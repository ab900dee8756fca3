import Chip8.Document.Layout
import Chip8.Document.Scalar.Basic

/-!
# Scalars in blocks

A block is a scalar that takes whole lines.  Its first line tells how its lines are joined, what
becomes of the line ends behind the last of them, and possibly how far they are indented; otherwise
the first line with text decides that.  A block ends before the first line that starts to the left
of its own.
-/

namespace Chip8

open Layout

/-- What becomes of the line ends behind the last line of a block. -/
inductive Chomping where
  /-- One of them stays. -/
  | clip
  | strip
  | keep
  deriving DecidableEq, Repr

/-- What the first line of a block tells. -/
structure BlockHeader where
  chomping : Chomping
  /-- How far the lines stand to the right of what the block belongs to. -/
  width : Option Nat
  deriving DecidableEq, Repr

namespace BlockHeader

/-- The sign for what becomes of the last line ends. -/
def takeChomping : List Char → Chomping × List Char
  | '+' :: cs => (.keep, cs)
  | '-' :: cs => (.strip, cs)
  | cs => (.clip, cs)

/-- A digit from one to nine for the width. -/
def takeWidth? : List Char → Option (Option Nat × List Char)
  | [] => some (none, [])
  | c :: cs =>
    if c = '0' then none
    else if c.isDigit then some (some (c.toNat - '0'.toNat), cs)
    else some (none, c :: cs)

/-- What a first line tells behind its first character.  The sign stands on either side of the
digit. -/
def ofLine? (line : List Char) : Option BlockHeader := do
  let (chomping, cs) := takeChomping line
  let (width, cs) ← takeWidth? cs
  let (chomping, cs) := if chomping = .clip then takeChomping cs else (chomping, cs)
  if isIdle cs then return ⟨chomping, width⟩ else none

end BlockHeader

/-- What has been made of a block so far.  All characters are held the newest first. -/
structure Block where
  passed : List Char := []
  text : List Char := []
  /-- The column at which the lines start, once it is known. -/
  indent : Option Nat
  column : Nat := 0
  /-- The widest of the lines without text so far. -/
  widest : Nat := 0
  inLine : Bool := false
  /-- The end of the last line. -/
  ending : Option Char := none
  /-- The ends of the lines without text behind it. -/
  more : List Char := []
  /-- Whether the last line starts with a blank. -/
  startsBlank : Bool := false
  deriving DecidableEq, Repr

namespace Block

/-- Whether the next character stands in front of where the lines start. -/
def inIndent (b : Block) : Bool :=
  !b.inLine && b.indent.all (b.column < ·)

/-- Pass the end of a line with text, or of one without. -/
def putLineEnd (source : List Char) (c : Char) (b : Block) : Block :=
  if b.inLine then
    { b with
      passed := source ++ b.passed, column := 0, inLine := false, ending := some (lineEndValue c) }
  else
    { b with
      passed := source ++ b.passed, column := 0, widest := max b.widest b.column
      more := lineEndValue c :: b.more }

/-- Pass a blank in front of where the lines start. -/
def putIndent (b : Block) : Block :=
  { b with passed := ' ' :: b.passed, column := b.column + 1 }

/-- The text with the ends of the last lines, where another line follows that starts with a
character.  In a folded block a single line end is a blank, but not next to a line that starts with
a blank. -/
def joined (folded : Bool) (c : Char) (b : Block) : List Char :=
  if folded && b.ending = some '\n' && !b.startsBlank && !isBlank c then
    if b.more.isEmpty then ' ' :: b.text else b.more ++ b.text
  else b.more ++ (b.ending.toList ++ b.text)

/-- Pass the first character of a line. -/
def startLine (folded : Bool) (c : Char) (b : Block) : Block :=
  { b with
    passed := c :: b.passed, text := c :: b.joined folded c, indent := some b.column
    inLine := true, ending := none, more := [], startsBlank := isBlank c }

/-- Pass any other character of a line. -/
def put (c : Char) (b : Block) : Block :=
  { b with passed := c :: b.passed, text := c :: b.text }

/-- Take all lines of a block.  `least` is the least column at which they may start.  No tab stands
in front of where they start. -/
def takeLines? (folded : Bool) (least : Nat) (b : Block) : List Char → Option Block
  | [] => some b
  | '\r' :: '\n' :: cs => takeLines? folded least (b.putLineEnd ['\n', '\r'] '\n') cs
  | c :: cs =>
    if isBreak c then takeLines? folded least (b.putLineEnd [c] c) cs
    else if b.inLine then takeLines? folded least (b.put c) cs
    else if b.inIndent && c = ' ' then takeLines? folded least b.putIndent cs
    else if b.inIndent && c = '\t' then none
    else if b.column = b.indent.getD (max least (max b.widest b.column)) then
      takeLines? folded least (b.startLine folded c) cs
    else some b

/-- The text of a block that is over. -/
def finish (chomping : Chomping) (b : Block) : String :=
  let text :=
    match chomping with
    | .strip => b.text
    | .clip => b.ending.toList ++ b.text
    | .keep => b.more ++ (b.ending.toList ++ b.text)
  String.ofList text.reverse

end Block

namespace Scalar

/-- The block at the front of a text, and all its characters.  `margin` is the column of what it
belongs to, if there is one. -/
def block? (margin : Option Nat) (cs : List Char) : Option (Scalar × List Char) := do
  let folded := cs.head? = some '>'
  let line := restOfLine cs
  let ending := lineEnd (cs.drop line.length)
  let header ← BlockHeader.ofLine? (line.drop 1)
  let indent := header.width.map fun width => (margin.getD 0) + width
  let least := (margin.map (· + 1)).getD 1
  let block ← Block.takeLines? folded least { indent } (cs.drop (line.length + ending.length))
  let style := if folded then ScalarStyle.folded else .literal
  return (⟨style, block.finish header.chomping⟩, line ++ ending ++ block.passed.reverse)

end Scalar
end Chip8
