import Chip8.Document.Directive
import Chip8.Document.Scalar.Block
import Chip8.Document.Scalar.Plain
import Chip8.Document.Scalar.Quoted
import Chip8.Document.Token

/-!
# Cutting texts into tokens

A lexer goes through a text from its front and takes one token after the other.  Some things need a
memory.  Outside of brackets the columns decide which lines belong together, so a lexer keeps the
columns of the lists and records that are not over yet, its margins.  A name shows only by the colon
behind it, so a lexer remembers where a name may have started, and puts the tokens in front of it
when it comes to the colon.  And anchors and handles of tags are known from where they stand on.
-/

namespace Chip8

open Layout

/-- A part that may turn out to be a name. -/
structure Candidate where
  /-- Where it starts. -/
  place : Place
  /-- The number of tokens in front of it. -/
  index : Nat
  /-- Whether it stands where nothing but a name can stand. -/
  required : Bool
  deriving DecidableEq, Repr

namespace Candidate

/-- The number of bytes that a name and the blanks behind it may take. -/
def sizeLimit : Nat := 1024

/-- Whether a colon at a place can make a name of a candidate: both stand in one line, not too far
from each other. -/
def reaches (c : Candidate) (colon : Place) : Bool :=
  c.place.line = colon.line && colon.offset ≤ c.place.offset + sizeLimit

end Candidate

/-- What has been made of a text so far. -/
structure Lexer where
  place : Place := {}
  rest : List Char
  tokens : Array Token := #[]
  /-- The columns of the open lists and records without brackets, the innermost first. -/
  margins : List Nat := []
  /-- What may be a name, within the innermost brackets. -/
  candidate : Option Candidate := none
  /-- What may be a name around each open bracket, the innermost first. -/
  outer : List (Option Candidate) := []
  /-- Whether a name may stand here. -/
  nameAllowed : Bool := true
  /-- The numbers of the anchors so far by their names. -/
  anchors : List (String × Nat) := []
  declarations : Declarations := {}

namespace Lexer

/-- Whether some bracket is open. -/
def inBrackets (l : Lexer) : Bool := !l.outer.isEmpty

/-! ## Columns -/

/-- Drop the gap in front of the next token. -/
def afterGap (l : Lexer) : Lexer :=
  let gap := skipGap l.inBrackets false l.nameAllowed l.place l.rest
  { l with nameAllowed := gap.nameAllowed, place := gap.place, rest := gap.rest }

/-- Close what belongs to columns further to the right. -/
def dedent (l : Lexer) : Lexer :=
  if l.inBrackets then l
  else
    let closed := l.margins.takeWhile (l.place.column < ·)
    { l with
      margins := l.margins.drop closed.length
      tokens := l.tokens ++ Array.replicate closed.length .dedent }

/-- Close everything. -/
def dedentAll (l : Lexer) : Lexer :=
  { l with margins := [], tokens := l.tokens ++ Array.replicate l.margins.length .dedent }

/-- Open a list or a record at a column, in front of the token with an index, unless one is open
there. -/
def indent (column index : Nat) (token : Token) (l : Lexer) : Lexer :=
  if l.inBrackets || l.margins.head?.any (column ≤ ·) then l
  else
    { l with
      margins := column :: l.margins
      tokens := l.tokens.insertIdxIfInBounds index token }

/-- Open a list or a record at the next token, which shows that it is one.  Outside of brackets it
has to stand where a name may. -/
def indentHere? (token : Token) (l : Lexer) : Option Lexer :=
  if l.inBrackets then some l
  else if l.nameAllowed then some (l.indent l.place.column l.tokens.size token)
  else none

/-! ## Candidates for names -/

/-- No colon makes a name of the candidate any more. -/
def dropCandidate? (l : Lexer) : Option Lexer :=
  if l.candidate.any Candidate.required then none else some { l with candidate := none }

/-- The next token may start a name. -/
def noteCandidate? (l : Lexer) : Option Lexer :=
  if l.nameAllowed then
    let required := !l.inBrackets && l.margins.head? == some l.place.column
    l.dropCandidate?.map fun l =>
      { l with candidate := some ⟨l.place, l.tokens.size, required⟩ }
  else some l

/-! ## Single tokens -/

/-- Take a token that is written with some characters. -/
def take (token : Token) (source : List Char) (l : Lexer) : Lexer :=
  { l with
    place := l.place.after source
    rest := l.rest.drop source.length
    tokens := l.tokens.push token }

/-- The boundary of a document. -/
def boundary? (token : Token) (l : Lexer) : Option Lexer :=
  l.dedentAll.dropCandidate?.map fun l =>
    { l with nameAllowed := false }.take token (l.rest.take 3)

/-- An opening bracket. -/
def openBracket? (token : Token) (l : Lexer) : Option Lexer :=
  l.noteCandidate?.map fun l =>
    { l with outer := l.candidate :: l.outer, candidate := none, nameAllowed := true }.take token
      (l.rest.take 1)

/-- A closing bracket. -/
def closeBracket? (token : Token) (l : Lexer) : Option Lexer :=
  match l.outer with
  | [] => l.dropCandidate?.map fun l => { l with nameAllowed := false }.take token (l.rest.take 1)
  | candidate :: outer =>
    some ({ l with outer, candidate, nameAllowed := false }.take token (l.rest.take 1))

/-- A comma. -/
def comma? (l : Lexer) : Option Lexer :=
  l.dropCandidate?.map fun l => { l with nameAllowed := true }.take .comma [',']

/-- A hyphen that stands alone. -/
def hyphen? (l : Lexer) : Option Lexer := do
  let l ← l.indentHere? .indentList
  let l ← l.dropCandidate?
  return { l with nameAllowed := true }.take .item ['-']

/-- A question mark, behind which a name stands. -/
def questionMark? (l : Lexer) : Option Lexer := do
  let l ← l.indentHere? .indentRecord
  let l ← l.dropCandidate?
  return { l with nameAllowed := !l.inBrackets }.take .name ['?']

/-- A colon without a candidate in front of it. -/
def colonAlone? (l : Lexer) : Option Lexer :=
  (l.indentHere? .indentRecord).map fun l =>
    { l with candidate := none, nameAllowed := !l.inBrackets }.take .value [':']

/-- A colon, which makes a name of the candidate if it can. -/
def colon? (l : Lexer) : Option Lexer :=
  match l.candidate with
  | none => l.colonAlone?
  | some c =>
    if c.reaches l.place then
      let l := { l with
        candidate := none
        nameAllowed := false
        tokens := l.tokens.insertIdxIfInBounds c.index .name }
      some ((l.indent c.place.column c.index .indentRecord).take .value [':'])
    else if c.required then none
    else l.colonAlone?

/-- The word behind the sign of an anchor or an alias. -/
def anchorName? (cs : List Char) : Option (List Char) :=
  let name := cs.takeWhile isWordChar
  let ends :=
    match cs.drop name.length with
    | [] => true
    | c :: _ => isGap c || ['?', ':', ',', ']', '\x7d', '%', '@', '\x60'].contains c
  if ends && !name.isEmpty then some name else none

/-- An anchor.  Its number is the number of names that anchors have had so far. -/
def anchor? (l : Lexer) : Option Lexer := do
  let l ← l.noteCandidate?
  let word ← anchorName? l.rest.tail
  let name := String.ofList word
  let number := l.anchors.length
  let others := l.anchors.filter fun anchor => anchor.1 ≠ name
  return { l with nameAllowed := false, anchors := (name, number) :: others }.take (.anchor number)
    ('&' :: word)

/-- An alias, which an anchor of the same name stands in front of. -/
def alias? (l : Lexer) : Option Lexer := do
  let l ← l.noteCandidate?
  let word ← anchorName? l.rest.tail
  let number ← l.anchors.lookup (String.ofList word)
  return { l with nameAllowed := false }.take (.alias number) ('*' :: word)

/-- A tag.  A gap follows it, or in brackets a comma. -/
def tag? (l : Lexer) : Option Lexer := do
  let l ← l.noteCandidate?
  let tag ← Tag.cut? l.rest
  let meaning ← tag.resolve? l.declarations.handles
  let behind := l.rest.drop tag.source.length
  if startsGap behind || (l.inBrackets && behind.head? = some ',') then
    return { l with nameAllowed := false }.take (.tag meaning) tag.source
  else none

/-- A directive, which takes a line. -/
def directive? (l : Lexer) : Option Lexer := do
  let line := restOfLine l.rest
  let directive ← Directive.ofLine? line.tail
  let declarations ← l.declarations.note? directive
  let l ← l.dedentAll.dropCandidate?
  return { l with nameAllowed := false, declarations }.take .directive
    (line ++ lineEnd (l.rest.drop line.length))

/-- A scalar in quotes. -/
def quoted? (cut : List Char → Option (Scalar × List Char)) (l : Lexer) : Option Lexer := do
  let l ← l.noteCandidate?
  let (scalar, source) ← cut l.rest.tail
  return { l with nameAllowed := false }.take (.scalar scalar) source

/-- A plain scalar.  If it ends with its line, a name may follow. -/
def plain? (l : Lexer) : Option Lexer := do
  let l ← l.noteCandidate?
  let indent := (l.margins.head?.map (· + 1)).getD 0
  let (scalar, source) ← Scalar.plain? l.inBrackets indent l.place.column l.rest
  return { l with nameAllowed := Scalar.endsLine source }.take (.scalar scalar) source

/-- A scalar in a block. -/
def block? (l : Lexer) : Option Lexer := do
  let l ← l.dropCandidate?
  let (scalar, source) ← Scalar.block? l.margins.head? l.rest
  return { l with nameAllowed := true }.take (.scalar scalar) source

/-- The next token, where no gap stands in front of it and the text is not over. -/
def next? (l : Lexer) : Option Lexer :=
  let first := l.rest.head?
  let alone := startsGap l.rest.tail
  if l.place.column = 0 && first = some '%' then l.directive?
  else if l.place.column = 0 && startsBoundary l.rest then
    l.boundary? (if first = some '-' then .start else .finish)
  else
    match first with
    | some '[' => l.openBracket? .openList
    | some ']' => l.closeBracket? .closeList
    | some '\x7b' => l.openBracket? .openRecord
    | some '\x7d' => l.closeBracket? .closeRecord
    | some ',' => l.comma?
    | some '-' => if alone then l.hyphen? else l.plain?
    | some '?' => if alone || l.inBrackets then l.questionMark? else l.plain?
    | some ':' => if alone || l.inBrackets then l.colon? else l.plain?
    | some '&' => l.anchor?
    | some '*' => l.alias?
    | some '!' => l.tag?
    | some '|' => if l.inBrackets then none else l.block?
    | some '>' => if l.inBrackets then none else l.block?
    | some '"' => l.quoted? Scalar.doubleQuoted?
    | some '\x27' => l.quoted? Scalar.singleQuoted?
    | _ => l.plain?

/-! ## Whole texts -/

/-- All tokens of a text.  Each takes at least one character, so the length of the text is enough
fuel. -/
def run? : Nat → Lexer → Option (List Token)
  | 0, _ => none
  | fuel + 1, l =>
    let l := l.afterGap.dedent
    if l.rest.isEmpty then l.dedentAll.dropCandidate?.map fun l => l.tokens.toList
    else
      match l.next? with
      | some l => run? fuel l
      | none => none

end Lexer

/-- The tokens of a text. -/
def Token.ofText? (text : String) : Option (List Token) :=
  let cs := text.toList
  if cs.all isAllowed then Lexer.run? (cs.length + 1) { rest := cs } else none

end Chip8
