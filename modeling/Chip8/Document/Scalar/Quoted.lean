import Chip8.Document.Folding
import Chip8.Document.Scalar.Basic

/-!
# Scalars in quotes

A scalar in quotes is first cut out of a text as it is written, and then understood: its lines are
joined, escapes are resolved in double quotes, and a quote is written twice in single ones.
-/

namespace Chip8
namespace Scalar

open Layout

/-! ## What is written -/

/-- All characters up to a double quote that no backslash stands before.  `passed` holds those so
far, the newest first. -/
def cutDouble? (passed : List Char) : List Char → Option (List Char)
  | [] => none
  | '"' :: _ => some passed.reverse
  | '\\' :: c :: cs => cutDouble? (c :: '\\' :: passed) cs
  | c :: cs => cutDouble? (c :: passed) cs

/-- All characters up to a single quote that is not written twice.  `passed` holds those so far, the
newest first. -/
def cutSingle? (passed : List Char) : List Char → Option (List Char)
  | [] => none
  | '\x27' :: '\x27' :: cs => cutSingle? ('\x27' :: '\x27' :: passed) cs
  | '\x27' :: _ => some passed.reverse
  | c :: cs => cutSingle? (c :: passed) cs

/-! ## What it stands for -/

/-- The letters that stand for a character behind a backslash. -/
def escapes : List (Char × Char) :=
  [('0', '\x00'), ('a', '\x07'), ('b', '\x08'), ('t', '\t'), ('\t', '\t'), ('n', '\n'),
   ('v', '\x0b'), ('f', '\x0c'), ('r', '\r'), ('e', '\x1b'), (' ', ' '), ('"', '"'), ('/', '/'),
   ('\\', '\\'), ('N', '\u0085'), ('_', '\u00a0'), ('L', '\u2028'), ('P', '\u2029')]

/-- The character whose code point the digits give.  The halves of surrogate pairs are none, not
even where two of them follow each other. -/
def ofCodePoint? (digits : List Char) : Option Char :=
  match Numeral.value? 16 digits with
  | some n => if n.isValidChar then some (Char.ofNat n) else none
  | none => none

/-- Resolve the escapes of double quotes.  A line end behind a backslash is no part of the text. -/
def unescape? (f : Folding) : List Char → Option Folding
  | [] => some f
  | '\\' :: 'x' :: a :: b :: cs =>
    match ofCodePoint? [a, b] with
    | some c => unescape? (f.put c) cs
    | none => none
  | '\\' :: 'u' :: a :: b :: c :: d :: cs =>
    match ofCodePoint? [a, b, c, d] with
    | some c => unescape? (f.put c) cs
    | none => none
  | '\\' :: 'U' :: a :: b :: c :: d :: e :: f' :: g :: h :: cs =>
    match ofCodePoint? [a, b, c, d, e, f', g, h] with
    | some c => unescape? (f.put c) cs
    | none => none
  | '\\' :: '\r' :: '\n' :: cs => unescape? f.skipLineEnd cs
  | '\\' :: c :: cs =>
    if isBreak c then unescape? f.skipLineEnd cs
    else
      match escapes.lookup c with
      | some c => unescape? (f.put c) cs
      | none => none
  | '\r' :: '\n' :: cs => unescape? (f.putLineEnd '\n') cs
  | c :: cs => unescape? (f.putAny c) cs

/-- Take one of every two adjacent single quotes. -/
def undouble : List Char → List Char
  | [] => []
  | '\x27' :: '\x27' :: cs => '\x27' :: undouble cs
  | c :: cs => c :: undouble cs

/-! ## Scalars in a text -/

/-- The scalar behind a double quote, and all its characters.  No line of it may look like a
boundary. -/
def doubleQuoted? (cs : List Char) : Option (Scalar × List Char) := do
  let written ← cutDouble? [] cs
  let source := '"' :: written ++ ['"']
  if hasBoundary false source then none
  else
    let folding ← unescape? {} written
    return (⟨.doubleQuoted, String.ofList folding.joined.reverse⟩, source)

/-- The scalar behind a single quote, and all its characters.  No line of it may look like a
boundary. -/
def singleQuoted? (cs : List Char) : Option (Scalar × List Char) := do
  let written ← cutSingle? [] cs
  let source := '\x27' :: written ++ ['\x27']
  if hasBoundary false source then none
  else
    let folding := Folding.putAll {} (undouble written)
    return (⟨.singleQuoted, String.ofList folding.joined.reverse⟩, source)

end Scalar
end Chip8
