import Chip8.Document.Layout
import Chip8.Numeral

/-!
# Tags

A tag says of what type a value is.  It is written in full between angle brackets, or behind an
exclamation mark, or behind a handle: a short name that stands for how the tag begins.
-/

namespace Chip8

open Layout

/-- A tag as it is written: its handle, which is empty if it stands for itself, what follows the
handle, and all its characters. -/
structure Tag where
  handle : String
  rest : String
  source : List Char
  deriving DecidableEq, Repr

namespace Tag

/-! ## Known tags -/

/-- How the tags of the usual types begin. -/
def usual : String := "tag:yaml.org,2002:"

def null : String := usual ++ "null"
def bool : String := usual ++ "bool"
def int : String := usual ++ "int"

/-- The handles that need not be declared. -/
def commonHandles : List (String × String) := [("!", "!"), ("!!", usual)]

/-! ## Characters -/

/-- A character of a tag.  Brackets and commas are among them where nothing else can be meant. -/
def isTagChar (bracketsToo : Bool) (c : Char) : Bool :=
  isWordChar c ||
    [';', '/', '?', ':', '@', '&', '=', '+', '$', '.', '%', '!', '~', '*', '\x27', '(',
      ')'].contains c ||
    (bracketsToo && [',', '[', ']'].contains c)

/-- The number of octets of a character that begins with an octet. -/
def octetCount? (octet : Nat) : Option Nat :=
  if octet < 0x80 then some 1
  else if octet < 0xc0 then none
  else if octet < 0xe0 then some 2
  else if octet < 0xf0 then some 3
  else if octet < 0xf8 then some 4
  else none

/-- Resolve the octets that are written as a percent sign and two digits.  Each becomes the
character with its number.  `missing` counts those that the last character still lacks. -/
def unescape? (missing : Nat) : List Char → Option (List Char)
  | [] => if missing = 0 then some [] else none
  | '%' :: a :: b :: cs => do
    let octet ← Numeral.value? 16 [a, b]
    if missing = 0 then
      let count ← octetCount? octet
      return Char.ofNat octet :: (← unescape? (count - 1) cs)
    else if 0x80 ≤ octet && octet < 0xc0 then
      return Char.ofNat octet :: (← unescape? (missing - 1) cs)
    else none
  | c :: cs => if c = '%' || missing ≠ 0 then none else (unescape? 0 cs).map (c :: ·)

/-- The text of some characters of a tag, which ends before a null character. -/
def text? (written : List Char) : Option String :=
  (unescape? 0 written).map fun cs => String.ofList (cs.takeWhile (· ≠ '\x00'))

/-! ## Tags in a text -/

/-- The tag between angle brackets, behind the first of them. -/
def ofVerbatim? (cs : List Char) : Option Tag := do
  let written := cs.takeWhile (isTagChar true)
  if written.isEmpty || (cs.drop written.length).head? ≠ some '>' then none
  else return ⟨"", ← text? written, '!' :: '<' :: written ++ ['>']⟩

/-- The tag behind a handle, where both follow an exclamation mark. -/
def ofHandle? (name cs : List Char) : Option Tag := do
  let written := cs.takeWhile (isTagChar false)
  let handle := '!' :: name ++ ['!']
  if written.isEmpty then none
  else return ⟨String.ofList handle, ← text? written, handle ++ written⟩

/-- The tag behind an exclamation mark alone.  If it is empty, the mark is the tag. -/
def ofMark? (cs : List Char) : Option Tag := do
  let written := cs.takeWhile (isTagChar false)
  let rest ← text? written
  return if rest.isEmpty then ⟨"", "!", '!' :: written⟩ else ⟨"!", rest, '!' :: written⟩

/-- The tag at the front of a text. -/
def cut? : List Char → Option Tag
  | '!' :: '<' :: cs => ofVerbatim? cs
  | '!' :: cs =>
    let name := cs.takeWhile isWordChar
    match cs.drop name.length with
    | '!' :: cs => ofHandle? name cs
    | _ => ofMark? cs
  | _ => none

/-- The tag that is meant where some handles are declared. -/
def resolve? (declared : List (String × String)) (tag : Tag) : Option String :=
  if tag.handle.isEmpty then some tag.rest
  else ((declared ++ commonHandles).lookup tag.handle).map (· ++ tag.rest)

end Tag
end Chip8
