import Chip8.Document.Lexer
import Chip8.Hex

/-!
# JSON values and their texts

A JSON value is what a plan is written as most plainly.  Its text (`Json.text`) has no gaps.  Inside
of quotes a character stands for itself where a document may hold it in one line, and is escaped
otherwise, so a text can be read whatever its words are.

One thing can still go wrong.  A document takes a part for a name only if the colon behind it is near,
and a name may be too long for that (`Json.namesFit`).
-/

namespace Chip8

/-- A number that is not written with digits alone: it has a sign, a fraction or an exponent. -/
structure Json.Decimal where
  negative : Bool
  whole : Nat
  /-- The digits behind the point, and no point without any. -/
  fraction : List (Fin 10)
  exponent : Option Int
  marked : negative = true ∨ fraction ≠ [] ∨ exponent ≠ none
  deriving DecidableEq, Repr

/-- A JSON value.  The members of an object stay in their order. -/
inductive Json where
  | null
  | bool (value : Bool)
  /-- A number that is written with digits alone. -/
  | natural (n : Nat)
  | decimal (d : Json.Decimal)
  | string (value : String)
  | array (items : List Json)
  | object (members : List (String × Json))

namespace Json

/-! ## Texts -/

/-- The digits of an exponent behind its letter. -/
def exponentChars (e : Int) : List Char :=
  if e < 0 then '-' :: Nat.toDigits 10 e.natAbs else Nat.toDigits 10 e.natAbs

/-- The characters of a decimal number. -/
def Decimal.chars (d : Decimal) : List Char :=
  (if d.negative then ['-'] else []) ++ Nat.toDigits 10 d.whole ++
    (if d.fraction = [] then [] else '.' :: d.fraction.map fun digit => digit.val.digitChar) ++
    match d.exponent with
    | some e => 'e' :: exponentChars e
    | none => []

/-- The letters that stand for a character behind a backslash. -/
def shortEscapes : List (Char × Char) :=
  [('"', '"'), ('\\', '\\'), ('\x08', 'b'), ('\x0c', 'f'), ('\n', 'n'), ('\r', 'r'), ('\t', 't')]

/-- Whether a character stands for itself in quotes: neither a control character, nor a line end, nor
one of the two code points at the end of the basic plane. -/
def standsRaw (c : Char) : Bool :=
  (' ' ≤ c && c ≤ '~') ||
    ('\u00a0' ≤ c && c ≤ '\ufffd' && c ≠ '\u2028' && c ≠ '\u2029') || 0x10000 ≤ c.toNat

/-- A character as it is written in quotes. -/
def quotedChar (c : Char) : List Char :=
  match shortEscapes.lookup c with
  | some letter => ['\\', letter]
  | none => if standsRaw c then [c] else '\\' :: 'u' :: Hex.digits 4 c.toNat

/-- The characters between the quotes of a string. -/
def escaped (s : String) : List Char := s.toList.flatMap quotedChar

/-- A string with its quotes. -/
def quoted (s : String) : List Char := '"' :: escaped s ++ ['"']

mutual

/-- The characters of a value. -/
def chars : Json → List Char
  | .null => ['n', 'u', 'l', 'l']
  | .bool true => ['t', 'r', 'u', 'e']
  | .bool false => ['f', 'a', 'l', 's', 'e']
  | .natural n => Nat.toDigits 10 n
  | .decimal d => d.chars
  | .string s => quoted s
  | .array items => '[' :: [','].intercalate (itemChars items) ++ [']']
  | .object members => '\x7b' :: [','].intercalate (memberChars members) ++ ['\x7d']

/-- The characters of each item. -/
def itemChars : List Json → List (List Char)
  | [] => []
  | item :: items => chars item :: itemChars items

/-- The characters of each member. -/
def memberChars : List (String × Json) → List (List Char)
  | [] => []
  | (name, value) :: members => (quoted name ++ ':' :: chars value) :: memberChars members

end

/-- The text of a value. -/
def text (v : Json) : String := String.ofList v.chars

/-! ## Names -/

/-- The number of bytes of some characters. -/
def byteCount : List Char → Nat
  | [] => 0
  | c :: cs => c.utf8Size + byteCount cs

/-- Whether a name with its quotes and escapes takes at most 1024 bytes. -/
def nameFits (name : String) : Bool := byteCount (quoted name) ≤ 1024

mutual

/-- Whether all names at all depths of a value are short enough. -/
def namesFit : Json → Bool
  | .array items => namesFitItems items
  | .object members => namesFitMembers members
  | _ => true

/-- Whether all names in some items are short enough. -/
def namesFitItems : List Json → Bool
  | [] => true
  | item :: items => namesFit item && namesFitItems items

/-- Whether all names of some members and in their values are short enough. -/
def namesFitMembers : List (String × Json) → Bool
  | [] => true
  | (name, value) :: members => nameFits name && namesFit value && namesFitMembers members

end

mutual

/-- No object at any depth has two members with one name. -/
def Distinct : Json → Prop
  | .array items => DistinctItems items
  | .object members => (members.map Prod.fst).Nodup ∧ DistinctMembers members
  | _ => True

/-- No object in some items has two members with one name. -/
def DistinctItems : List Json → Prop
  | [] => True
  | item :: items => Distinct item ∧ DistinctItems items

/-- No object in the values of some members has two members with one name. -/
def DistinctMembers : List (String × Json) → Prop
  | [] => True
  | (_, value) :: members => Distinct value ∧ DistinctMembers members

end

end Json
end Chip8
