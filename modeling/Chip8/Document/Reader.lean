import Chip8.Document.Lexer
import Chip8.Document.Node

/-!
# Reading documents

A document is written with brackets, lists in square ones and records in curly ones, or without,
items behind hyphens and names in front of colons.  A comma may follow the last part between
brackets, a name may go without a value, and a pair may stand in a list as a record of its own.  In
front of a value stand its properties: an anchor, by which it can be repeated, and a tag.  A JSON
text is such a document if its names are short, each in one line with its colon, and if no character
is escaped as a surrogate pair.

A reader takes a value from the front of some tokens and gives back the rest.  Values nest, so the
readers carry fuel.  No more than five of them call each other before one passes a token, so five
times the number of tokens is enough.
-/

namespace Chip8
namespace Node

/-- The properties at the front of some tokens: an anchor and a tag in either order, if any. -/
def takeProperties : List Token → Properties × List Token
  | .anchor anchor :: .tag tag :: ts => ({ anchor, tag }, ts)
  | .tag tag :: .anchor anchor :: ts => ({ anchor, tag }, ts)
  | .anchor anchor :: ts => ({ anchor }, ts)
  | .tag tag :: ts => ({ tag }, ts)
  | ts => ({}, ts)

/-! ## Readers

In each, `taken` holds what is read of a list or a record so far, the newest first. -/

mutual

/-- A value.  Behind a property it may be left out. -/
def take? : Nat → (inside : Surroundings) → List Token → Option (Node × List Token)
  | 0, _, _ => none
  | _ + 1, _, .alias number :: ts => some (.alias number, ts)
  | fuel + 1, inside, tokens =>
    let (properties, ts) := takeProperties tokens
    if !ts.head?.any (Token.startsValue inside) then
      if properties = {} then none else some (.scalar properties .blank, ts)
    else
      match ts with
      | .scalar s :: ts => some (.scalar properties s, ts)
      | .openList :: ts =>
        (takeItems? fuel [] ts).map fun (items, ts) => (.list properties items, ts)
      | .openRecord :: ts =>
        (takeMembers? fuel [] ts).map fun (members, ts) => (.record properties members, ts)
      | .indentList :: ts =>
        (takeItemLines? fuel true [] ts).map fun (items, ts) => (.list properties items, ts)
      | .indentRecord :: ts =>
        (takeMemberLines? fuel [] ts).map fun (members, ts) => (.record properties members, ts)
      | .item :: _ =>
        (takeItemLines? fuel false [] ts).map fun (items, ts) => (.list properties items, ts)
      | _ => if properties = {} then none else some (.scalar properties .blank, ts)

/-- A value that may be left out. -/
def takeOptional? : Nat → (inside : Surroundings) → List Token → Option (Node × List Token)
  | 0, _, _ => none
  | fuel + 1, inside, tokens =>
    if tokens.head?.any (Token.startsValue inside) then take? fuel inside tokens
    else some (blank, tokens)

/-- A colon and a value behind it, each of which may be left out. -/
def takeValue? : Nat → (inside : Surroundings) → List Token → Option (Node × List Token)
  | 0, _, _ => none
  | fuel + 1, inside, tokens =>
    match tokens with
    | .value :: ts => takeOptional? fuel inside ts
    | ts => some (blank, ts)

/-- A name and its value, each of which may be left out. -/
def takePair? : Nat → (inside : Surroundings) → List Token → Option ((Node × Node) × List Token)
  | 0, _, _ => none
  | fuel + 1, inside, tokens =>
    match takeOptional? fuel inside tokens with
    | some (name, ts) => (takeValue? fuel inside ts).map fun (value, ts) => ((name, value), ts)
    | none => none

/-- An item between brackets, which may be a pair.  Where the name of a pair is left out, the mark
that stands in its place is passed over with it. -/
def takeItem? : Nat → List Token → Option (Node × List Token)
  | 0, _ => none
  | fuel + 1, tokens =>
    match tokens with
    | .name :: t :: ts =>
      if [.value, .comma, .closeList].contains t then
        (takeValue? fuel .brackets ts).map fun (value, ts) => (ofPair (blank, value), ts)
      else (takePair? fuel .brackets (t :: ts)).map fun (pair, ts) => (ofPair pair, ts)
    | ts => take? fuel .brackets ts

/-- The items of a list up to its closing bracket. -/
def takeItems? : Nat → (taken : List Node) → List Token → Option (List Node × List Token)
  | 0, _, _ => none
  | fuel + 1, taken, tokens =>
    match tokens with
    | .closeList :: ts => some (taken.reverse, ts)
    | tokens =>
      match takeItem? fuel tokens with
      | some (item, .closeList :: ts) => some ((item :: taken).reverse, ts)
      | some (item, .comma :: ts) => takeItems? fuel (item :: taken) ts
      | _ => none

/-- A member between brackets, which may be a name alone. -/
def takeMember? : Nat → List Token → Option ((Node × Node) × List Token)
  | 0, _ => none
  | fuel + 1, tokens =>
    match tokens with
    | .name :: ts => takePair? fuel .brackets ts
    | ts => (take? fuel .brackets ts).map fun (name, ts) => ((name, blank), ts)

/-- The members of a record up to its closing bracket. -/
def takeMembers? : Nat → (taken : List (Node × Node)) → List Token →
    Option (List (Node × Node) × List Token)
  | 0, _, _ => none
  | fuel + 1, taken, tokens =>
    match tokens with
    | .closeRecord :: ts => some (taken.reverse, ts)
    | tokens =>
      match takeMember? fuel tokens with
      | some (member, .closeRecord :: ts) => some ((member :: taken).reverse, ts)
      | some (member, .comma :: ts) => takeMembers? fuel (member :: taken) ts
      | _ => none

/-- The items of a list without brackets.  The flag says whether its end is marked. -/
def takeItemLines? : Nat → (indented : Bool) → (taken : List Node) → List Token →
    Option (List Node × List Token)
  | 0, _, _, _ => none
  | fuel + 1, indented, taken, tokens =>
    match tokens, indented with
    | .item :: ts, _ =>
      match takeOptional? fuel .lines ts with
      | some (item, ts) => takeItemLines? fuel indented (item :: taken) ts
      | none => none
    | .dedent :: ts, true => some (taken.reverse, ts)
    | _, true => none
    | ts, false => some (taken.reverse, ts)

/-- The members of a record without brackets. -/
def takeMemberLines? : Nat → (taken : List (Node × Node)) → List Token →
    Option (List (Node × Node) × List Token)
  | 0, _, _ => none
  | fuel + 1, taken, tokens =>
    match tokens with
    | .name :: ts =>
      match takePair? fuel .members ts with
      | some (member, ts) => takeMemberLines? fuel (member :: taken) ts
      | none => none
    | .dedent :: ts => some (taken.reverse, ts)
    | _ => none

end

/-! ## Whole texts -/

/-- The node at the front of all tokens of a text.  It may be left out behind the start of the
document, which may not be left out behind directives. -/
def takeRoot? (tokens : List Token) : Option (Node × List Token) :=
  let fuel := 5 * tokens.length + 5
  match tokens with
  | [] => some (blank, [])
  | .directive :: ts =>
    match ts.dropWhile (· == .directive) with
    | .start :: ts => takeOptional? fuel .lines ts
    | _ => none
  | .start :: ts => takeOptional? fuel .lines ts
  | ts => take? fuel .lines ts

/-- The document that a text stands for.  A text holds one document at most, behind which nothing
but its finish may stand. -/
def ofText? (text : String) : Option Node := do
  let tokens ← Token.ofText? text
  let (root, rest) ← takeRoot? tokens
  if rest.all (· == .finish) then return root else none

end Node
end Chip8
