import Mathlib.Data.List.Forall2
import Chip8.Proofs.Json.Lexing

/-!
# The tokens of a JSON text

A lexer makes the tokens of a value of the characters of the value, wherever the value stands.  One
thing depends on the words in it: the colon behind a name finds it if it is short enough, and
otherwise stands alone (`Json.nameTokens`).
-/

namespace Chip8

open Layout

namespace Json

/-! ## Tokens of values -/

/-- The tokens of the name of a member and of the colon behind it. -/
def nameTokens (name : String) : List Token :=
  if nameFits name then [.name, .scalar ⟨.doubleQuoted, name⟩, .value]
  else [.scalar ⟨.doubleQuoted, name⟩, .value]

mutual

/-- The tokens of a value. -/
def tokens : Json → List Token
  | .string s => [.scalar ⟨.doubleQuoted, s⟩]
  | .array items => .openList :: [.comma].intercalate (itemTokens items) ++ [.closeList]
  | .object members => .openRecord :: [.comma].intercalate (memberTokens members) ++ [.closeRecord]
  | v => [.scalar ⟨.plain, String.ofList v.chars⟩]

/-- The tokens of each item. -/
def itemTokens : List Json → List (List Token)
  | [] => []
  | item :: items => tokens item :: itemTokens items

/-- The tokens of each member. -/
def memberTokens : List (String × Json) → List (List Token)
  | [] => []
  | (name, value) :: members => (nameTokens name ++ tokens value) :: memberTokens members

end

end Json

namespace Lexer

/-! ## Names -/

theorem after_inLine {cs : List Char} (hcs : ∀ c ∈ cs, Json.staysInLine c = true) (p : Place) :
    (p.after cs).line = p.line ∧ (p.after cs).offset = p.offset + Json.byteCount cs := by
  induction cs generalizing p with
  | nil => exact ⟨rfl, rfl⟩
  | cons c cs ih =>
    have hbreak := (Json.staysInLine_iff.mp (hcs c List.mem_cons_self)).2
    have hnext : p.next c = ⟨p.offset + c.utf8Size, p.line, p.column + 1⟩ := by
      rw [Place.next, hbreak]
      rfl
    have hrest := ih (fun d hd => hcs d (List.mem_cons_of_mem c hd)) (p.next c)
    rw [hnext] at hrest
    rw [Place.after, List.foldl_cons, ← Place.after, hnext]
    refine ⟨hrest.1, hrest.2.trans ?_⟩
    rw [Json.byteCount, Nat.add_assoc]

theorem reaches_quoted (name : String) (p : Place) (index : Nat) (required : Bool) :
    Candidate.reaches ⟨p, index, required⟩ (p.after (Json.quoted name)) = Json.nameFits name := by
  have hafter := after_inLine (fun _ (hc : _ ∈ Json.quoted name) => Json.staysInLine_quoted hc) p
  simp [Candidate.reaches, hafter, Candidate.sizeLimit, Json.nameFits]

theorem toList_insert_last {α : Type} (xs : Array α) (a b : α) :
    ((xs.push b).insertIdxIfInBounds xs.size a).toList = xs.toList ++ [a, b] := by
  have hlist (xs : List α) : (xs ++ [b]).insertIdx xs.length a = xs ++ [a, b] := by
    induction xs with
    | nil => rfl
    | cons x xs ih => simp [ih]
  rcases xs with ⟨xs⟩
  simp [hlist]

/-- A name and its colon. -/
theorem passes_name {l : Lexer} (hl : l.Ready) (hbrackets : l.inBrackets = true)
    (hallowed : l.nameAllowed = true) {name : String} {tail : List Char}
    (hrest : l.rest = Json.quoted name ++ ':' :: tail) :
    ∃ l', Passes (Json.quoted name ++ [':']) (Json.nameTokens name) l l' := by
  rcases passes_quoted hl hrest with ⟨m, hm, hplace, hcandidate⟩
  have hmrest : m.rest = ':' :: tail := List.append_cancel_left (hm.rest.symm.trans hrest)
  have hnext := next?_colon (hm.inBrackets.trans hbrackets) hmrest (hcandidate hallowed) rfl
  rw [hplace, reaches_quoted] at hnext
  refine ⟨_, hm.runs.trans (runs_of_next? hm.ready hmrest (by decide) hnext (by simp [take, hmrest])),
    ?_, ?_, hm.outer, hm.ready.margins, rfl⟩
  · simp [take, hrest, hmrest]
  · -- The candidate is the last token, so its mark goes in front of that one.
    have htokens : m.tokens = l.tokens.push (.scalar ⟨.doubleQuoted, name⟩) :=
      Array.toList_inj.mp (by simp [hm.tokens])
    cases hfits : Json.nameFits name with
    | false => simp [take, Json.nameTokens, hfits, htokens]
    | true => simp [take, Json.nameTokens, hfits, htokens, toList_insert_last]

/-! ## Parts between brackets -/

/-- Some characters between brackets have some tokens, wherever a comma or a bracket follows. -/
def IsPart (source : List Char) (ts : List Token) : Prop :=
  ∀ (l : Lexer) (tail : List Char), l.Ready → l.inBrackets = true → l.nameAllowed = true →
    l.rest = source ++ tail → Scalar.EndsPlain true tail → ∃ l', Passes source ts l l'

/-- Parts with commas between them are a part. -/
theorem isPart_joined {sources : List (List Char)} {tss : List (List Token)}
    (h : List.Forall₂ IsPart sources tss) :
    IsPart ([','].intercalate sources) ([.comma].intercalate tss) := by
  induction h with
  | nil => exact fun l _ hl _ _ _ _ => ⟨l, .refl hl⟩
  | @cons source ts sources tss hpart hparts ih =>
    -- A comma stands behind every part but the last one.
    cases hparts with
    | nil => simpa using hpart
    | cons hnext hparts =>
      intro l tail hl hbrackets hallowed hrest htail
      simp only [List.intercalate_cons_cons, List.append_assoc] at hrest ⊢
      rcases hpart l _ hl hbrackets hallowed hrest (.inr ⟨rfl, _, _, rfl, by decide⟩) with ⟨m, hm⟩
      have hmrest := List.append_cancel_left (hm.rest.symm.trans hrest)
      rcases passes_comma hm.ready hmrest with ⟨n, hn, hnallowed⟩
      have hnrest := List.append_cancel_left (hn.rest.symm.trans hmrest)
      have hnbrackets : n.inBrackets = true := by rw [hn.inBrackets, hm.inBrackets, hbrackets]
      rcases ih n tail hn.ready hnbrackets hnallowed hnrest htail with ⟨l', hl'⟩
      exact ⟨l', hm.trans (hn.trans hl')⟩

/-- Brackets around a part. -/
theorem passes_brackets {opening closing : Char} {openToken closeToken : Token}
    (hopen : (opening, openToken) ∈ openings) (hclose : (closing, closeToken) ∈ closings)
    {source : List Char} {ts : List Token} (hpart : IsPart source ts) {l : Lexer} (hl : l.Ready)
    {tail : List Char} (hrest : l.rest = opening :: source ++ [closing] ++ tail) :
    ∃ l', Passes (opening :: source ++ [closing]) (openToken :: ts ++ [closeToken]) l l' := by
  simp only [List.append_assoc, List.cons_append, List.nil_append] at hrest
  rcases opens hl hopen hrest with
    ⟨m, candidate, hlm, hm, hmrest, hmtokens, hmouter, hmallowed, hcandidate⟩
  have hbrackets : m.inBrackets = true := by rw [inBrackets, hmouter]; rfl
  have hends : Scalar.EndsPlain true (closing :: tail) := by
    simp only [closings, List.mem_cons, Prod.mk.injEq, List.not_mem_nil, or_false] at hclose
    rcases hclose with ⟨rfl, _⟩ | ⟨rfl, _⟩
    all_goals exact .inr ⟨rfl, _, tail, rfl, by decide⟩
  rcases hpart m _ hm hbrackets hmallowed hmrest hends with ⟨n, hn⟩
  have hnrest := List.append_cancel_left (hn.rest.symm.trans hmrest)
  rcases closes hn.ready hclose hnrest (hn.outer.trans hmouter) hcandidate with
    ⟨l', hnl', hl', hl'rest, hl'tokens, hl'outer⟩
  refine ⟨l', (hlm.trans hn.runs).trans hnl', ?_, ?_, hl'outer, hl'⟩
  · simp [hrest, hl'rest]
  · simp [hl'tokens, hn.tokens, hmtokens]

/-! ## Values -/

mutual

/-- A lexer goes through a value, whatever it is in and whatever may follow it. -/
theorem passes_value (v : Json) {l : Lexer} (hl : l.Ready) {tail : List Char}
    (hrest : l.rest = v.chars ++ tail) (htail : Scalar.EndsPlain l.inBrackets tail) :
    ∃ l', Passes v.chars v.tokens l l' :=
  match v with
  | .null => passes_plain hl (Json.standsPlain_word (.inl rfl)) hrest htail
  | .bool true => passes_plain hl (Json.standsPlain_word (.inr ⟨true, rfl⟩)) hrest htail
  | .bool false => passes_plain hl (Json.standsPlain_word (.inr ⟨false, rfl⟩)) hrest htail
  | .natural n => passes_plain hl (Json.standsPlain_toDigits n) hrest htail
  | .decimal d => passes_plain hl (Json.standsPlain_decimal d) hrest htail
  | .string s => by
    rcases passes_quoted hl hrest with ⟨l', hl', _⟩
    exact ⟨l', hl'⟩
  | .array items =>
    passes_brackets (by simp [openings]) (by simp [closings]) (isPart_joined (isPart_items items))
      hl hrest
  | .object members =>
    passes_brackets (by simp [openings]) (by simp [closings])
      (isPart_joined (isPart_members members)) hl hrest

theorem isPart_items (items : List Json) :
    List.Forall₂ IsPart (Json.itemChars items) (Json.itemTokens items) :=
  match items with
  | [] => .nil
  | item :: items =>
    .cons (fun _ _ hl hbrackets _ hrest htail =>
      passes_value item hl hrest (hbrackets.symm ▸ htail)) (isPart_items items)

theorem isPart_members (members : List (String × Json)) :
    List.Forall₂ IsPart (Json.memberChars members) (Json.memberTokens members) :=
  match members with
  | [] => .nil
  | (name, value) :: members => by
    refine .cons (fun l tail hl hbrackets hallowed hrest htail => ?_) (isPart_members members)
    simp only [List.append_assoc, List.cons_append] at hrest
    rcases passes_name hl hbrackets hallowed hrest with ⟨m, hm⟩
    have hmrest : m.rest = Json.chars value ++ tail := by
      have hsplit := hm.rest.symm.trans hrest
      simp only [List.append_assoc, List.cons_append, List.nil_append] at hsplit
      exact (List.cons.inj (List.append_cancel_left hsplit)).2
    have hmbrackets : m.inBrackets = true := hm.inBrackets.trans hbrackets
    rcases passes_value value hm.ready hmrest (hmbrackets.symm ▸ htail) with ⟨l', hl'⟩
    refine ⟨l', ?_⟩
    simpa using hm.trans hl'

end

end Lexer

/-! ## Whole texts -/

theorem isAllowed_of_standsPlain {cs : List Char} (h : Json.StandsPlain cs) :
    cs.all isAllowed = true :=
  List.all_eq_true.mpr fun c hc => Scalar.isAllowed_of_isPlainChar (h.goesOn c hc)

theorem isAllowed_quoted (s : String) : (Json.quoted s).all isAllowed = true :=
  List.all_eq_true.mpr fun _ hc => (Json.staysInLine_iff.mp (Json.staysInLine_quoted hc)).1

theorem isAllowed_joined {sources : List (List Char)}
    (h : ∀ source ∈ sources, source.all isAllowed = true) :
    ([','].intercalate sources).all isAllowed = true := by
  induction sources with
  | nil => rfl
  | cons source sources ih =>
    rcases List.forall_mem_cons.mp h with ⟨hsource, hsources⟩
    cases sources with
    | nil => simpa using hsource
    | cons next sources =>
      have hcomma : [','].all isAllowed = true := by decide
      rw [List.intercalate_cons_cons, List.all_append, List.all_append, hsource, hcomma,
        ih hsources]
      rfl

mutual

/-- A JSON text holds no character that has to be escaped. -/
theorem isAllowed_chars (v : Json) : v.chars.all isAllowed = true :=
  match v with
  | .null => by decide
  | .bool true => by decide
  | .bool false => by decide
  | .natural n => isAllowed_of_standsPlain (Json.standsPlain_toDigits n)
  | .decimal d => isAllowed_of_standsPlain (Json.standsPlain_decimal d)
  | .string s => isAllowed_quoted s
  | .array items => by
    have hopen : isAllowed '[' = true := by decide
    have hclose : isAllowed ']' = true := by decide
    simp [Json.chars, hopen, hclose, isAllowed_joined (isAllowed_itemChars items)]
  | .object members => by
    have hopen : isAllowed '\x7b' = true := by decide
    have hclose : isAllowed '\x7d' = true := by decide
    simp [Json.chars, hopen, hclose, isAllowed_joined (isAllowed_memberChars members)]

theorem isAllowed_itemChars (items : List Json) :
    ∀ source ∈ Json.itemChars items, source.all isAllowed = true :=
  match items with
  | [] => nofun
  | item :: items =>
    List.forall_mem_cons.mpr ⟨isAllowed_chars item, isAllowed_itemChars items⟩

theorem isAllowed_memberChars (members : List (String × Json)) :
    ∀ source ∈ Json.memberChars members, source.all isAllowed = true :=
  match members with
  | [] => nofun
  | (name, value) :: members => by
    have hcolon : isAllowed ':' = true := by decide
    refine List.forall_mem_cons.mpr ⟨?_, isAllowed_memberChars members⟩
    rw [List.all_append, isAllowed_quoted, List.all_cons, hcolon, isAllowed_chars value]
    rfl

end

/-- A JSON text has the tokens of its value. -/
theorem Token.ofText?_json (v : Json) : Token.ofText? v.text = some v.tokens := by
  have hready : ({ rest := v.chars } : Lexer).Ready := ⟨rfl, rfl⟩
  rcases Lexer.passes_value v hready (List.append_nil _).symm (.inl rfl) with ⟨l, hl⟩
  have hrest : l.rest = [] := List.append_right_eq_self.mp hl.rest.symm
  rcases hl.runs with ⟨n, hn, hrun⟩
  have hfuel : v.chars.length + 1 = v.chars.length - n + 1 + n := by
    rw [hrest] at hn
    simp only [List.length_nil, Nat.add_zero] at hn
    omega
  have hgap : l.afterGap = l := by
    rw [Lexer.afterGap, hrest, skipGap, ← hrest]
  have hend : l.rest.isEmpty = true := by rw [hrest]; rfl
  rw [Token.ofText?, Json.text, String.toList_ofList]
  simp only [isAllowed_chars, if_true]
  rw [hfuel, hrun, Lexer.run?, hgap, Lexer.dedent_of_ready hl.ready, if_pos hend,
    Lexer.dedentAll_of_ready hl.ready, Lexer.dropCandidate?_of_ready hl.ready]
  simpa using hl.tokens

end Chip8
