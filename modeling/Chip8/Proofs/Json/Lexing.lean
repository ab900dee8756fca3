import Chip8.Proofs.Json.Plain

/-!
# Lexers on JSON texts

A lexer that stands in front of a part of a JSON text goes to its end, and adds its tokens to those
that it has (`Lexer.Passes`).  Between two parts it has no margins, and no name must stand where it is
(`Lexer.Ready`), so it never stops.
-/

namespace Chip8

open Layout

namespace Lexer

/-! ## Running -/

/-- A lexer gets to another one and needs no more fuel for that than it takes characters. -/
def Runs (l l' : Lexer) : Prop :=
  ∃ n, n + l'.rest.length ≤ l.rest.length ∧ ∀ fuel, run? (fuel + n) l = run? fuel l'

theorem Runs.refl (l : Lexer) : Runs l l := ⟨0, by simp, fun _ => rfl⟩

theorem Runs.trans {l l' l'' : Lexer} (h : Runs l l') (h' : Runs l' l'') : Runs l l'' := by
  rcases h with ⟨n, hn, hrun⟩
  rcases h' with ⟨n', hn', hrun'⟩
  refine ⟨n' + n, by omega, fun fuel => ?_⟩
  rw [← Nat.add_assoc, hrun, hrun']

/-- A lexer that stands in no lines and waits for no name. -/
structure Ready (l : Lexer) : Prop where
  margins : l.margins = []
  candidate : l.candidate.any Candidate.required = false

/-- A character that is no part of a gap. -/
def startsToken (c : Char) : Bool := !(isGap c || c = '#' || c = '\ufeff')

theorem dedent_of_ready {l : Lexer} (hl : l.Ready) : l.dedent = l := by
  rcases l with ⟨place, rest, tokens, margins, candidate, outer, nameAllowed, anchors, declarations⟩
  obtain rfl : margins = [] := hl.margins
  simp [dedent]

theorem dedentAll_of_ready {l : Lexer} (hl : l.Ready) : l.dedentAll = l := by
  rcases l with ⟨place, rest, tokens, margins, candidate, outer, nameAllowed, anchors, declarations⟩
  obtain rfl : margins = [] := hl.margins
  simp [dedentAll]

theorem afterGap_of_startsToken {l : Lexer} {c : Char} {cs : List Char} (hrest : l.rest = c :: cs)
    (hc : startsToken c = true) : l.afterGap = l := by
  simp only [startsToken, isGap, isBlank, Bool.not_eq_true', Bool.or_eq_false_iff,
    decide_eq_false_iff_not] at hc
  rcases hc with ⟨⟨⟨⟨hblank, htab⟩, hbreak⟩, hcomment⟩, hmark⟩
  have hskip : skipGap l.inBrackets false l.nameAllowed l.place l.rest =
      ⟨l.nameAllowed, l.place, l.rest⟩ := by
    simp [hrest, skipGap, hblank, htab, hbreak, hcomment, hmark]
  rw [afterGap, hskip]

theorem runs_of_next? {l l' : Lexer} (hl : l.Ready) {c : Char} {cs : List Char}
    (hrest : l.rest = c :: cs) (hc : startsToken c = true) (hnext : l.next? = some l')
    (hless : l'.rest.length < l.rest.length) : Runs l l' := by
  refine ⟨1, by omega, fun fuel => ?_⟩
  have hsome : l.rest.isEmpty = false := by rw [hrest]; rfl
  simp [run?, afterGap_of_startsToken hrest hc, dedent_of_ready hl, hsome, hnext]

/-! ## One token -/

/-- A lexer goes to the end of some characters and adds some tokens. -/
structure Passes (source : List Char) (ts : List Token) (l l' : Lexer) : Prop where
  runs : Runs l l'
  rest : l.rest = source ++ l'.rest
  tokens : l'.tokens.toList = l.tokens.toList ++ ts
  outer : l'.outer = l.outer
  ready : l'.Ready

theorem Passes.refl {l : Lexer} (hl : l.Ready) : Passes [] [] l l :=
  ⟨.refl l, rfl, (List.append_nil _).symm, rfl, hl⟩

theorem Passes.trans {source source' : List Char} {ts ts' : List Token} {l l' l'' : Lexer}
    (h : Passes source ts l l') (h' : Passes source' ts' l' l'') :
    Passes (source ++ source') (ts ++ ts') l l'' where
  runs := h.runs.trans h'.runs
  rest := by rw [h.rest, h'.rest, List.append_assoc]
  tokens := by rw [h'.tokens, h.tokens, List.append_assoc]
  outer := h'.outer.trans h.outer
  ready := h'.ready

theorem Passes.inBrackets {source : List Char} {ts : List Token} {l l' : Lexer}
    (h : Passes source ts l l') : l'.inBrackets = l.inBrackets := by
  rw [Lexer.inBrackets, Lexer.inBrackets, h.outer]

theorem noteCandidate?_of_ready {l : Lexer} (hl : l.Ready) :
    ∃ candidate, l.noteCandidate? = some { l with candidate } ∧
      candidate.any Candidate.required = false ∧
      (l.nameAllowed = true → candidate = some ⟨l.place, l.tokens.size, false⟩) := by
  by_cases hallowed : l.nameAllowed = true
  · refine ⟨some ⟨l.place, l.tokens.size, false⟩, ?_, rfl, fun _ => rfl⟩
    simp [noteCandidate?, dropCandidate?, hallowed, hl.margins, hl.candidate]
  · exact ⟨l.candidate, by rw [noteCandidate?, if_neg hallowed], hl.candidate,
      fun h => absurd h hallowed⟩

theorem dropCandidate?_of_ready {l : Lexer} (hl : l.Ready) :
    l.dropCandidate? = some { l with candidate := none } := by
  simp [dropCandidate?, hl.candidate]

theorem passes_take {l : Lexer} (hl : l.Ready) {c : Char} {cs tail : List Char} {token : Token}
    {candidate : Option Candidate} {nameAllowed : Bool} (hrest : l.rest = c :: (cs ++ tail))
    (hc : startsToken c = true) (hcandidate : candidate.any Candidate.required = false)
    (hnext : l.next? = some ({ l with candidate, nameAllowed }.take token (c :: cs))) :
    Passes (c :: cs) [token] l ({ l with candidate, nameAllowed }.take token (c :: cs)) where
  runs := by
    have hless : (l.rest.drop (c :: cs).length).length < l.rest.length := by
      rw [List.length_drop, hrest, List.length_cons, List.length_cons, List.length_append]
      omega
    exact runs_of_next? hl hrest hc hnext hless
  rest := by simp [take, hrest]
  tokens := by simp [take]
  outer := rfl
  ready := ⟨hl.margins, hcandidate⟩

theorem next?_plain {l : Lexer} {cs tail : List Char} (hcs : Json.StandsPlain cs)
    (hrest : l.rest = cs ++ tail) : l.next? = l.plain? := by
  have hboundary := hcs.noBoundary tail
  have hstarts := Scalar.startsPlain_append hcs.starts tail
  have hgoesOn := hcs.goesOn
  rcases cs with _ | ⟨c, cs⟩
  · cases hcs.starts
  · rw [List.cons_append] at hrest hboundary hstarts
    have hc := hgoesOn c List.mem_cons_self
    have hpercent : (decide (l.place.column = 0) && decide (some c = some '%')) = false := by
      have hne : c ≠ '%' := by
        rintro rfl
        exact absurd hc (by decide)
      simp [hne]
    simp only [next?, hrest, hboundary, hpercent, List.head?_cons, List.tail_cons, Bool.and_false,
      Bool.false_eq_true, if_false]
    split
    -- A hyphen is the one sign that may start a scalar, if it does not stand alone.
    case h_6 heq =>
      obtain rfl := Option.some.inj heq
      have halone : startsGap (cs ++ tail) = false := by simpa [Scalar.startsPlain] using hstarts
      rw [halone, if_neg Bool.false_ne_true]
    case h_16 => rfl
    -- No other character that means something is part of a scalar wherever it stands.
    all_goals
      rename_i heq
      obtain rfl := Option.some.inj heq
      exact absurd hc (by decide)

/-- A plain scalar. -/
theorem passes_plain {l : Lexer} (hl : l.Ready) {cs tail : List Char} (hcs : Json.StandsPlain cs)
    (hrest : l.rest = cs ++ tail) (htail : Scalar.EndsPlain l.inBrackets tail) :
    ∃ l', Passes cs [.scalar ⟨.plain, String.ofList cs⟩] l l' := by
  rcases noteCandidate?_of_ready hl with ⟨candidate, hnote, hcandidate, _⟩
  -- Without margins there is no column that further lines would have to reach.
  have hcut : Scalar.plain? (!l.outer.isEmpty) 0 l.place.column (cs ++ tail) =
      some (⟨.plain, String.ofList cs⟩, cs) := Scalar.plain?_append hcs htail 0 l.place.column
  -- No gap is passed with the scalar, so its line is not over.
  have hends : Scalar.endsLine cs = false := by
    refine List.any_eq_false.mpr fun c hc => ?_
    have hmem : c ∈ cs := List.mem_reverse.mp ((List.takeWhile_sublist _).subset hc)
    rw [(Scalar.isPlainChar_spec (hcs.goesOn c hmem)).1]
    exact Bool.false_ne_true
  have hnext : l.next? = some ({ l with candidate, nameAllowed := false }.take
      (.scalar ⟨.plain, String.ofList cs⟩) cs) := by
    rw [next?_plain hcs hrest, plain?, hnote]
    simp [hl.margins, inBrackets, hrest, hcut, hends]
  rcases cs with _ | ⟨c, cs⟩
  · cases hcs.starts
  · rcases Scalar.isPlainChar_spec (hcs.goesOn c List.mem_cons_self) with
      ⟨hbreak, hblank, _, _, hcomment, hmark⟩
    have hc : startsToken c = true := by simp [startsToken, isGap, hbreak, hblank, hcomment, hmark]
    exact ⟨_, passes_take hl hrest hc hcandidate hnext⟩

/-- A string.  Where a name may stand, it may be one. -/
theorem passes_quoted {l : Lexer} (hl : l.Ready) {s : String} {tail : List Char}
    (hrest : l.rest = Json.quoted s ++ tail) :
    ∃ l', Passes (Json.quoted s) [.scalar ⟨.doubleQuoted, s⟩] l l' ∧
      l'.place = l.place.after (Json.quoted s) ∧
      (l.nameAllowed = true → l'.candidate = some ⟨l.place, l.tokens.size, false⟩) := by
  rcases noteCandidate?_of_ready hl with ⟨candidate, hnote, hcandidate, hname⟩
  have hcut := Scalar.doubleQuoted?_quoted s tail
  have hnext : l.next? = some ({ l with candidate, nameAllowed := false }.take
      (.scalar ⟨.doubleQuoted, s⟩) (Json.quoted s)) := by
    have hquoted : l.next? = l.quoted? Scalar.doubleQuoted? := by
      rw [Json.quoted, List.cons_append, List.cons_append] at hrest
      simp [next?, hrest, Json.startsBoundary_of_first]
    rw [hquoted, quoted?, hnote]
    simp [hrest, hcut]
  exact ⟨_, passes_take hl hrest (by decide) hcandidate hnext, rfl, hname⟩

/-- A comma, behind which a name may stand. -/
theorem passes_comma {l : Lexer} (hl : l.Ready) {tail : List Char} (hrest : l.rest = ',' :: tail) :
    ∃ l', Passes [','] [.comma] l l' ∧ l'.nameAllowed = true := by
  have hnext : l.next? = some ({ l with candidate := none, nameAllowed := true }.take
      .comma [',']) := by
    have hcomma : l.next? = l.comma? := by
      simp [next?, hrest, Json.startsBoundary_of_first]
    rw [hcomma, comma?, dropCandidate?_of_ready hl]
    rfl
  exact ⟨_, passes_take hl hrest (by decide) rfl hnext, rfl⟩

/-! ## Brackets -/

/-- The opening brackets and their tokens. -/
def openings : List (Char × Token) := [('[', .openList), ('\x7b', .openRecord)]

/-- The closing brackets and their tokens. -/
def closings : List (Char × Token) := [(']', .closeList), ('\x7d', .closeRecord)]

theorem next?_opening {l : Lexer} {c : Char} {cs : List Char} {token : Token}
    (hc : (c, token) ∈ openings) (hrest : l.rest = c :: cs) :
    startsToken c = true ∧ l.next? = l.openBracket? token := by
  simp only [openings, List.mem_cons, Prod.mk.injEq, List.not_mem_nil, or_false] at hc
  rcases hc with ⟨rfl, rfl⟩ | ⟨rfl, rfl⟩
  all_goals exact ⟨by decide, by simp [next?, hrest, Json.startsBoundary_of_first]⟩

theorem next?_closing {l : Lexer} {c : Char} {cs : List Char} {token : Token}
    (hc : (c, token) ∈ closings) (hrest : l.rest = c :: cs) :
    startsToken c = true ∧ l.next? = l.closeBracket? token := by
  simp only [closings, List.mem_cons, Prod.mk.injEq, List.not_mem_nil, or_false] at hc
  rcases hc with ⟨rfl, rfl⟩ | ⟨rfl, rfl⟩
  all_goals exact ⟨by decide, by simp [next?, hrest, Json.startsBoundary_of_first]⟩

/-- Behind an opening bracket a name may stand.  What may be a name around it is kept. -/
theorem opens {l : Lexer} (hl : l.Ready) {c : Char} {cs : List Char} {token : Token}
    (hc : (c, token) ∈ openings) (hrest : l.rest = c :: cs) :
    ∃ m candidate, Runs l m ∧ m.Ready ∧ m.rest = cs ∧
      m.tokens.toList = l.tokens.toList ++ [token] ∧ m.outer = candidate :: l.outer ∧
      m.nameAllowed = true ∧ candidate.any Candidate.required = false := by
  rcases next?_opening hc hrest with ⟨hstarts, hnext⟩
  rcases noteCandidate?_of_ready hl with ⟨candidate, hnote, hcandidate, _⟩
  have hopen : l.next? = some ({ l with
      outer := candidate :: l.outer
      candidate := none
      nameAllowed := true }.take token [c]) := by
    rw [hnext, openBracket?, hnote]
    simp [hrest]
  refine ⟨_, candidate, runs_of_next? hl hrest hstarts hopen ?_, ⟨hl.margins, rfl⟩, ?_, ?_, rfl,
    rfl, hcandidate⟩
  all_goals simp [take, hrest]

/-- Behind a closing bracket what may be a name is what it was in front of the opening one. -/
theorem closes {l : Lexer} (hl : l.Ready) {c : Char} {cs : List Char} {token : Token}
    (hc : (c, token) ∈ closings) (hrest : l.rest = c :: cs) {candidate : Option Candidate}
    {outer : List (Option Candidate)} (houter : l.outer = candidate :: outer)
    (hcandidate : candidate.any Candidate.required = false) :
    ∃ m, Runs l m ∧ m.Ready ∧ m.rest = cs ∧ m.tokens.toList = l.tokens.toList ++ [token] ∧
      m.outer = outer := by
  rcases next?_closing hc hrest with ⟨hstarts, hnext⟩
  have hclose : l.next? = some ({ l with outer, candidate, nameAllowed := false }.take token
      [c]) := by
    rw [hnext, closeBracket?, houter]
    simp [hrest]
  refine ⟨_, runs_of_next? hl hrest hstarts hclose ?_, ⟨hl.margins, hcandidate⟩, ?_, ?_, rfl⟩
  all_goals simp [take, hrest]

/-! ## Colons -/

/-- A colon puts the mark of a name in front of the candidate that it reaches. -/
theorem next?_colon {l : Lexer} (hbrackets : l.inBrackets = true) {tail : List Char}
    (hrest : l.rest = ':' :: tail) {c : Candidate} (hc : l.candidate = some c)
    (hrequired : c.required = false) :
    l.next? = some ({ l with
      candidate := none
      nameAllowed := false
      tokens := if c.reaches l.place then l.tokens.insertIdxIfInBounds c.index .name
        else l.tokens }.take .value [':']) := by
  have hcolon : l.next? = l.colon? := by
    simp [next?, hrest, Json.startsBoundary_of_first, hbrackets]
  rw [hcolon, colon?, hc]
  have houter : (!l.outer.isEmpty) = true := hbrackets
  by_cases hreaches : c.reaches l.place = true
  · simp only [if_pos hreaches, indent, inBrackets, houter, Bool.true_or, if_true]
  · simp only [if_neg hreaches, hrequired, colonAlone?, indentHere?, inBrackets, houter,
      Bool.false_eq_true, if_false, if_true, Option.map_some, Bool.not_true]

end Lexer
end Chip8
