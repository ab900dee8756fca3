import Chip8.Proofs.Json.Quoted

/-!
# Words and numbers without quotes

A word or a number of a JSON text is a plain scalar, and none of its characters could be anything else
than a part of it (`Json.StandsPlain`).  So it is cut out of a text right before the comma or bracket
behind it (`Scalar.plain?_append`).  What it says is what was written: digits alone are read as their
number, and a sign, a point or an exponent makes mere words of a number.
-/

namespace Chip8

open Layout

/-! ## Digits in base ten -/

namespace Numeral

theorem digit?_digitChar {d : Nat} (hd : d < 10) : digit? 10 (Nat.digitChar d) = some d := by
  revert d
  decide

theorem value?_toDigits (n : Nat) : value? 10 (Nat.toDigits 10 n) = some n := by
  have hfold : (Nat.toDigits 10 n).foldlM (fun n c => (digit? 10 c).map (n * 10 + ·)) 0 =
      some n := by
    -- The last digit comes off the end, and the induction is on the number without it.
    induction n using Nat.strongRecOn with
    | ind n ih =>
      by_cases hn : n < 10
      · simp [Nat.toDigits_of_lt_base hn, digit?_digitChar hn]
      · have hlast : n % 10 < 10 := Nat.mod_lt n (by decide)
        have hsplit : n / 10 * 10 + n % 10 = n := Nat.div_add_mod' n 10
        rw [Nat.toDigits_of_base_le (by decide) (Nat.le_of_not_lt hn), List.foldlM_append,
          ih (n / 10) (by omega)]
        simp [digit?_digitChar hlast, hsplit]
  have hsome : (Nat.toDigits 10 n).isEmpty = false :=
    List.isEmpty_eq_false_iff.mpr Nat.toDigits_ne_nil
  rw [value?, hsome, if_neg Bool.false_ne_true, hfold]

theorem value?_of_mem {base : Nat} {cs : List Char} {c : Char} (hc : c ∈ cs)
    (h : digit? base c = none) : value? base cs = none := by
  have hfold (start : Nat) :
      cs.foldlM (fun n c => (digit? base c).map (n * base + ·)) start = none := by
    induction cs generalizing start with
    | nil => cases hc
    | cons d cs ih =>
      rw [List.foldlM_cons]
      rcases List.mem_cons.mp hc with rfl | hcs
      · simp [h]
      · cases digit? base d with
        | none => rfl
        | some digit => exact ih hcs _
  rw [value?, hfold, ite_self]

/-- The digits of a number start with no needless zero. -/
theorem toDigits_eq_cons (n : Nat) : ∃ d cs, d < 10 ∧ (0 < n → 0 < d) ∧ (n < 10 → cs = []) ∧
    Nat.toDigits 10 n = Nat.digitChar d :: cs := by
  induction n using Nat.strongRecOn with
  | ind n ih =>
    by_cases hn : n < 10
    · exact ⟨n, [], hn, id, fun _ => rfl, Nat.toDigits_of_lt_base hn⟩
    · rcases ih (n / 10) (by omega) with ⟨d, cs, hd, hpos, _, hdigits⟩
      refine ⟨d, cs ++ [Nat.digitChar (n % 10)], hd, fun _ => hpos (by omega),
        fun h => absurd h hn, ?_⟩
      rw [Nat.toDigits_of_base_le (by decide) (Nat.le_of_not_lt hn), hdigits, List.cons_append]

end Numeral

/-! ## What a word says -/

namespace Scalar

/-- What starts like a number is no truth value, and it does not stand for nothing. -/
theorem plainValue_of_numeral {c : Char} {cs : List Char} (h : c.isDigit = true ∨ c = '-') :
    plainValue (String.ofList (c :: cs)) = numberOrText (String.ofList (c :: cs)) := by
  have hother (words : List String)
      (hwords : (words.all fun word =>
        word.toList.head?.any fun d => !d.isDigit && d ≠ '-') = true) :
      words.contains (String.ofList (c :: cs)) = false := by
    rw [Bool.eq_false_iff]
    intro hmem
    have hfirst := List.all_eq_true.mp hwords _ (List.contains_iff_mem.mp hmem)
    simp only [String.toList_ofList, List.head?_cons, Option.any_some, Bool.and_eq_true,
      Bool.not_eq_true', decide_eq_true_eq] at hfirst
    rcases h with h | h
    · exact Bool.false_ne_true (hfirst.1.symm.trans h)
    · exact hfirst.2 h
  have hnull : isNull (String.ofList (c :: cs)) = false := hother _ (by decide)
  have hflag : flag? (String.ofList (c :: cs)) = none := by
    rw [flag?, hother _ (by decide), hother _ (by decide)]
    rfl
  have hsome : (String.ofList (c :: cs)).isEmpty = false := by
    rw [String.isEmpty_eq_false_iff]
    intro hempty
    have hlist := congrArg String.toList hempty
    rw [String.toList_ofList] at hlist
    cases hlist
  simp only [plainValue, hsome, hnull, hflag, Bool.false_eq_true, if_false]

theorem isDigit_digitChar {d : Nat} (hd : d < 10) : (Nat.digitChar d).isDigit = true := by
  revert d
  decide

theorem number?_of_ne {c : Char} {cs : List Char} (hplus : c ≠ '+') (hzero : c ≠ '0') :
    number? (String.ofList (c :: cs)) = Numeral.value? 10 (c :: cs) := by
  simp [number?, Numeral.afterPlus, hplus, hzero]

theorem number?_zero (c : Char) (cs : List Char) (h : c = '.' ∨ c = 'e') :
    number? (String.ofList ('0' :: c :: cs)) = none := by
  rcases h with rfl | rfl <;> simp [number?, Numeral.afterPlus]

theorem digitChar_ne {d : Nat} (hd : d < 10) : Nat.digitChar d ≠ '-' ∧ Nat.digitChar d ≠ '.' ∧
    Nat.digitChar d ≠ '+' ∧ (0 < d → Nat.digitChar d ≠ '0') := by
  revert d
  decide

theorem plainValue_natural (n : Nat) :
    plainValue (String.ofList (Nat.toDigits 10 n)) = .number n := by
  rcases Numeral.toDigits_eq_cons n with ⟨d, cs, hd, hpos, hone, hdigits⟩
  have hnumber : number? (String.ofList (Nat.toDigits 10 n)) = some n := by
    rcases Nat.eq_zero_or_pos n with rfl | hn
    · rfl
    · have hfirst := digitChar_ne hd
      rw [hdigits, number?_of_ne hfirst.2.2.1 (hfirst.2.2.2 (hpos hn)), ← hdigits,
        Numeral.value?_toDigits]
  rw [hdigits] at hnumber ⊢
  rw [plainValue_of_numeral (.inl (isDigit_digitChar hd)), numberOrText, hnumber]

end Scalar

namespace Json

/-- A decimal number starts with its sign, or what follows its whole part is no digit. -/
theorem Decimal.chars_cases (d : Decimal) :
    (∃ cs, d.chars = '-' :: (Nat.toDigits 10 d.whole ++ cs)) ∨
      ∃ c cs, (c = '.' ∨ c = 'e') ∧ d.chars = Nat.toDigits 10 d.whole ++ c :: cs := by
  rcases d with ⟨negative, whole, fraction, exponent, marked⟩
  cases negative with
  | true =>
    left
    exact ⟨_, by simp only [Decimal.chars, if_true, List.append_assoc, List.singleton_append]; rfl⟩
  | false =>
    right
    cases fraction with
    | cons digit fraction =>
      exact ⟨'.', _, .inl rfl, by
        simp only [Decimal.chars, Bool.false_eq_true, if_false, List.nil_append, List.append_assoc,
          List.cons_ne_nil, List.cons_append]; rfl⟩
    | nil =>
      cases exponent with
      | some e =>
        exact ⟨'e', _, .inr rfl, by
          simp only [Decimal.chars, Bool.false_eq_true, if_false, if_true, List.nil_append,
            List.append_assoc]; rfl⟩
      | none => simp at marked

end Json

namespace Scalar

open Json

theorem number?_decimal (d : Decimal) : number? (String.ofList d.chars) = none := by
  rcases d.chars_cases with ⟨cs, hchars⟩ | ⟨c, cs, hc, hchars⟩
  · rw [hchars, number?_of_ne (by decide) (by decide)]
    exact Numeral.value?_of_mem List.mem_cons_self (by decide)
  · have hdigit : Numeral.digit? 10 c = none := by
      rcases hc with rfl | rfl <;> decide
    rw [hchars]
    rcases Nat.eq_zero_or_pos d.whole with hzero | hwhole
    · rw [hzero]
      exact number?_zero c cs hc
    · rcases Numeral.toDigits_eq_cons d.whole with ⟨first, others, hfirst, hpos, _, hdigits⟩
      rw [hdigits, List.cons_append,
        number?_of_ne (digitChar_ne hfirst).2.2.1 ((digitChar_ne hfirst).2.2.2 (hpos hwhole))]
      exact Numeral.value?_of_mem (by simp) hdigit

theorem plainValue_decimal (d : Decimal) :
    plainValue (String.ofList d.chars) = .text (String.ofList d.chars) := by
  have hfirst : ∃ c cs, (c.isDigit = true ∨ c = '-') ∧ d.chars = c :: cs := by
    rcases d.chars_cases with ⟨cs, hchars⟩ | ⟨c, cs, _, hchars⟩
    · exact ⟨'-', _, .inr rfl, hchars⟩
    · rcases Numeral.toDigits_eq_cons d.whole with ⟨first, others, hfirst, _, _, hdigits⟩
      rw [hdigits] at hchars
      exact ⟨_, _, .inl (isDigit_digitChar hfirst), hchars⟩
  have hnumber := number?_decimal d
  rcases hfirst with ⟨c, cs, hc, hchars⟩
  rw [hchars] at hnumber ⊢
  rw [plainValue_of_numeral hc, numberOrText, hnumber]

end Scalar

/-! ## Where a plain scalar ends -/

namespace Json

/-- A character that is part of a scalar wherever it stands. -/
def isPlainChar (c : Char) : Bool := isWordChar c || c = '.'

/-- Characters that start a plain scalar, never a boundary, and are part of it. -/
structure StandsPlain (cs : List Char) : Prop where
  starts : Scalar.startsPlain cs = true
  noBoundary : ∀ tail, startsBoundary (cs ++ tail) = false
  goesOn : ∀ c ∈ cs, isPlainChar c = true

end Json

namespace Scalar

open Json

/-- What stands behind a plain scalar of a JSON text: nothing, or in brackets a comma or one of the
closing brackets. -/
def EndsPlain (inBrackets : Bool) (tail : List Char) : Prop :=
  tail = [] ∨ (inBrackets = true ∧ ∃ c cs, tail = c :: cs ∧ isBracketOrComma c = true)

theorem isPlainChar_spec {c : Char} (h : isPlainChar c = true) :
    isBreak c = false ∧ isBlank c = false ∧ isBracketOrComma c = false ∧ c ≠ ':' ∧ c ≠ '#' ∧
      c ≠ '\ufeff' := by
  have hne (d : Char) (hd : isPlainChar d = false) : c ≠ d := by
    rintro rfl
    exact Bool.false_ne_true (hd.symm.trans h)
  simp (disch := decide) [isBreak, isBlank, isBracketOrComma, hne]

theorem isAllowed_of_isPlainChar {c : Char} (h : isPlainChar c = true) :
    isAllowed c = true := by
  have hascii : 32 ≤ c.toNat ∧ c.toNat ≤ 126 := by
    simp only [isPlainChar, isWordChar, Char.isAlphanum, Bool.or_eq_true,
      decide_eq_true_eq] at h
    rcases h with (((hletter | hdigit) | rfl) | rfl) | rfl
    · rcases Bool.or_eq_true_iff.mp hletter with hupper | hlower
      · have hrange : 65 ≤ c.toNat ∧ c.toNat ≤ 90 := of_decide_eq_true hupper
        omega
      · have hrange : 97 ≤ c.toNat ∧ c.toNat ≤ 122 := by
          rcases Bool.and_eq_true_iff.mp hlower with ⟨hlow, hhigh⟩
          exact ⟨of_decide_eq_true hlow, of_decide_eq_true hhigh⟩
        omega
    · have hrange : 48 ≤ c.toNat ∧ c.toNat ≤ 57 := Char.isDigit_iff_toNat.mp hdigit
      omega
    all_goals decide
  have hrange : ' ' ≤ c ∧ c ≤ '~' := hascii
  simp [isAllowed, hrange]

theorem startsPlain_append {cs : List Char} (h : startsPlain cs = true) (tail : List Char) :
    startsPlain (cs ++ tail) = true := by
  cases cs with
  | nil => cases h
  | cons c cs =>
    cases cs with
    | nil =>
      by_cases hmark : ['-', '?', ':'].contains c = true
      · rw [startsPlain, if_pos hmark] at h
        cases h
      · rw [startsPlain, if_neg hmark] at h
        rwa [List.singleton_append, startsPlain, if_neg hmark]
    | cons d cs => exact h

/-- A plain scalar goes on to its last character, and no further. -/
theorem cutPlain?_append {inBrackets : Bool} {cs tail : List Char}
    (hcs : ∀ c ∈ cs, isPlainChar c = true) (htail : EndsPlain inBrackets tail)
    (indent column : Nat) (passed : List Char) (hpassed : passed.head?.any isGap = false) :
    cutPlain? inBrackets indent passed column (cs ++ tail) = some (passed.reverse ++ cs) := by
  induction cs generalizing column passed with
  | nil =>
    rcases htail with rfl | ⟨rfl, c, tail, rfl, hc⟩
    · simp [cutPlain?]
    · have hgap : isBreak c = false ∧ isBlank c = false := by
        simp only [isBracketOrComma, List.contains_iff_mem, List.mem_cons, List.not_mem_nil,
          or_false] at hc
        rcases hc with rfl | rfl | rfl | rfl | rfl <;> decide
      simp [cutPlain?, hgap, endsPlain, hc]
  | cons c cs ih =>
    rcases isPlainChar_spec (hcs c List.mem_cons_self) with ⟨hbreak, hblank, hbracket, hcolon, _⟩
    have hgoesOn : endsPlain inBrackets indent column passed (c :: (cs ++ tail)) = false := by
      simp [endsPlain, hcolon, hbracket, hpassed]
    have hlost : startsLostColon (c :: (cs ++ tail)) = false := by
      simp [startsLostColon, hcolon]
    have hgap : (c :: passed).head?.any isGap = false := by simp [isGap, hbreak, hblank]
    rw [List.cons_append, cutPlain?, hbreak, hblank, hgoesOn, hlost]
    simp [ih (fun d hd => hcs d (List.mem_cons_of_mem c hd)) (column + 1) (c :: passed) hgap]

theorem putAll_plain {cs : List Char} (hcs : ∀ c ∈ cs, isPlainChar c = true) (text : List Char) :
    Folding.putAll ⟨text, .none⟩ cs = ⟨cs.reverse ++ text, .none⟩ := by
  induction cs generalizing text with
  | nil => rfl
  | cons c cs ih =>
    rcases isPlainChar_spec (hcs c List.mem_cons_self) with ⟨hbreak, hblank, _⟩
    have hreturn : c ≠ '\r' := by
      rintro rfl
      cases hbreak
    have hput : (⟨text, .none⟩ : Folding).putAny c = ⟨c :: text, .none⟩ := by
      simp [Folding.putAny, Folding.put, Folding.joined, hbreak, hblank]
    simp [Folding.putAll, hreturn, hput, ih fun d hd => hcs d (List.mem_cons_of_mem c hd)]

/-- A plain scalar is cut out of a text as it was written. -/
theorem plain?_append {inBrackets : Bool} {cs tail : List Char} (hcs : StandsPlain cs)
    (htail : EndsPlain inBrackets tail) (indent column : Nat) :
    plain? inBrackets indent column (cs ++ tail) = some (⟨.plain, String.ofList cs⟩, cs) := by
  have hstarts := startsPlain_append hcs.starts tail
  have hfold := putAll_plain hcs.goesOn []
  rcases cs with _ | ⟨c, cs⟩
  · cases hcs.starts
  · rcases isPlainChar_spec (hcs.goesOn c List.mem_cons_self) with ⟨hbreak, hblank, _⟩
    have hcut := cutPlain?_append (fun d hd => hcs.goesOn d (List.mem_cons_of_mem c hd)) htail
      indent (column + 1) [c] (by simp [isGap, hbreak, hblank])
    rw [plain?, if_pos hstarts]
    simp [hcut, hfold]

end Scalar

/-! ## The scalars of a JSON text -/

namespace Json

theorem isPlainChar_digitChar {d : Nat} (hd : d < 10) : isPlainChar (Nat.digitChar d) = true := by
  revert d
  decide

theorem isPlainChar_of_mem_toDigits {n : Nat} {c : Char} (h : c ∈ Nat.toDigits 10 n) :
    isPlainChar c = true := by
  have hdigit : c.isDigit = true := Nat.isDigit_of_mem_toDigits (by decide) (by decide) h
  simp [isPlainChar, isWordChar, Char.isAlphanum, hdigit]

theorem isPlainChar_of_mem_exponent {e : Int} {c : Char} (h : c ∈ exponentChars e) :
    isPlainChar c = true := by
  rw [exponentChars] at h
  split at h
  · rcases List.mem_cons.mp h with rfl | h
    · decide
    · exact isPlainChar_of_mem_toDigits h
  · exact isPlainChar_of_mem_toDigits h

theorem isPlainChar_of_mem_decimal {d : Decimal} {c : Char} (h : c ∈ d.chars) :
    isPlainChar c = true := by
  simp only [Decimal.chars, List.mem_append] at h
  rcases h with ((h | h) | h) | h
  · split at h
    · rw [List.mem_singleton.mp h]
      decide
    · cases h
  · exact isPlainChar_of_mem_toDigits h
  · split at h
    · cases h
    · rcases List.mem_cons.mp h with rfl | h
      · decide
      · rcases List.mem_map.mp h with ⟨digit, _, rfl⟩
        exact isPlainChar_digitChar digit.isLt
  · split at h
    · rcases List.mem_cons.mp h with rfl | h
      · decide
      · exact isPlainChar_of_mem_exponent h
    · cases h

theorem startsPlain_digitChar {d : Nat} (hd : d < 10) (cs : List Char) :
    Scalar.startsPlain (Nat.digitChar d :: cs) = true := by
  have hdigit : ∀ d < 10, ['-', '?', ':'].contains (Nat.digitChar d) = false ∧
      (isGap (Nat.digitChar d) || Scalar.isIndicator (Nat.digitChar d)) = false := by decide
  rw [Scalar.startsPlain, (hdigit d hd).1, (hdigit d hd).2]
  rfl

theorem startsBoundary_of_first {c : Char} (hhyphen : c ≠ '-') (hpoint : c ≠ '.')
    (cs : List Char) : startsBoundary (c :: cs) = false := by
  match cs with
  | [] => rfl
  | [_] => rfl
  | _ :: _ :: _ => simp [startsBoundary, hhyphen, hpoint]

theorem startsBoundary_of_ne {a b : Char} (h : a ≠ b) (cs : List Char) :
    startsBoundary (a :: b :: cs) = false := by
  cases cs with
  | nil => rfl
  | cons c cs => simp [startsBoundary, h]

theorem standsPlain_toDigits (n : Nat) : StandsPlain (Nat.toDigits 10 n) := by
  rcases Numeral.toDigits_eq_cons n with ⟨d, cs, hd, _, _, hdigits⟩
  refine ⟨?_, fun tail => ?_, fun c hc => isPlainChar_of_mem_toDigits hc⟩
  · rw [hdigits]
    exact startsPlain_digitChar hd cs
  · rw [hdigits]
    exact startsBoundary_of_first (Scalar.digitChar_ne hd).1 (Scalar.digitChar_ne hd).2.1 _

theorem standsPlain_word {word : List Char} (h : word = Json.null.chars ∨
    ∃ value, word = (Json.bool value).chars) : StandsPlain word := by
  rcases h with rfl | ⟨true | false, rfl⟩
  all_goals
    exact ⟨by decide, fun _ => startsBoundary_of_first (by decide) (by decide) _,
      List.all_eq_true.mp (by decide)⟩

theorem standsPlain_decimal (d : Decimal) : StandsPlain d.chars := by
  rcases Numeral.toDigits_eq_cons d.whole with ⟨first, others, hfirst, _, _, hdigits⟩
  rcases d.chars_cases with ⟨cs, hchars⟩ | ⟨c, cs, _, hchars⟩
  · have hgap : ∀ d < 10, isGap (Nat.digitChar d) = false := by decide
    refine ⟨?_, fun tail => ?_, fun c hc => isPlainChar_of_mem_decimal hc⟩
    · rw [hchars, hdigits]
      simp [Scalar.startsPlain, startsGap, hgap first hfirst]
    · rw [hchars, hdigits]
      exact startsBoundary_of_ne (Scalar.digitChar_ne hfirst).1.symm _
  · refine ⟨?_, fun tail => ?_, fun c hc => isPlainChar_of_mem_decimal hc⟩
    · rw [hchars, hdigits]
      exact startsPlain_digitChar hfirst _
    · rw [hchars, hdigits]
      exact startsBoundary_of_first (Scalar.digitChar_ne hfirst).1 (Scalar.digitChar_ne hfirst).2.1 _

end Json
end Chip8
