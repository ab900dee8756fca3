import Chip8.Proofs.Hex
import Chip8.Proofs.Json.Basic

/-!
# Strings in quotes

A string in quotes is read back (`Scalar.doubleQuoted?_quoted`): it is cut out of a text at its second
quote, since those inside are escaped, no line of it is a boundary, since it is one line, and each of
its characters is written so that it is understood.

There are three ways to write a character (`Json.quotedChar_cases`), and each lemma goes through them.
-/

namespace Chip8

open Layout

/-! ## How a character is written -/

namespace Json

theorem standsRaw_of_astral {c : Char} (h : 0x10000 ≤ c.toNat) : standsRaw c = true := by
  simp [standsRaw, h]

/-- A character is written with a letter, as itself, or with four digits. -/
theorem quotedChar_cases (c : Char) :
    (∃ letter, (c, letter) ∈ shortEscapes ∧ quotedChar c = ['\\', letter]) ∨
      (standsRaw c = true ∧ c ≠ '"' ∧ c ≠ '\\' ∧ quotedChar c = [c]) ∨
      (c.toNat < 0x10000 ∧ quotedChar c = '\\' :: 'u' :: Hex.digits 4 c.toNat) := by
  cases hlookup : shortEscapes.lookup c with
  | some letter =>
    left
    refine ⟨letter, ?_, by simp only [quotedChar, hlookup]⟩
    obtain ⟨before, after, hsplit, _⟩ := List.lookup_eq_some_iff.mp hlookup
    rw [hsplit]
    simp
  | none =>
    right
    have hquote : c ≠ '"' := by
      rintro rfl
      cases hlookup
    have hbackslash : c ≠ '\\' := by
      rintro rfl
      cases hlookup
    by_cases hraw : standsRaw c = true
    · exact .inl ⟨hraw, hquote, hbackslash, by simp only [quotedChar, hlookup, hraw, if_true]⟩
    · refine .inr ⟨?_, by simp only [quotedChar, hlookup, hraw, if_false, Bool.false_eq_true]⟩
      exact Nat.lt_of_not_le fun h => hraw (standsRaw_of_astral h)

/-- Whether a character may stand in a text and ends no line. -/
def staysInLine (c : Char) : Bool := isAllowed c && !isBreak c

theorem staysInLine_iff {c : Char} :
    staysInLine c = true ↔ isAllowed c = true ∧ isBreak c = false := by
  simp [staysInLine]

theorem staysInLine_of_standsRaw {c : Char} (h : standsRaw c = true) : staysInLine c = true := by
  have hallowed : isAllowed c = true := by
    simp only [standsRaw, Bool.or_eq_true, Bool.and_eq_true, decide_eq_true_eq] at h
    simp only [isAllowed, Bool.or_eq_true, Bool.and_eq_true, decide_eq_true_eq]
    rcases h with (hascii | hplane) | hastral
    · exact .inl (.inl (.inr hascii))
    · exact .inl (.inr hplane.1.1)
    · exact .inr hastral
  have hbreak : isBreak c = false := by
    rw [Bool.eq_false_iff]
    intro hbreak
    simp only [isBreak, Bool.or_eq_true, decide_eq_true_eq] at hbreak
    -- None of the five characters that end a line stands for itself.
    rcases hbreak with (((rfl | rfl) | rfl) | rfl) | rfl <;> revert h <;> decide
  exact staysInLine_iff.mpr ⟨hallowed, hbreak⟩

theorem staysInLine_upper (n : Nat) : staysInLine (Hex.upper n) = true :=
  Hex.upper_induction (P := fun d => staysInLine d = true) (by decide) n

theorem staysInLine_quotedChar {c d : Char} (h : d ∈ quotedChar c) : staysInLine d = true := by
  rcases quotedChar_cases c with ⟨letter, hletter, hc⟩ | ⟨hraw, _, _, hc⟩ | ⟨_, hc⟩
  · have hletters : ∀ p ∈ shortEscapes, staysInLine p.2 = true := by decide
    rw [hc] at h
    simp only [List.mem_cons, List.not_mem_nil, or_false] at h
    rcases h with rfl | rfl
    · decide
    · exact hletters _ hletter
  · rw [hc, List.mem_singleton] at h
    rw [h]
    exact staysInLine_of_standsRaw hraw
  · rw [hc, Hex.digits_four] at h
    simp only [List.mem_cons, List.not_mem_nil, or_false] at h
    rcases h with rfl | rfl | rfl | rfl | rfl | rfl
    · decide
    · decide
    all_goals exact staysInLine_upper _

theorem staysInLine_quoted {s : String} {d : Char} (h : d ∈ quoted s) : staysInLine d = true := by
  simp only [quoted, escaped, List.mem_append, List.mem_cons, List.mem_flatMap, List.not_mem_nil,
    or_false] at h
  rcases h with (rfl | ⟨c, _, hd⟩) | rfl
  · decide
  · exact staysInLine_quotedChar hd
  · decide

end Json

/-! ## Cutting -/

namespace Scalar

open Json

theorem cutDouble?_quotedChar (passed cs : List Char) (c : Char) :
    cutDouble? passed (quotedChar c ++ cs) = cutDouble? ((quotedChar c).reverse ++ passed) cs := by
  rcases quotedChar_cases c with ⟨letter, _, hc⟩ | ⟨_, hquote, hbackslash, hc⟩ | ⟨_, hc⟩
  · simp [hc, cutDouble?]
  · simp [hc, cutDouble?, hbackslash]
  · have hplain : ∀ n, Hex.upper n ≠ '"' ∧ Hex.upper n ≠ '\\' :=
      Hex.upper_induction (P := fun d => d ≠ '"' ∧ d ≠ '\\') (by decide)
    simp [hc, Hex.digits_four, cutDouble?, hplain]

/-- A string ends at its own second quote. -/
theorem cutDouble?_escaped (s : String) (tail : List Char) :
    cutDouble? [] (escaped s ++ '"' :: tail) = some (escaped s) := by
  have hcut (cs passed : List Char) :
      cutDouble? passed (cs.flatMap quotedChar ++ '"' :: tail) =
        some (passed.reverse ++ cs.flatMap quotedChar) := by
    induction cs generalizing passed with
    | nil => simp [cutDouble?]
    | cons c cs ih =>
      rw [List.flatMap_cons, List.append_assoc, cutDouble?_quotedChar, ih]
      simp
  exact hcut s.toList []

theorem hasBoundary_of_inLine {cs : List Char} (h : ∀ c ∈ cs, staysInLine c = true) :
    hasBoundary false cs = false := by
  induction cs with
  | nil => rfl
  | cons c cs ih =>
    rw [hasBoundary, (staysInLine_iff.mp (h c List.mem_cons_self)).2]
    simpa using ih fun d hd => h d (List.mem_cons_of_mem c hd)

/-! ## Understanding -/

/-- What was joined so far has not come to the end of a line. -/
def InLine (f : Folding) : Prop := f.pending = .none ∨ ∃ blanks, f.pending = .blanks blanks

theorem inLine_put (f : Folding) (c : Char) : InLine (f.put c) ∧ (f.put c).joined = c :: f.joined :=
  ⟨.inl rfl, rfl⟩

theorem putAny_of_inLine {f : Folding} (hf : InLine f) {c : Char} (hc : isBreak c = false) :
    InLine (f.putAny c) ∧ (f.putAny c).joined = c :: f.joined := by
  by_cases hblank : isBlank c = true
  · have hput : f.putAny c = f.putBlank c := by simp [Folding.putAny, hc, hblank]
    rw [hput]
    rcases hf with hnone | ⟨blanks, hblanks⟩
    · simp [InLine, Folding.putBlank, Folding.joined, hnone]
    · simp [InLine, Folding.putBlank, Folding.joined, hblanks]
  · have hput : f.putAny c = f.put c := by simp [Folding.putAny, hc, hblank]
    rw [hput]
    exact inLine_put f c

theorem ofCodePoint?_hexDigits {c : Char} (h : c.toNat < 0x10000) :
    ofCodePoint? (Hex.digits 4 c.toNat) = some c := by
  have hvalue : Numeral.value? 16 (Hex.digits 4 c.toNat) = some c.toNat := by
    rw [Numeral.value?_hexDigits, Nat.mod_eq_of_lt h]
  have hvalid : c.toNat.isValidChar := c.valid
  rw [ofCodePoint?, hvalue]
  simp only [if_pos hvalid, Char.ofNat_toNat]

/-- One written character is understood as the character that it stands for. -/
theorem unescape?_quotedChar {f : Folding} (hf : InLine f) (c : Char) (cs : List Char) :
    ∃ f', InLine f' ∧ f'.joined = c :: f.joined ∧
      unescape? f (quotedChar c ++ cs) = unescape? f' cs := by
  rcases quotedChar_cases c with ⟨letter, hletter, hc⟩ | ⟨hraw, _, hbackslash, hc⟩ | ⟨hlow, hc⟩
  · refine ⟨f.put c, (inLine_put f c).1, (inLine_put f c).2, ?_⟩
    rw [hc]
    simp only [shortEscapes, List.mem_cons, Prod.mk.injEq, List.not_mem_nil, or_false] at hletter
    rcases hletter with ⟨rfl, rfl⟩ | ⟨rfl, rfl⟩ | ⟨rfl, rfl⟩ | ⟨rfl, rfl⟩ | ⟨rfl, rfl⟩ |
      ⟨rfl, rfl⟩ | ⟨rfl, rfl⟩ <;> rfl
  · have hbreak : isBreak c = false := (staysInLine_iff.mp (staysInLine_of_standsRaw hraw)).2
    have hreturn : c ≠ '\r' := by
      rintro rfl
      cases hbreak
    rcases putAny_of_inLine hf hbreak with ⟨hinLine, hjoined⟩
    refine ⟨f.putAny c, hinLine, hjoined, ?_⟩
    rw [hc, List.singleton_append]
    simp [unescape?, hbackslash, hreturn]
  · refine ⟨f.put c, (inLine_put f c).1, (inLine_put f c).2, ?_⟩
    have hcode := ofCodePoint?_hexDigits hlow
    rw [Hex.digits_four] at hcode
    rw [hc, Hex.digits_four]
    simp only [List.cons_append, List.nil_append, unescape?, hcode]

theorem unescape?_escaped (s : String) :
    ∃ f, unescape? {} (escaped s) = some f ∧ f.joined = s.toList.reverse := by
  have hread (cs : List Char) (f : Folding) (hf : InLine f) :
      ∃ f', unescape? f (cs.flatMap quotedChar) = some f' ∧
        f'.joined = cs.reverse ++ f.joined := by
    induction cs generalizing f with
    | nil => exact ⟨f, by simp [unescape?], by simp⟩
    | cons c cs ih =>
      rcases unescape?_quotedChar hf c (cs.flatMap quotedChar) with ⟨g, hg, hjoined, hstep⟩
      rcases ih g hg with ⟨f', hf', hrest⟩
      refine ⟨f', ?_, ?_⟩
      · rw [List.flatMap_cons, hstep, hf']
      · rw [hrest, hjoined]
        simp
  rcases hread s.toList {} (.inl rfl) with ⟨f, hf, hjoined⟩
  refine ⟨f, hf, ?_⟩
  rw [hjoined]
  simp [Folding.joined]

/-- A string in quotes is read back, and no character behind it is taken with it. -/
theorem doubleQuoted?_quoted (s : String) (tail : List Char) :
    doubleQuoted? (quoted s ++ tail).tail = some (⟨.doubleQuoted, s⟩, quoted s) := by
  have hcut : cutDouble? [] (escaped s ++ '"' :: tail) = some (escaped s) :=
    cutDouble?_escaped s tail
  have hboundary : hasBoundary false (quoted s) = false :=
    hasBoundary_of_inLine fun c hc => staysInLine_quoted hc
  rcases unescape?_escaped s with ⟨f, hf, hjoined⟩
  have htail : (quoted s ++ tail).tail = escaped s ++ '"' :: tail := by simp [quoted]
  have hsource : '"' :: escaped s ++ ['"'] = quoted s := rfl
  simp only [htail, doubleQuoted?, hcut, hsource, hboundary, hf, Option.bind_eq_bind,
    Option.bind_some, Bool.false_eq_true, if_false]
  simp [hjoined]

end Scalar
end Chip8
