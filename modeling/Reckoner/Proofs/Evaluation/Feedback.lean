import Reckoner.Proofs.Binary64.Order
import Reckoner.Proofs.Decimal.ReadBack
import Reckoner.Proofs.Evaluation.Failures
import Reckoner.Proofs.Lexer.Cutting
import Reckoner.Proofs.Parser.Scan

/-!
# Results Fed Back

What becomes of the text of a result when it is entered again.

A result that is written without an exponent is a literal, behind a minus sign if it is
negative. It is read as the same number: the literal has the magnitude as its
value, and the sign gives it back its sign bit (`evaluate_write_positional`). The one
thing that is lost is the sign of a zero, which is not written.

Every other text has a letter in it, the `e` of an exponent or the first one of a word. No
token begins with a letter, and what stands before this one is a literal, a minus
sign or nothing, so the scan comes to the letter before it could have stopped for any
other reason (`parse_of_letter`). It would not have to be so: a text is read only as far
as its expression goes, and the digits before an exponent are an expression. What saves
them is that the parser looks at the token behind an operand, and there it finds
the letter.

## Main definitions

* `Expr.signedNumber`: A literal, behind a minus sign if the number is negative.

## Theorems

* `parse_of_letter`: A text is not read past a letter.
* `parse_signed`: What is read of a signed literal.
* `write_of_parts`: The text of a finite result.
* `value?_writeUnits`, `isLiteral_writeUnits`: What is written without an exponent.
* `evaluate_write_positional`: A result without an exponent is given back.
* `evaluate_write_zero`: A zero is given back without its sign.
* `evaluate_write_lettered`: Any other result is refused at its first letter.
* `results_fed_back`: All of this together, for all doubles.
-/

namespace Reckoner

open Binary64 (Parts parts ofPattern pattern patternUnits infinityPattern signWeight)

/-- A literal, behind a minus sign if the number is negative. -/
def Expr.signedNumber (negative : Bool) (literal : String) : Expr :=
  if negative then .unary .subtract (.number literal) else .number literal

section Letters

variable {c : Char} (hc : c.isAlpha = true)
include hc

theorem endsBefore_of_isAlpha (behind : List Char) : Literal.EndsBefore (c :: behind) := by
  intro c' hc'
  rw [← Option.some.inj hc']
  refine ⟨not_isDigit_of_isAlpha hc, ?_⟩
  rintro rfl
  exact absurd hc (by decide)

-- The tokens before the letter. With a sign, or a literal, or both, or nothing there the
-- scan goes on to the letter.
theorem tokenizes_signed_letter (negative : Bool) {front : List Char}
    (hfront : front = [] ∨ Literal.IsLiteral front) (behind : List Char) :
    ∃ w : List Token,
      Tokenizes (Layout.signed negative (front ++ c :: behind)) w (c :: behind) ∧
        ∀ cause, ((w ++ TokenStream.failing cause).scan .operand 0).1
          = .error (.lexical cause) := by
  have hminus : ∀ {text : List Char} {w : List Token}, Tokenizes text w (c :: behind) →
      Tokenizes ('-' :: text) (.operator .subtract :: w) (c :: behind) := fun h =>
    (@tokenizes_operator _ .subtract nofun).append h
  rcases hfront with rfl | hliteral
  · have hnothing := Tokenizes.done (c :: behind)
    cases negative with
    | false => exact ⟨[], hnothing, fun _ => rfl⟩
    | true => exact ⟨[.operator .subtract], hminus hnothing, fun _ => rfl⟩
  · have hnumber := @tokenizes_number (c :: behind) (String.ofList front)
      (by rw [String.toList_ofList]; exact hliteral) (endsBefore_of_isAlpha hc behind)
    rw [String.toList_ofList] at hnumber
    cases negative with
    | false => exact ⟨[.number (String.ofList front)], hnumber, fun _ => rfl⟩
    | true =>
        exact ⟨[.operator .subtract, .number (String.ofList front)], hminus hnumber,
          fun _ => rfl⟩

/-- A text is not read past a letter, if nothing but a sign and a literal stands before
    it. -/
theorem parse_of_letter (negative : Bool) {front : List Char}
    (hfront : front = [] ∨ Literal.IsLiteral front) (behind : List Char) :
    parse (String.ofList (Layout.signed negative (front ++ c :: behind)))
      = .error (.lexical (.unrecognizedCharacter c (Layout.signed negative front).length)) := by
  rcases tokenizes_signed_letter hc negative hfront behind with ⟨w, hw, hscan⟩
  have htext : (String.ofList (Layout.signed negative (front ++ c :: behind))).toList
      = Layout.signed negative front ++ c :: behind := by
    rw [String.toList_ofList]
    cases negative with
    | false => rfl
    | true => rfl
  refine parse_of_scan_error ?_
  rw [stream_ofText_failing htext (by rw [String.toList_ofList]; exact hw)
    (isBlank_of_isAlpha hc) (not_front_of_isAlpha hc)]
  exact hscan _

end Letters

/-- What is read of a literal behind a sign. -/
theorem parse_signed (negative : Bool) {literal : List Char} (h : Literal.IsLiteral literal) :
    parse (String.ofList (Layout.signed negative literal))
      = .ok (.statement (Expr.signedNumber negative (String.ofList literal))) := by
  have hliteral : Literal.IsLiteral (String.ofList literal).toList := by
    rw [String.toList_ofList]
    exact h
  cases negative with
  | false =>
      exact @parse_render_of_canonical (.statement (.number (String.ofList literal)))
        ⟨trivial, hliteral⟩
  | true =>
      have hparse := @parse_render_of_canonical
        (.statement (.unary .subtract (.number (String.ofList literal))))
        ⟨⟨Nat.le_succ Level.sign.rank, trivial⟩, rfl, hliteral⟩
      rw [Expr.render, Expr.render, Expr.render, Operator.symbol, ← String.ofList_append] at hparse
      exact hparse

-- The value of a literal behind a sign.
theorem value_signedNumber (negative : Bool) {literal : String} {x : Float}
    (h : Literal.value literal = .ok x) :
    (Expr.statement (Expr.signedNumber negative literal)).value
      = .ok (if negative then -x else x) := by
  rw [Expr.value_statement]
  cases negative with
  | false => exact (Expr.value_number literal).trans h
  | true =>
      have hnumber := (Expr.value_number literal).trans h
      rw [Expr.signedNumber, if_pos rfl, Expr.value_unary, hnumber]
      rfl

/-- The text of a finite number that is not zero. -/
theorem write_of_parts (layout : Layout) {v : Float} {negative : Bool} {units : Nat}
    (h : parts v = .finite negative units) (hne : units ≠ 0) :
    layout.write v = String.ofList (Layout.signed negative (layout.writeUnits units)) := by
  rw [Layout.write, h]
  simp only [if_neg hne]

-- The text of a zero, which shows no sign.
theorem write_zero {v : Float} {negative : Bool} (h : parts v = .finite negative 0) :
    Layout.result.write v = String.ofList ['0'] := by
  have hsign : Layout.result.signedZero = false := rfl
  rw [Layout.write, h]
  simp only [if_true]
  rw [hsign, Bool.and_false]
  rfl

section Positional

variable {units : Nat} (hsmall : Binary64.units Layout.result.small ≤ units)
  (hlarge : units < Binary64.units Layout.result.large)
include hsmall hlarge

-- The two forms of a magnitude without an exponent.
theorem writeUnits_positional :
    (units % Binary64.unitsPerOne = 0 ∧
        Layout.result.writeUnits units = Decimal.digitsOf (units / Binary64.unitsPerOne)) ∨
      Layout.result.writeUnits units = (Decimal.shortest units).positional := by
  have hrange : ¬(Binary64.units Layout.result.large ≤ units ∨
      units < Binary64.units Layout.result.small) := by omega
  rw [Layout.writeUnits, if_neg hrange]
  by_cases hinteger : units % Binary64.unitsPerOne = 0
  · rw [if_pos hinteger]
    exact Or.inl ⟨hinteger, List.append_nil _⟩
  · rw [if_neg hinteger]
    exact Or.inr rfl

theorem isLiteral_writeUnits : Literal.IsLiteral (Layout.result.writeUnits units) := by
  rcases writeUnits_positional hsmall hlarge with ⟨-, htext⟩ | htext
  · rw [htext]
    exact Decimal.isLiteral_digitsOf _
  · rw [htext]
    exact Decimal.isLiteral_positional _

/-- A magnitude that is written without an exponent is the value of its text. -/
theorem value?_writeUnits :
    Literal.value? (String.ofList (Layout.result.writeUnits units))
      = some (ofPattern false (pattern units 1)) := by
  rcases writeUnits_positional hsmall hlarge with ⟨hinteger, htext⟩ | htext
  · rw [htext]
    exact Decimal.value?_integer hinteger
  · rw [htext]
    exact Decimal.value?_shortest units

end Positional

-- The limits of the positional range are doubles, of which the smaller one is not zero.
theorem parts_limits :
    parts Layout.result.small = .finite false (Binary64.units Layout.result.small) ∧
      parts Layout.result.large = .finite false (Binary64.units Layout.result.large) ∧
      0 < Binary64.units Layout.result.small :=
  ⟨by decide +kernel, by decide +kernel, by decide +kernel⟩

/-- A result without an exponent is given back with its bits: what is read is the text of
    the magnitude behind a sign, the text of the magnitude has the magnitude as its
    value, and the sign turns over the sign bit. -/
theorem evaluate_write_positional {v : Float} {negative : Bool} {units : Nat}
    (h : parts v = .finite negative units) (hsmall : Layout.result.small ≤ v.abs)
    (hlarge : v.abs < Layout.result.large) :
    evaluate (Layout.result.write v) = .ok v ∧
      parse (Layout.result.write v)
        = .ok (.statement (Expr.signedNumber negative (Layout.result.write v.abs))) ∧
      Literal.value (Layout.result.write v.abs) = .ok v.abs ∧
      v = (if negative then -v.abs else v.abs) ∧
      v.toBits.toNat = negative.toNat * signWeight + v.abs.toBits.toNat := by
  rcases parts_limits with ⟨hpartsSmall, hpartsLarge, hpos⟩
  rw [Binary64.le_abs_iff h hpartsSmall] at hsmall
  rw [Binary64.abs_lt_iff h hpartsLarge] at hlarge
  have hne : units ≠ 0 := by omega
  rcases Binary64.eq_ofPattern_of_parts h with ⟨body, hbody, rfl, rfl⟩
  have hle := Nat.le_of_lt hbody
  rw [Binary64.abs_ofPattern hle]
  -- The magnitude has the same text, but for the sign.
  have htext := write_of_parts Layout.result h hne
  have habsText := write_of_parts Layout.result (@Binary64.parts_ofPattern false body hbody) hne
  rw [Layout.signed, if_neg Bool.false_ne_true] at habsText
  have hread : parse (Layout.result.write (ofPattern negative body))
      = .ok (.statement (Expr.signedNumber negative
          (Layout.result.write (ofPattern false body)))) := by
    rw [htext, habsText]
    exact parse_signed negative (isLiteral_writeUnits hsmall hlarge)
  have hvalue : Literal.value (Layout.result.write (ofPattern false body))
      = .ok (ofPattern false body) := by
    have hsome := value?_writeUnits hsmall hlarge
    rw [Binary64.pattern_patternUnits hbody] at hsome
    rw [habsText, Literal.value, hsome]
  have hsigned : ofPattern negative body
      = if negative then -(ofPattern false body) else ofPattern false body := by
    cases negative with
    | false => rfl
    | true => exact (Binary64.neg_ofPattern hle).symm
  have hsame := evaluate_of_parse hread (value_signedNumber negative hvalue)
  refine ⟨hsame.trans (congrArg Except.ok hsigned.symm), hread, hvalue, hsigned, ?_⟩
  rw [Binary64.toBits_ofPattern hle, Binary64.toBits_ofPattern hle, Bool.toNat_false,
    Nat.zero_mul, Nat.zero_add]

/-- A zero is given back without its sign. -/
theorem evaluate_write_zero {v : Float} {negative : Bool} (h : parts v = .finite negative 0) :
    evaluate (Layout.result.write v) = .ok (Float.ofBits 0) := by
  have hdigit : ∀ c ∈ ['0'], c.isDigit = true := List.forall_mem_singleton.mpr rfl
  have hvalue : Literal.value (String.ofList ['0']) = .ok (Float.ofBits 0) := by
    have hpattern : pattern 0 1 = 0 := @Binary64.pattern_patternUnits 0 (by decide)
    have hzero : Binary64.nearest 0 1 = Float.ofBits 0 := by
      rw [Binary64.nearest, Nat.zero_mul, hpattern, ofPattern]
      rfl
    rw [Literal.value, Literal.value?_whole hdigit (List.cons_ne_nil _ _)]
    exact congrArg Except.ok hzero
  have hparse := parse_signed false
    (Or.inl ⟨['0'], List.cons_ne_nil _ _, hdigit, Or.inl rfl⟩ : Literal.IsLiteral ['0'])
  rw [write_zero h]
  exact evaluate_of_parse hparse (value_signedNumber false hvalue)

-- There are no letters in a signed literal.
theorem isAlpha_of_mem_signed {negative : Bool} {front : List Char}
    (hfront : front = [] ∨ Literal.IsLiteral front) :
    ∀ c ∈ Layout.signed negative front, c.isAlpha = false := by
  have hliteral : ∀ c ∈ front, c.isAlpha = false := by
    rcases hfront with rfl | h
    · exact nofun
    · have hvalid := Literal.isValid_of_isLiteral h
      rw [Literal.isValid, Bool.and_eq_true, List.all_eq_true] at hvalid
      intro c hc
      rw [Bool.eq_false_iff]
      intro halpha
      have hdigit := hvalid.1 c hc
      rw [not_isDigit_of_isAlpha halpha, Bool.false_or, beq_iff_eq] at hdigit
      rw [hdigit] at halpha
      exact absurd halpha (by decide)
  cases negative with
  | false => exact hliteral
  | true => exact List.forall_mem_cons.mpr ⟨rfl, hliteral⟩

/-- The text of any other result is a sign or none, a literal or none, and then a letter. -/
theorem write_eq_lettered {v : Float}
    (h : parts v = .nan ∨ (∃ negative, parts v = .infinite negative) ∨
      ∃ negative units, parts v = .finite negative units ∧ units ≠ 0 ∧
        (v.abs < Layout.result.small ∨ Layout.result.large ≤ v.abs)) :
    ∃ (negative : Bool) (front : List Char) (c : Char) (behind : List Char),
      Layout.result.write v = String.ofList (Layout.signed negative (front ++ c :: behind)) ∧
        (front = [] ∨ Literal.IsLiteral front) ∧ c.isAlpha = true := by
  rcases h with h | ⟨negative, h⟩ | ⟨negative, units, h, hne, hrange⟩
  · refine ⟨false, [], 'N', ['a', 'N'], ?_, Or.inl rfl, rfl⟩
    rw [Layout.write, h]
    rfl
  · refine ⟨negative, [], 'I', ['n', 'f', 'i', 'n', 'i', 't', 'y'], ?_, Or.inl rfl, rfl⟩
    rw [Layout.write, h]
    rfl
  · rcases parts_limits with ⟨hpartsSmall, hpartsLarge, -⟩
    rw [Binary64.abs_lt_iff h hpartsSmall, Binary64.le_abs_iff h hpartsLarge] at hrange
    rcases Decimal.scientific_eq Layout.result.plus (Decimal.shortest units) with
      ⟨mantissa, written, htext, hmantissa⟩
    refine ⟨negative, mantissa, 'e', written, ?_, Or.inr hmantissa, rfl⟩
    rw [write_of_parts Layout.result h hne, Layout.writeUnits, if_pos hrange.symm, htext]

/-- A result that is written with a letter is refused at the first one. -/
theorem evaluate_write_lettered {v : Float}
    (h : parts v = .nan ∨ (∃ negative, parts v = .infinite negative) ∨
      ∃ negative units, parts v = .finite negative units ∧ units ≠ 0 ∧
        (v.abs < Layout.result.small ∨ Layout.result.large ≤ v.abs)) :
    ∃ before c behind, (Layout.result.write v).toList = before ++ c :: behind ∧
      (∀ d ∈ before, d.isAlpha = false) ∧ c.isAlpha = true ∧
      evaluate (Layout.result.write v)
        = .error (.parse (.lexical (.unrecognizedCharacter c before.length))) := by
  rcases write_eq_lettered h with ⟨negative, front, c, behind, htext, hfront, hc⟩
  refine ⟨Layout.signed negative front, c, behind, ?_, isAlpha_of_mem_signed hfront, hc, ?_⟩
  · rw [htext, String.toList_ofList]
    cases negative with
    | false => rfl
    | true => rfl
  · rw [htext]
    exact evaluate_of_parse_error (parse_of_letter hc negative hfront behind)

/-- What becomes of the results of all doubles when their texts are entered again.

    * A finite result whose magnitude is between the limits is given back with its bits, a
      negative one by a minus sign in front of the text of its magnitude.
    * A zero is given back as the positive one.
    * Any other result is refused. The complaint is about the first letter of its text and
      says where that stands.
    * The limits are the doubles nearest to one millionth and to `10 ^ 21`.
    * All bits are the bits of some double, those of what is no number all of the same one. -/
theorem results_fed_back :
    (∀ (v : Float) (negative : Bool) (units : Nat), parts v = .finite negative units →
        Layout.result.small ≤ v.abs → v.abs < Layout.result.large →
        evaluate (Layout.result.write v) = .ok v ∧
          parse (Layout.result.write v)
            = .ok (.statement (Expr.signedNumber negative (Layout.result.write v.abs))) ∧
          Literal.value (Layout.result.write v.abs) = .ok v.abs ∧
          v = (if negative then -v.abs else v.abs) ∧
          v.toBits.toNat = negative.toNat * signWeight + v.abs.toBits.toNat) ∧
      (∀ (v : Float) (negative : Bool), parts v = .finite negative 0 →
        evaluate (Layout.result.write v) = .ok (Float.ofBits 0)) ∧
      (∀ v : Float, (parts v = .nan ∨ (∃ negative, parts v = .infinite negative) ∨
          ∃ negative units, parts v = .finite negative units ∧ units ≠ 0 ∧
            (v.abs < Layout.result.small ∨ Layout.result.large ≤ v.abs)) →
        ∃ before c behind, (Layout.result.write v).toList = before ++ c :: behind ∧
          (∀ d ∈ before, d.isAlpha = false) ∧ c.isAlpha = true ∧
          evaluate (Layout.result.write v)
            = .error (.parse (.lexical (.unrecognizedCharacter c before.length)))) ∧
      (Layout.result.small.toBits = 0x3EB0C6F7A0B5ED8D ∧
        Layout.result.large.toBits = 0x444B1AE4D6E2EF50) ∧
      ∀ bits : UInt64,
        (bits.toNat % signWeight ≤ infinityPattern → (Float.ofBits bits).toBits = bits) ∧
          (infinityPattern < bits.toNat % signWeight → parts (Float.ofBits bits) = .nan) :=
  ⟨fun _ _ _ => evaluate_write_positional, fun _ _ => evaluate_write_zero,
    fun _ => evaluate_write_lettered, ⟨by decide +kernel, by decide +kernel⟩,
    fun _ => ⟨Binary64.toBits_ofBits, Binary64.parts_ofBits_nan⟩⟩

/-- A negative fraction, a negative zero, the upper limit and all ones. -/
theorem negative_tenth_fed_back :
    (parts (Float.ofBits 0xBFB999999999999A)
        = .finite true (patternUnits 0x3FB999999999999A) ∧
      Layout.result.small ≤ (Float.ofBits 0xBFB999999999999A).abs ∧
      (Float.ofBits 0xBFB999999999999A).abs < Layout.result.large ∧
      evaluate "-0.1" = .ok (Float.ofBits 0xBFB999999999999A) ∧
      (0xBFB999999999999A : UInt64).toNat % signWeight ≤ infinityPattern ∧
      (Float.ofBits 0xBFB999999999999A).toBits = 0xBFB999999999999A) ∧
    (parts (Float.ofBits 0x8000000000000000) = .finite true 0 ∧
      evaluate "0" = .ok (Float.ofBits 0)) ∧
    (parts Layout.result.large = .finite false (patternUnits 0x444B1AE4D6E2EF50) ∧
      patternUnits 0x444B1AE4D6E2EF50 ≠ 0 ∧
      Layout.result.large ≤ Layout.result.large.abs ∧
      ∃ before c behind, "1e+21".toList = before ++ c :: behind ∧
        (∀ d ∈ before, d.isAlpha = false) ∧ c.isAlpha = true ∧
        evaluate "1e+21" = .error (.parse (.lexical (.unrecognizedCharacter c before.length)))) ∧
    infinityPattern < (0xFFFFFFFFFFFFFFFF : UInt64).toNat % signWeight ∧
    parts (Float.ofBits 0xFFFFFFFFFFFFFFFF) = .nan := by
  have hfraction : parts (Float.ofBits 0xBFB999999999999A)
      = .finite true (patternUnits 0x3FB999999999999A) := by decide +kernel
  have hsmall : Layout.result.small ≤ (Float.ofBits 0xBFB999999999999A).abs := by decide +kernel
  have hlarge : (Float.ofBits 0xBFB999999999999A).abs < Layout.result.large := by decide +kernel
  have hzero : parts (Float.ofBits 0x8000000000000000) = .finite true 0 := by decide +kernel
  have hlimit : parts Layout.result.large
      = .finite false (patternUnits 0x444B1AE4D6E2EF50) := by decide +kernel
  have hne : patternUnits 0x444B1AE4D6E2EF50 ≠ 0 := by decide +kernel
  have hreached : Layout.result.large ≤ Layout.result.large.abs := by decide +kernel
  have hfractionText : Layout.result.write (Float.ofBits 0xBFB999999999999A) = "-0.1" := by
    decide +kernel
  have hzeroText : Layout.result.write (Float.ofBits 0x8000000000000000) = "0" := by
    decide +kernel
  have hlimitText : Layout.result.write Layout.result.large = "1e+21" := by decide +kernel
  have hfinite : (0xBFB999999999999A : UInt64).toNat % signWeight ≤ infinityPattern := by
    decide +kernel
  have hnan : infinityPattern < (0xFFFFFFFFFFFFFFFF : UInt64).toNat % signWeight := by
    decide +kernel
  rcases results_fed_back with ⟨hpositional, hzeros, hlettered, -, hbits⟩
  have hback := (hpositional _ _ _ hfraction hsmall hlarge).1
  have hpositive := hzeros _ _ hzero
  have hrefused := hlettered _ (Or.inr (Or.inr ⟨_, _, hlimit, hne, Or.inr hreached⟩))
  rw [hfractionText] at hback
  rw [hzeroText] at hpositive
  rw [hlimitText] at hrefused
  exact ⟨⟨hfraction, hsmall, hlarge, hback, hfinite, (hbits _).1 hfinite⟩, ⟨hzero, hpositive⟩,
    ⟨hlimit, hne, hreached, hrefused⟩, hnan, (hbits _).2 hnan⟩

-- The sign of a zero is kept in the log alone, so no result brings it back.
example : Layout.result.write (Binary64.ofUnits true 0) = "0" := by decide +kernel
example : Layout.record.write (Binary64.ofUnits true 0) = "-0.0" := by decide +kernel

end Reckoner
