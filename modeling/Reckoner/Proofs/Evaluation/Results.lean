import Mathlib
import Reckoner.Proofs.Decimal.Notation
import Reckoner.Proofs.Evaluation.Feedback

/-!
# The Texts of Results

What the texts of results look like, what they denote, and which results share a text.

A finite result that is not zero is written in one of three ways, and the limits and whether it is
an integer decide in which. Integers within the limits are written with all their digits
and denote themselves (`writeUnits_integer`). The others show the shortest decimal that
is rounded to them, in one of the two notations (`writeUnits_scientific`,
`writeUnits_fraction`).

That the notations have their canonical forms takes a look at the sizes. In exponent notation
the exponent is never zero, for between one and ten no number is beyond the limits
(`exponent_ne_zero`). In positional notation there are always digits behind the
point: a decimal without any would be an integer that is rounded to a double which is none, but such
doubles are so small that the integers around them are all doubles
(`exponent_neg`).

Whatever the form, the text denotes a number that is rounded to the double
(`roundsTo_denoted`). So the text determines the double, and results with the same
text are the same number, or both are none (`write_eq_iff`).

## Main definitions

* `leading?`: The first character of a text behind its sign.

## Theorems

* `exponent_ne_zero`, `exponent_neg`: The exponents of shortest decimals.
* `writeUnits_scientific`, `writeUnits_integer`, `writeUnits_fraction`: The three ways in
  which results are written.
* `roundsTo_denoted`: What is denoted is rounded to the double.
* `leading?_eq_iff_nan`, `leading?_eq_iff_infinite`: What is not finite is told by its letters.
* `write_eq_iff`: Which results share a text.
* `isNearest_limits`: The limits.
* `results_canonical`: The texts of all finite results but zero, and what they determine.
-/

namespace Reckoner

open Binary64 (parts ofPattern pattern patternUnits infinityPattern magnitude rational? signed
  unitsPerOne fractionSize RoundsTo IsNearest IsNearestPattern)
open Decimal (shortest digitsOf denoted denotedMagnitude IsNumeral IsScientific IsPositional
  IsShortest)

section Exponents

variable {body : Nat} (hbody : body < infinityPattern) (hne : body ≠ 0)
include hbody hne

/-- In exponent notation no exponent is zero. -/
theorem exponent_ne_zero (hrange : Binary64.units Layout.result.large ≤ patternUnits body ∨
      patternUnits body < Binary64.units Layout.result.small) :
    (shortest (patternUnits body)).exponent
      + ((digitsOf (shortest (patternUnits body)).digits).length - 1 : ℕ) ≠ 0 := by
  intro hzero
  have hone := Binary64.unitsPerOne_pos
  have hpos := (Decimal.shortest_digits hbody hne).1
  rcases Decimal.value_of_exponent_eq_zero hpos hzero with ⟨hlow, hhigh⟩
  have hnearest := Decimal.isNearestPattern_shortest hbody hne
  have hhalf := hnearest.magnitude_le hne
  have hnext := hnearest.two_mul_le hne
  rcases hrange with hlarge | hsmall
  · have hlimit : 20 * unitsPerOne ≤ Binary64.units Layout.result.large := by decide +kernel
    have hunits : 20 * unitsPerOne ≤ patternUnits body := hlimit.trans hlarge
    have hmagnitude : 20 ≤ magnitude body := by
      rw [magnitude, le_div_iff₀ hone]
      exact_mod_cast hunits
    linarith
  · have hlimit : 2 * Binary64.units Layout.result.small ≤ unitsPerOne := by decide +kernel
    have hunits : 2 * patternUnits body ≤ unitsPerOne := by omega
    have hmagnitude : 2 * magnitude body ≤ 1 := by
      rw [magnitude, ← mul_div_assoc, div_le_iff₀ hone, one_mul]
      exact_mod_cast hunits
    linarith

/-- A decimal without digits behind the point is not the shortest of a double that is no integer. -/
theorem exponent_neg (hmod : patternUnits body % unitsPerOne ≠ 0) :
    (shortest (patternUnits body)).exponent < 0 := by
  have hnearest := Decimal.isNearestPattern_shortest hbody hne
  have hnext := hnearest.two_mul_le hne
  have hless := Binary64.magnitude_lt_of_mod_ne_zero hmod
  refine lt_of_not_ge fun hexponent => hmod ?_
  rcases Int.eq_ofNat_of_zero_le hexponent with ⟨zeros, hzeros⟩
  -- The integer is a double itself.
  have hvalue : (shortest (patternUnits body)).value
      = ((shortest (patternUnits body)).digits * 10 ^ zeros : ℕ) := by
    rw [Decimal.value, hzeros, zpow_natCast, Nat.cast_mul, Nat.cast_pow, Nat.cast_ofNat]
  generalize (shortest (patternUnits body)).digits * 10 ^ zeros = n at hvalue
  rw [hvalue] at hnearest hnext
  have hn : n < 2 * fractionSize := by
    have hcast : (n : ℚ) < 2 * fractionSize := by linarith
    exact_mod_cast hcast
  rcases Binary64.exists_magnitude_eq hn with ⟨body', hmagnitude, hinteger⟩
  have hself := Binary64.isNearestPattern_magnitude body'
  rw [hmagnitude] at hself
  rw [hnearest.unique hself]
  exact hinteger

/-- Beyond the limits the shortest decimal is written in exponent notation. -/
theorem writeUnits_scientific (hrange : Binary64.units Layout.result.large ≤ patternUnits body ∨
      patternUnits body < Binary64.units Layout.result.small) :
    IsScientific (Layout.result.writeUnits (patternUnits body)) ∧
      denotedMagnitude (Layout.result.writeUnits (patternUnits body))
        = (shortest (patternUnits body)).value := by
  rcases Decimal.shortest_digits hbody hne with ⟨hpos, hmod⟩
  rw [Layout.writeUnits, if_pos hrange]
  exact Decimal.isScientific_scientific hpos hmod (exponent_ne_zero hbody hne hrange)

section Positional

variable (hrange : ¬(Binary64.units Layout.result.large ≤ patternUnits body ∨
  patternUnits body < Binary64.units Layout.result.small))
include hrange

omit hbody in
/-- Within them an integer is written with all its digits. -/
theorem writeUnits_integer {n : Nat} (hn : magnitude body = n) :
    Layout.result.writeUnits (patternUnits body) = digitsOf n ∧
      IsNumeral (Layout.result.writeUnits (patternUnits body)) ∧
      denotedMagnitude (Layout.result.writeUnits (patternUnits body)) = magnitude body := by
  have hunits : patternUnits body = n * unitsPerOne := by
    rw [magnitude, div_eq_iff Binary64.unitsPerOne_pos.ne', ← Nat.cast_mul, Nat.cast_inj] at hn
    exact hn
  have htext : Layout.result.writeUnits (patternUnits body) = digitsOf n := by
    rw [Layout.writeUnits, if_neg hrange, hunits, Nat.mul_mod_left, if_pos rfl,
      Nat.mul_div_cancel _ Binary64.zero_lt_unitsPerOne]
    exact List.append_nil _
  have hpos : 0 < n := by
    have hmagnitude := Binary64.magnitude_pos hne
    rw [hn] at hmagnitude
    exact Nat.cast_pos.mp hmagnitude
  rw [htext, Decimal.denotedMagnitude_digitsOf, hn]
  exact ⟨rfl, Decimal.isNumeral_digitsOf hpos, rfl⟩

/-- And so is the shortest decimal of any other number, around its point. -/
theorem writeUnits_fraction (hn : ∀ n : ℕ, magnitude body ≠ n) :
    IsPositional (Layout.result.writeUnits (patternUnits body)) ∧
      denotedMagnitude (Layout.result.writeUnits (patternUnits body))
        = (shortest (patternUnits body)).value := by
  have hmod : patternUnits body % unitsPerOne ≠ 0 := by
    intro hzero
    refine hn (patternUnits body / unitsPerOne) ?_
    rw [magnitude, Nat.cast_div (Nat.dvd_of_mod_eq_zero hzero) Binary64.unitsPerOne_pos.ne']
  rcases Decimal.shortest_digits hbody hne with ⟨hpos, hten⟩
  rw [Layout.writeUnits, if_neg hrange, if_neg hmod]
  exact Decimal.isPositional_positional hpos hten (exponent_neg hbody hne hmod)

end Positional

-- Texts of all three forms begin with a digit.
omit hbody hne in
theorem exists_isDigit {text : List Char}
    (h : IsScientific text ∨ IsNumeral text ∨ IsPositional text) :
    ∃ c rest, text = c :: rest ∧ c.isDigit = true := by
  have hdigits : ∀ {digits rest : List Char}, digits ≠ [] → (∀ c ∈ digits, c.isDigit = true) →
      ∃ c rest', digits ++ rest = c :: rest' ∧ c.isDigit = true := by
    intro digits rest hne hall
    rcases List.exists_cons_of_ne_nil hne with ⟨c, digits, rfl⟩
    exact ⟨c, digits ++ rest, rfl, hall c List.mem_cons_self⟩
  rcases h with ⟨first, behind, sign, exponent, rfl, hfirst, -⟩ | hnumeral |
    ⟨whole, fraction, rfl, rfl | hwhole, -⟩
  · exact ⟨first, _, rfl, hfirst.2.1 first List.mem_cons_self⟩
  · rw [← List.append_nil text]
    exact hdigits hnumeral.1 hnumeral.2.1
  · exact ⟨'0', _, rfl, rfl⟩
  · exact hdigits hwhole.1 hwhole.2.1

/-- In each of the three forms the text begins with a digit, and what it denotes is rounded to the
    pattern. -/
theorem writeUnits_denotes :
    (∃ c rest, Layout.result.writeUnits (patternUnits body) = c :: rest ∧ c.isDigit = true) ∧
      IsNearestPattern (denotedMagnitude (Layout.result.writeUnits (patternUnits body))) body := by
  by_cases hrange : Binary64.units Layout.result.large ≤ patternUnits body ∨
      patternUnits body < Binary64.units Layout.result.small
  · rcases writeUnits_scientific hbody hne hrange with ⟨hform, hvalue⟩
    rw [hvalue]
    exact ⟨exists_isDigit (Or.inl hform), Decimal.isNearestPattern_shortest hbody hne⟩
  · by_cases hinteger : ∃ n : ℕ, magnitude body = n
    · rcases hinteger with ⟨n, hn⟩
      rcases writeUnits_integer hne hrange hn with ⟨-, hform, hvalue⟩
      rw [hvalue]
      exact ⟨exists_isDigit (Or.inr (Or.inl hform)), Binary64.isNearestPattern_magnitude body⟩
    · rcases writeUnits_fraction hbody hne hrange (not_exists.mp hinteger) with ⟨hform, hvalue⟩
      rw [hvalue]
      exact ⟨exists_isDigit (Or.inr (Or.inr hform)), Decimal.isNearestPattern_shortest hbody hne⟩

end Exponents

section Doubles

variable {negative : Bool} {body : Nat} (hbody : body < infinityPattern) (hne : body ≠ 0)
include hbody hne

theorem toList_write :
    (Layout.result.write (ofPattern negative body)).toList
      = Layout.signed negative (Layout.result.writeUnits (patternUnits body)) := by
  rw [write_of_parts Layout.result (Binary64.parts_ofPattern hbody)
    (Nat.ne_of_gt (Binary64.patternUnits_pos hne)), String.toList_ofList]

/-- The text of a result denotes what the text of its magnitude does, with its sign. -/
theorem denoted_write :
    denoted (Layout.result.write (ofPattern negative body)).toList
      = signed negative (denotedMagnitude (Layout.result.writeUnits (patternUnits body))) := by
  rcases (writeUnits_denotes hbody hne).1 with ⟨c, rest, htext, hc⟩
  rw [toList_write hbody hne, htext]
  exact Decimal.denoted_signed hc negative rest

/-- What the text of a result denotes is rounded to the result. -/
theorem roundsTo_denoted :
    RoundsTo (denoted (Layout.result.write (ofPattern negative body)).toList)
      (ofPattern negative body) := by
  have hnearest := (writeUnits_denotes hbody hne).2
  have hhalf := hnearest.magnitude_le hne
  have hpos := Binary64.magnitude_pos hne
  rw [denoted_write hbody hne]
  exact (Binary64.roundsTo_signed_iff hbody hne).mpr ⟨by linarith, hnearest⟩

end Doubles

section Same

/-- The first character of a text behind its sign. -/
def leading? (text : List Char) : Option Char :=
  (text.dropWhile (· == '-')).head?

theorem leading?_signed (negative : Bool) {c : Char} (hc : c ≠ '-') (rest : List Char) :
    leading? (Layout.signed negative (c :: rest)) = some c := by
  have hkept : ¬(c == '-') = true := mt beq_iff_eq.mp hc
  have hrest : leading? (c :: rest) = some c := by
    rw [leading?, List.dropWhile_cons, if_neg hkept, List.head?_cons]
  cases negative with
  | false => exact hrest
  | true => exact hrest

variable {v : Float} {negative : Bool} {units : Nat}

-- What is no number, what is infinite and what is finite are told by that character.
theorem leading?_of_nan (h : parts v = .nan) :
    leading? (Layout.result.write v).toList = some 'N' := by
  rw [Layout.write, h, String.toList_ofList]
  rfl

theorem leading?_of_infinite (h : parts v = .infinite negative) :
    leading? (Layout.result.write v).toList = some 'I' := by
  rw [Layout.write, h, String.toList_ofList]
  exact leading?_signed negative (by decide) _

theorem exists_leading?_of_finite (h : parts v = .finite negative units) :
    ∃ c, leading? (Layout.result.write v).toList = some c ∧ c.isDigit = true := by
  rcases Binary64.eq_ofPattern_of_parts h with ⟨body, hbody, rfl, rfl⟩
  by_cases hne : body = 0
  · subst hne
    rw [write_zero h, String.toList_ofList]
    exact ⟨'0', rfl, rfl⟩
  · rcases (writeUnits_denotes hbody hne).1 with ⟨c, rest, htext, hc⟩
    refine ⟨c, ?_, hc⟩
    rw [toList_write hbody hne, htext]
    exact leading?_signed negative (Decimal.ne_sign_of_isDigit hc) rest

theorem leading?_eq_iff_nan : leading? (Layout.result.write v).toList = some 'N' ↔
    parts v = .nan := by
  refine ⟨fun hleading => ?_, leading?_of_nan⟩
  rcases h : parts v with _ | negative | ⟨negative, units⟩
  · rfl
  · rw [leading?_of_infinite h] at hleading
    exact absurd hleading (by decide)
  · rcases exists_leading?_of_finite h with ⟨c, hc, hdigit⟩
    rw [hc, Option.some.injEq] at hleading
    rw [hleading] at hdigit
    exact absurd hdigit (by decide)

theorem leading?_eq_iff_infinite : leading? (Layout.result.write v).toList = some 'I' ↔
    ∃ negative, parts v = .infinite negative := by
  refine ⟨fun hleading => ?_, fun ⟨negative, h⟩ => leading?_of_infinite h⟩
  rcases h : parts v with _ | negative | ⟨negative, units⟩
  · rw [leading?_of_nan h] at hleading
    exact absurd hleading (by decide)
  · exact ⟨negative, rfl⟩
  · rcases exists_leading?_of_finite h with ⟨c, hc, hdigit⟩
    rw [hc, Option.some.injEq] at hleading
    rw [hleading] at hdigit
    exact absurd hdigit (by decide)

-- Only zeros are written as a zero, since that is not rounded to anything else.
theorem write_ne_zero {body : Nat} (hbody : body < infinityPattern) (hne : body ≠ 0) :
    Layout.result.write (ofPattern negative body) ≠ String.ofList ['0'] := by
  intro htext
  have hrounds := @roundsTo_denoted negative body hbody hne
  have hzero : denoted ['0'] = 0 :=
    (Decimal.denoted_signed rfl false []).trans (Decimal.denotedMagnitude_digitsOf 0)
  rw [htext, String.toList_ofList, hzero] at hrounds
  have hpos := (hrounds.pos_of_signed hbody hne).1
  cases negative with
  | false => exact absurd hpos (lt_irrefl 0)
  | true => exact absurd hpos (not_lt_of_ge (neg_nonpos_of_nonneg le_rfl))

/-- Finite results with the same text are the same double or the two zeros. -/
theorem eq_of_write_eq {negative' : Bool} {body body' : Nat} (hbody : body < infinityPattern)
    (hbody' : body' < infinityPattern)
    (h : Layout.result.write (ofPattern negative body)
      = Layout.result.write (ofPattern negative' body')) :
    ofPattern negative body = ofPattern negative' body' ∨ body = 0 ∧ body' = 0 := by
  have hzero : ∀ negative, Layout.result.write (ofPattern negative 0) = String.ofList ['0'] :=
    fun negative => write_zero (Binary64.parts_ofPattern (by decide))
  by_cases hne : body = 0
  · by_cases hne' : body' = 0
    · exact Or.inr ⟨hne, hne'⟩
    · rw [hne, hzero] at h
      exact absurd h.symm (write_ne_zero hbody' hne')
  · by_cases hne' : body' = 0
    · rw [hne', hzero] at h
      exact absurd h (write_ne_zero hbody hne)
    · have hrounds := @roundsTo_denoted negative' body' hbody' hne'
      rw [← h] at hrounds
      exact Or.inl ((roundsTo_denoted hbody hne).unique hbody hbody' hne hne' hrounds)

-- The zeros are equal.
theorem eq_or_zeros {negative' : Bool} {body body' : Nat}
    (h : ofPattern negative body = ofPattern negative' body' ∨ body = 0 ∧ body' = 0) :
    ofPattern negative body = ofPattern negative' body' ∨
      ∃ sign, ofPattern negative body = ofPattern sign 0 ∧
        ofPattern negative' body' = ofPattern (!sign) 0 := by
  rcases h with hsame | ⟨rfl, rfl⟩
  · exact Or.inl hsame
  · by_cases hsign : negative = negative'
    · exact Or.inl (by rw [hsign])
    · refine Or.inr ⟨negative, rfl, ?_⟩
      rw [Bool.eq_not_of_ne (Ne.symm hsign)]

-- The signs of infinities are written.
theorem eq_of_write_eq_infinite {v v' : Float} {negative' : Bool}
    (hv : parts v = .infinite negative) (hv' : parts v' = .infinite negative')
    (h : Layout.result.write v = Layout.result.write v') : v = v' := by
  rw [Layout.write, hv, Layout.write, hv'] at h
  rw [Binary64.eq_ofPattern_of_parts_infinite hv, Binary64.eq_ofPattern_of_parts_infinite hv']
  cases negative with
  | false => cases negative' with
    | false => rfl
    | true => exact absurd h (by decide)
  | true => cases negative' with
    | false => exact absurd h (by decide)
    | true => rfl

/-- Results with the same text are equal, or both are no number. -/
theorem write_eq_iff (v v' : Float) : Layout.result.write v = Layout.result.write v' ↔
    (v == v') = true ∨ v.isNaN = true ∧ v'.isNaN = true := by
  rw [Binary64.beq_iff, Binary64.isNaN_iff, Binary64.isNaN_iff, ← Binary64.parts_eq_nan_iff,
    ← Binary64.parts_eq_nan_iff]
  constructor
  · intro h
    have hnan : parts v = .nan ↔ parts v' = .nan := by
      rw [← leading?_eq_iff_nan, h, leading?_eq_iff_nan]
    have hinfinite : (∃ negative, parts v = .infinite negative) ↔
        ∃ negative, parts v' = .infinite negative := by
      rw [← leading?_eq_iff_infinite, h, leading?_eq_iff_infinite]
    by_cases hnone : parts v = .nan
    · exact Or.inr ⟨hnone, hnan.mp hnone⟩
    · refine Or.inl ⟨mt Binary64.parts_eq_nan_iff.mpr hnone,
        mt Binary64.parts_eq_nan_iff.mpr (mt hnan.mpr hnone), ?_⟩
      rcases hv : parts v with _ | negative | ⟨negative, units⟩
      · exact absurd hv hnone
      · rcases hinfinite.mp ⟨negative, hv⟩ with ⟨negative', hv'⟩
        exact Or.inl (eq_of_write_eq_infinite hv hv' h)
      · rcases hv' : parts v' with _ | negative' | ⟨negative', units'⟩
        · exact absurd (hnan.mpr hv') hnone
        · rcases hinfinite.mpr ⟨negative', hv'⟩ with ⟨_, hfalse⟩
          rw [hv] at hfalse
          cases hfalse
        · rcases Binary64.eq_ofPattern_of_parts hv with ⟨body, hbody, -, rfl⟩
          rcases Binary64.eq_ofPattern_of_parts hv' with ⟨body', hbody', -, rfl⟩
          exact eq_or_zeros (eq_of_write_eq hbody hbody' h)
  · rintro (⟨-, -, rfl | ⟨negative, rfl, rfl⟩⟩ | ⟨hv, hv'⟩)
    · rfl
    · rw [write_zero (Binary64.parts_ofPattern (by decide)),
        write_zero (Binary64.parts_ofPattern (by decide))]
    · rw [Layout.write, hv, Layout.write, hv']

end Same

-- The limits are the doubles that are nearest to the powers of ten.
theorem isNearest_limits : IsNearest (10 ^ 21) Layout.result.large ∧
    IsNearest (1 / 10 ^ 6) Layout.result.small := by
  have hlarge := Binary64.isNearest_nearest (Nat.pow 10 21) Nat.one_pos
  have hsmall := Binary64.isNearest_nearest 1 (show 0 < Nat.pow 10 6 by decide)
  have hten : ∀ n : ℕ, ((Nat.pow 10 n : ℕ) : ℚ) = 10 ^ n := Nat.cast_pow 10
  rw [hten, Nat.cast_one, div_one] at hlarge
  rw [hten, Nat.cast_one] at hsmall
  unfold Layout.result
  exact ⟨hlarge, hsmall⟩

-- The sign is written exactly in front of negative numbers.
theorem signed_eq_ite {q : ℚ} (hq : 0 < q) (negative : Bool) (text : List Char) :
    Layout.signed negative text = if signed negative q < 0 then '-' :: text else text := by
  cases negative with
  | false =>
      have hsign : ¬signed false q < 0 := not_lt_of_gt hq
      rw [if_neg hsign]
      rfl
  | true =>
      have hsign : signed true q < 0 := neg_neg_of_pos hq
      rw [if_pos hsign]
      rfl

section Finite

variable {negative : Bool} {body : Nat} (hbody : body < infinityPattern) (hne : body ≠ 0)
include hbody

theorem beyond_limits_iff :
    (Layout.result.large ≤ (ofPattern negative body).abs ∨
      (ofPattern negative body).abs < Layout.result.small) ↔
      Binary64.units Layout.result.large ≤ patternUnits body ∨
        patternUnits body < Binary64.units Layout.result.small := by
  have hparts := @Binary64.parts_ofPattern negative body hbody
  rcases parts_limits with ⟨hsmall, hlarge, -⟩
  rw [Binary64.le_abs_iff hparts hlarge, Binary64.abs_lt_iff hparts hsmall]

include hne

/-- What denotes the shortest decimal of the magnitude is the shortest. -/
theorem isShortest_denoted (h : denotedMagnitude (Layout.result.writeUnits (patternUnits body))
      = (shortest (patternUnits body)).value) :
    IsShortest (denoted (Layout.result.write (ofPattern negative body)).toList)
      (ofPattern negative body) := by
  rw [denoted_write hbody hne, h]
  exact Decimal.isShortest_shortest hbody hne

end Finite

/-- The texts of results are canonical, shortest and tell the results apart.

    * The limits are the doubles nearest to `10 ^ 21` and to one millionth.
    * The text of a finite result that is not zero is that of its magnitude, behind a minus sign
      exactly if the result is negative.
    * Beyond the limits it is in exponent notation, and what it denotes is the shortest decimal:
      it is rounded to the result, no decimal that is has fewer significant digits, and none with
      as many is closer.
    * Within the limits an integer is written with all its digits and denotes itself.
    * Any other result has digits on both sides of a point and denotes the shortest decimal.
    * Two results have the same text if and only if they are equal or both are no number. -/
theorem results_canonical :
    (IsNearest (10 ^ 21) Layout.result.large ∧ IsNearest (1 / 10 ^ 6) Layout.result.small) ∧
    (∀ (v : Float) (p : ℚ), rational? v = some p → p ≠ 0 → ∃ text,
      (Layout.result.write v).toList = (if p < 0 then '-' :: text else text) ∧
      (Layout.result.large ≤ v.abs ∨ v.abs < Layout.result.small →
        IsScientific text ∧ IsShortest (denoted (Layout.result.write v).toList) v) ∧
      (¬(Layout.result.large ≤ v.abs ∨ v.abs < Layout.result.small) →
        (∀ n : ℕ, |p| = n → text = Nat.toDigits 10 n ∧ IsNumeral text ∧
          denoted (Layout.result.write v).toList = p) ∧
        ((∀ n : ℕ, |p| ≠ n) → IsPositional text ∧
          IsShortest (denoted (Layout.result.write v).toList) v))) ∧
    ∀ v v' : Float, Layout.result.write v = Layout.result.write v' ↔
      (v == v') = true ∨ v.isNaN = true ∧ v'.isNaN = true := by
  refine ⟨isNearest_limits, fun v p hv hp => ?_, write_eq_iff⟩
  rcases Binary64.exists_ofPattern_of_rational? hv with ⟨negative, body, hbody, rfl, rfl⟩
  have hne : body ≠ 0 := by
    rintro rfl
    rw [Binary64.magnitude_zero] at hp
    cases negative with
    | false => exact hp rfl
    | true => exact hp neg_zero
  have hpos := Binary64.magnitude_pos hne
  rw [Binary64.abs_signed, abs_of_pos hpos, beyond_limits_iff hbody]
  refine ⟨Layout.result.writeUnits (patternUnits body), ?_, fun hrange => ?_,
    fun hrange => ⟨fun n hn => ?_, fun hn => ?_⟩⟩
  · rw [toList_write hbody hne]
    exact signed_eq_ite hpos negative _
  · rcases writeUnits_scientific hbody hne hrange with ⟨hform, hvalue⟩
    exact ⟨hform, isShortest_denoted hbody hne hvalue⟩
  · rcases writeUnits_integer hne hrange hn with ⟨htext, hform, hvalue⟩
    refine ⟨htext, hform, ?_⟩
    rw [denoted_write hbody hne, hvalue]
  · rcases writeUnits_fraction hbody hne hrange hn with ⟨hform, hvalue⟩
    exact ⟨hform, isShortest_denoted hbody hne hvalue⟩

/-- The negative double next to zero, the one that is read from `0.1`, and `2 ^ 69`. -/
theorem smallest_tenth_and_power_canonical :
    (rational? (ofPattern true 1) = some (signed true (magnitude 1)) ∧
      signed true (magnitude 1) ≠ 0 ∧
      (ofPattern true 1).abs < Layout.result.small ∧
      Layout.result.write (ofPattern true 1) = "-5e-324" ∧
      IsScientific "5e-324".toList ∧ IsShortest (denoted "-5e-324".toList) (ofPattern true 1)) ∧
    (rational? (ofPattern false 0x3FB999999999999A)
        = some (signed false (magnitude 0x3FB999999999999A)) ∧
      (∀ n : ℕ, |signed false (magnitude 0x3FB999999999999A)| ≠ n) ∧
      Layout.result.write (ofPattern false 0x3FB999999999999A) = "0.1" ∧
      IsPositional "0.1".toList ∧
      IsShortest (denoted "0.1".toList) (ofPattern false 0x3FB999999999999A)) ∧
    (rational? (ofPattern false 0x4440000000000000)
        = some (signed false (magnitude 0x4440000000000000)) ∧
      |signed false (magnitude 0x4440000000000000)| = (2 ^ 69 : ℕ) ∧
      Layout.result.write (ofPattern false 0x4440000000000000) = "590295810358705651712" ∧
      denoted "590295810358705651712".toList = signed false (magnitude 0x4440000000000000)) := by
  rcases results_canonical with ⟨-, hcanonical, -⟩
  have hone := Binary64.unitsPerOne_pos
  refine ⟨?_, ?_, ?_⟩
  · have hp := Binary64.rational?_signed (show 1 < infinityPattern by decide) true
    have hpos := Binary64.magnitude_pos Nat.one_ne_zero
    have hne : signed true (magnitude 1) ≠ 0 := (neg_neg_of_pos hpos).ne
    have hsmall : (ofPattern true 1).abs < Layout.result.small := by decide +kernel
    have hwrite : Layout.result.write (ofPattern true 1) = "-5e-324" := by decide +kernel
    rcases hcanonical _ _ hp hne with ⟨text, htext, hbeyond, -⟩
    have hsign : signed true (magnitude 1) < 0 := neg_neg_of_pos hpos
    rw [hwrite, if_pos hsign] at htext
    have hdigits : "5e-324".toList = text := List.tail_eq_of_cons_eq htext
    have hshortest := hbeyond (Or.inr hsmall)
    rw [hwrite, ← hdigits] at hshortest
    exact ⟨hp, hne, hsmall, hwrite, hshortest⟩
  · have hp := Binary64.rational?_signed (show 0x3FB999999999999A < infinityPattern by decide) false
    have hpos := Binary64.magnitude_pos (show 0x3FB999999999999A ≠ 0 by decide)
    have hless : magnitude 0x3FB999999999999A < 1 := by
      rw [magnitude, div_lt_one hone, Nat.cast_lt]
      decide +kernel
    have hfraction : ∀ n : ℕ, |signed false (magnitude 0x3FB999999999999A)| ≠ n := by
      intro n hn
      rw [Binary64.abs_signed, abs_of_pos hpos] at hn
      rw [hn, Nat.cast_lt_one] at hless
      rw [hn, hless, Nat.cast_zero] at hpos
      exact lt_irrefl 0 hpos
    have hlimits : ¬(Layout.result.large ≤ (ofPattern false 0x3FB999999999999A).abs ∨
        (ofPattern false 0x3FB999999999999A).abs < Layout.result.small) := by decide +kernel
    have hwrite : Layout.result.write (ofPattern false 0x3FB999999999999A) = "0.1" := by
      decide +kernel
    have hsign : ¬signed false (magnitude 0x3FB999999999999A) < 0 := not_lt_of_gt hpos
    rcases hcanonical _ _ hp hpos.ne' with ⟨text, htext, -, hwithin⟩
    rw [hwrite, if_neg hsign] at htext
    have hshortest := (hwithin hlimits).2 hfraction
    rw [hwrite, ← htext] at hshortest
    exact ⟨hp, hfraction, hwrite, hshortest⟩
  · have hp := Binary64.rational?_signed (show 0x4440000000000000 < infinityPattern by decide) false
    have hpos := Binary64.magnitude_pos (show 0x4440000000000000 ≠ 0 by decide)
    have hinteger : |signed false (magnitude 0x4440000000000000)| = (2 ^ 69 : ℕ) := by
      rw [Binary64.abs_signed, abs_of_pos hpos, magnitude, div_eq_iff hone.ne', ← Nat.cast_mul,
        Nat.cast_inj]
      decide +kernel
    have hlimits : ¬(Layout.result.large ≤ (ofPattern false 0x4440000000000000).abs ∨
        (ofPattern false 0x4440000000000000).abs < Layout.result.small) := by decide +kernel
    have hwrite : Layout.result.write (ofPattern false 0x4440000000000000)
        = "590295810358705651712" := by
      decide +kernel
    rcases hcanonical _ _ hp hpos.ne' with ⟨text, -, -, hwithin⟩
    rcases (hwithin hlimits).1 _ hinteger with ⟨-, -, hdenoted⟩
    rw [hwrite] at hdenoted
    exact ⟨hp, hinteger, hwrite, hdenoted⟩

-- Positional notation begins at the lower limit, and it ends before the upper one.
example : Layout.result.write Layout.result.small = "0.000001" := by decide +kernel
example : Layout.result.write Layout.result.large = "1e+21" := by decide +kernel

-- Two shortest decimals are as close as each other here, and the larger one is written.
example : Layout.result.write (Binary64.nearest 1 (2 ^ 25)) = "2.9802322387695313e-8" := by
  decide +kernel

end Reckoner
