import Reckoner.Decimal.Layout
import Reckoner.Proofs.Binary64.Pattern
import Reckoner.Proofs.Literal.Reading

/-!
# Written Numbers Read Back

That the text of a magnitude is a literal with that magnitude as its value, if it is
written without an exponent.

There are two reasons for it, one for each kind of number. An integer shows all its
digits, so nothing is lost. Anything else shows the decimal that the search has found, and
the search stops at nothing that is not read back: each candidate is tried, and the last
resort is the number itself (`search_passes`). The candidates are tried as
numbers of steps, and a literal is read as digits and decimal places. The two
are the same quotient (`value?_positional`).

In exponent notation the digits before the exponent are a literal as well, but
the letter behind them is not part of any token. So the text of such a number
begins with a number that the text is not about, and it matters that it does not end
there (`scientific_eq`).

## Theorems

* `onGrid?_passes`, `search_passes`: What is found has passed the test.
* `shortest_readsBack`: The shortest decimal is read back.
* `isDigit_of_mem_digitsOf`, `ofDigitChars_digitsOf`: The digits of a number.
* `positional_negSucc`, `positional_eq`: The forms of a decimal around its point.
* `value?_positional`: The value of a decimal around its point.
* `isLiteral_positional`, `isLiteral_digitsOf`: It is a literal.
* `value?_shortest`, `value?_integer`: The values of written magnitudes.
* `scientific_eq`: Exponent notation is a literal and then a letter.
-/

namespace Reckoner

namespace Decimal

open Binary64 (pattern patternUnits unitsPerOne nearest ofPattern)

-- A neighbour on a grid is taken only after it was tried.
theorem onGrid?_passes {test : Nat → Bool} {steps grid digits : Nat}
    (h : onGrid? test steps grid = some digits) : test (digits * Nat.pow 10 grid) = true := by
  unfold onGrid? at h
  dsimp only at h
  split at h
  · rename_i hbelow habove
    split at h
    · rw [← Option.some.inj h]
      exact hbelow
    · rw [← Option.some.inj h]
      exact habove
  · rename_i hbelow _
    rw [← Option.some.inj h]
    exact hbelow
  · rename_i _ habove
    rw [← Option.some.inj h]
    exact habove
  · cases h

/-- What the search finds passes the test, if the number itself does. -/
theorem search_passes {test : Nat → Bool} {steps : Nat} (h : test steps = true) (first : Nat) :
    ∃ grid : Nat, (search (onGrid? test steps) steps first).exponent = (grid : Int) - places ∧
      test ((search (onGrid? test steps) steps first).digits * Nat.pow 10 grid) = true := by
  induction first with
  | zero =>
      have hfinest : steps * Nat.pow 10 0 = steps := Nat.mul_one steps
      refine ⟨0, (Int.zero_sub _).symm, ?_⟩
      rw [search, hfinest]
      exact h
  | succ first ih =>
      rcases hgrid : onGrid? test steps (first + 1) with _ | digits
      · simp only [search, hgrid]
        exact ih
      · simp only [search, hgrid]
        exact ⟨first + 1, rfl, onGrid?_passes hgrid⟩

-- One step is so small that both its factors are needed to make one from steps. The
-- exponent is kept general, since the powers are too large to be computed.
theorem two_pow_mul_five_pow (n : Nat) : Nat.pow 2 n * Nat.pow 5 n = Nat.pow 10 n :=
  (Nat.mul_pow 2 5 n).symm

theorem five_pow_pos (n : Nat) : 0 < Nat.pow 5 n :=
  Nat.pow_pos (by decide)

theorem unitsPerOne_mul_stepsPerUnit : unitsPerOne * stepsPerUnit = Nat.pow 10 places := by
  unfold unitsPerOne stepsPerUnit places
  generalize 1074 = n
  exact two_pow_mul_five_pow n

theorem stepsPerUnit_pos : 0 < stepsPerUnit := by
  unfold stepsPerUnit
  exact five_pow_pos places

/-- The shortest decimal of a magnitude is read back. -/
theorem shortest_readsBack (units : Nat) :
    ∃ grid : Nat, (shortest units).exponent = (grid : Int) - places ∧
      pattern ((shortest units).digits * Nat.pow 10 grid) stepsPerUnit = pattern units 1 := by
  have hself : readsBack (pattern units 1) (units * stepsPerUnit) = true := by
    rw [readsBack, beq_iff_eq]
    refine Binary64.pattern_eq_of_mul_eq_mul stepsPerUnit_pos Nat.one_pos ?_
    rw [Nat.mul_one]
  rcases search_passes hself (Nat.toDigits 10 (units * stepsPerUnit)).length with
    ⟨grid, hexponent, hreads⟩
  rw [readsBack, beq_iff_eq] at hreads
  exact ⟨grid, hexponent, hreads⟩

section Digits

theorem isDigit_of_mem_digitsOf {n : Nat} : ∀ c ∈ digitsOf n, c.isDigit = true :=
  fun _ => Nat.isDigit_of_mem_toDigits (by decide) (by decide)

theorem digitsOf_ne_nil (n : Nat) : digitsOf n ≠ [] :=
  Nat.toDigits_ne_nil

theorem ofDigitChars_digitsOf (n : Nat) : Nat.ofDigitChars 10 (digitsOf n) 0 = n :=
  Nat.ofDigitChars_toDigits (by decide) (by decide)

theorem isDigit_of_mem_zeros {n : Nat} : ∀ c ∈ List.replicate n '0', c.isDigit = true := by
  intro c hc
  rw [List.eq_of_mem_replicate hc]
  rfl

-- Zeros in front of digits count for nothing.
theorem ofDigitChars_zeros_append (zeros : Nat) (digits : List Char) :
    Nat.ofDigitChars 10 (List.replicate zeros '0' ++ digits) 0 = Nat.ofDigitChars 10 digits 0 := by
  rw [Nat.ofDigitChars_append, Nat.ofDigitChars_replicate_zero, Nat.mul_zero]

end Digits

/-- If digits stand behind the point, then either these are the last ones and the others stand in
    front of it, or all of them are, behind zeros and with a zero in front of the point. -/
theorem positional_negSucc (n behind : Nat) :
    ∃ whole fraction, positional ⟨n, .negSucc behind⟩ = whole ++ '.' :: fraction ∧
      fraction.length = behind + 1 ∧ Nat.ofDigitChars 10 (whole ++ fraction) 0 = n ∧
      ((∃ count, 0 < count ∧ count < (digitsOf n).length ∧
          whole = (digitsOf n).take count ∧ fraction = (digitsOf n).drop count) ∨
        ∃ zeros, whole = ['0'] ∧ fraction = List.replicate zeros '0' ++ digitsOf n) := by
  by_cases hinside : behind + 1 < (digitsOf n).length
  · refine ⟨_, _, ?_, ?_, ?_, Or.inl ⟨(digitsOf n).length - (behind + 1), ?_, ?_, rfl, rfl⟩⟩
    · simp only [positional, if_pos hinside]
    · rw [List.length_drop]
      omega
    · rw [List.take_append_drop]
      exact ofDigitChars_digitsOf n
    · omega
    · omega
  · refine ⟨_, _, ?_, ?_, ?_, Or.inr ⟨behind + 1 - (digitsOf n).length, rfl, rfl⟩⟩
    · simp only [positional, if_neg hinside]
      rfl
    · rw [List.length_append, List.length_replicate]
      omega
    · have hzeros := ofDigitChars_zeros_append (behind + 1 - (digitsOf n).length + 1) (digitsOf n)
      rw [List.replicate_succ, ofDigitChars_digitsOf] at hzeros
      exact hzeros

/-- The three forms of a decimal around its point: an integer, and digits with so many of
    them behind the point. -/
theorem positional_eq (d : Decimal) :
    (∃ zeros : Nat, d.exponent = zeros ∧
        d.positional = digitsOf d.digits ++ List.replicate zeros '0') ∨
      ∃ (behind : Nat) (whole fraction : List Char), d.exponent = -(behind : Int) ∧ whole ≠ [] ∧
        (∀ c ∈ whole, c.isDigit = true) ∧ (∀ c ∈ fraction, c.isDigit = true) ∧
        fraction.length = behind ∧ Nat.ofDigitChars 10 (whole ++ fraction) 0 = d.digits ∧
        d.positional = whole ++ '.' :: fraction := by
  rcases d with ⟨n, zeros | k⟩
  · exact Or.inl ⟨zeros, rfl, rfl⟩
  · rcases positional_negSucc n k with ⟨whole, fraction, htext, hlength, hdigits,
      ⟨count, hpos, -, rfl, rfl⟩ | ⟨zeros, rfl, rfl⟩⟩
    · refine Or.inr ⟨k + 1, _, _, rfl, ?_, fun c hc => ?_, fun c hc => ?_, hlength, hdigits, htext⟩
      · rw [Ne, List.take_eq_nil_iff]
        exact not_or_intro (Nat.ne_of_gt hpos) (digitsOf_ne_nil n)
      · exact isDigit_of_mem_digitsOf c (List.mem_of_mem_take hc)
      · exact isDigit_of_mem_digitsOf c (List.mem_of_mem_drop hc)
    · refine Or.inr ⟨k + 1, _, _, rfl, List.cons_ne_nil _ _, List.forall_mem_singleton.mpr rfl, ?_,
        hlength, hdigits, htext⟩
      exact List.forall_mem_append.mpr ⟨isDigit_of_mem_zeros, isDigit_of_mem_digitsOf⟩

/-- A decimal around its point is read as the magnitude of so many steps. -/
theorem value?_positional (d : Decimal) {grid : Nat} (h : d.exponent = (grid : Int) - places) :
    Literal.value? (String.ofList d.positional)
      = some (ofPattern false (pattern (d.digits * Nat.pow 10 grid) stepsPerUnit)) := by
  have hten : ∀ m n, Nat.pow 10 (m + n) = Nat.pow 10 m * Nat.pow 10 n := Nat.pow_add 10
  rcases d.positional_eq with ⟨zeros, hexponent, hpositional⟩ |
    ⟨behind, whole, fraction, hexponent, hne, hwhole, hfraction, hlength, hdigits, hpositional⟩
  · have hall : ∀ c ∈ d.positional, c.isDigit = true := by
      rw [hpositional]
      exact List.forall_mem_append.mpr ⟨isDigit_of_mem_digitsOf, isDigit_of_mem_zeros⟩
    have hvalue : Nat.ofDigitChars 10 d.positional 0 = Nat.pow 10 zeros * d.digits := by
      rw [hpositional, Nat.ofDigitChars_append, ofDigitChars_digitsOf,
        Nat.ofDigitChars_replicate_zero]
      rfl
    have hgrid : grid = zeros + places := by omega
    have hsome : d.positional ≠ [] := by
      rw [hpositional]
      exact List.append_ne_nil_of_left_ne_nil (digitsOf_ne_nil _) _
    rw [Literal.value?_whole hall hsome, hvalue, nearest, hgrid, hten]
    refine congrArg (fun body => some (ofPattern false body)) ?_
    refine Binary64.pattern_eq_of_mul_eq_mul Nat.one_pos stepsPerUnit_pos ?_
    rw [Nat.mul_assoc, unitsPerOne_mul_stepsPerUnit, Nat.mul_one, Nat.mul_comm (Nat.pow 10 zeros),
      Nat.mul_assoc]
  · have hgrid : places = grid + behind := by omega
    rw [hpositional, Literal.value?_dotted hwhole hfraction
      (List.append_ne_nil_of_left_ne_nil hne _), hdigits, hlength, nearest]
    refine congrArg (fun body => some (ofPattern false body)) ?_
    refine Binary64.pattern_eq_of_mul_eq_mul (Nat.pow_pos (by decide)) stepsPerUnit_pos ?_
    rw [Nat.mul_assoc, unitsPerOne_mul_stepsPerUnit, hgrid, hten, Nat.mul_assoc]

theorem isLiteral_digitsOf (n : Nat) : Literal.IsLiteral (digitsOf n) :=
  Or.inl ⟨digitsOf n, digitsOf_ne_nil n, isDigit_of_mem_digitsOf, Or.inl rfl⟩

theorem isLiteral_positional (d : Decimal) : Literal.IsLiteral d.positional := by
  rcases d.positional_eq with ⟨zeros, -, hpositional⟩ |
    ⟨behind, whole, fraction, -, hne, hwhole, hfraction, -, -, hpositional⟩
  · refine Or.inl ⟨d.positional, ?_, ?_, Or.inl rfl⟩
    · rw [hpositional]
      exact List.append_ne_nil_of_left_ne_nil (digitsOf_ne_nil _) _
    · rw [hpositional]
      exact List.forall_mem_append.mpr ⟨isDigit_of_mem_digitsOf, isDigit_of_mem_zeros⟩
  · exact Or.inl ⟨whole, hne, hwhole, Or.inr ⟨fraction, hfraction, hpositional⟩⟩

/-- The shortest decimal of a magnitude has that magnitude as its value. -/
theorem value?_shortest (units : Nat) :
    Literal.value? (String.ofList (shortest units).positional)
      = some (ofPattern false (pattern units 1)) := by
  rcases shortest_readsBack units with ⟨grid, hexponent, hreads⟩
  rw [value?_positional _ hexponent, hreads]

/-- So have all digits of an integer. -/
theorem value?_integer {units : Nat} (h : units % unitsPerOne = 0) :
    Literal.value? (String.ofList (digitsOf (units / unitsPerOne)))
      = some (ofPattern false (pattern units 1)) := by
  rw [Literal.value?_whole isDigit_of_mem_digitsOf (digitsOf_ne_nil _), ofDigitChars_digitsOf,
    nearest, Nat.div_mul_cancel (Nat.dvd_of_mod_eq_zero h)]

/-- Exponent notation is a literal and then a letter. -/
theorem scientific_eq (plus : List Char) (d : Decimal) :
    ∃ mantissa written, d.scientific plus = mantissa ++ 'e' :: written ∧
      Literal.IsLiteral mantissa := by
  have hdigits := @isDigit_of_mem_digitsOf d.digits
  unfold scientific
  dsimp only
  rcases hall : digitsOf d.digits with _ | ⟨c, _ | ⟨c', rest⟩⟩
  · exact absurd hall (digitsOf_ne_nil _)
  · rw [hall] at hdigits
    exact ⟨_, _, rfl, Or.inl ⟨[c], List.cons_ne_nil _ _, hdigits, Or.inl rfl⟩⟩
  · rw [hall] at hdigits
    rcases List.forall_mem_cons.mp hdigits with ⟨hc, hrest⟩
    exact ⟨_, _, rfl, Or.inl ⟨[c], List.cons_ne_nil _ _, List.forall_mem_singleton.mpr hc,
      Or.inr ⟨c' :: rest, hrest, rfl⟩⟩⟩

end Decimal

end Reckoner
