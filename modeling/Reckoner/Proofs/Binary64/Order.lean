import Reckoner.Proofs.Binary64.Bits

/-!
# The Order of Magnitudes

That comparing units is comparing doubles.

The comparison of doubles looks at their exponents first and at their significant bits
only if these are the same. Units are the significant bits with as many zeros behind
them as the exponent says, so they are compared by one comparison of natural
numbers. Both come to the same because a number that has zeros behind its significant
bits uses all 53 of them: one zero more outweighs them all
(`patternUnits_lt_of_shift_lt`).

## Theorems

* `compare_patternUnits`: Units compare as zeros and significant bits do.
* `unpack_finite`: What a finite double is unpacked into.
* `compare_unpack`: Magnitudes compare as their units do.
* `abs_lt_iff`, `le_abs_iff`: A magnitude and a limit compare as their units do.
-/

namespace Reckoner

namespace Binary64

open Float.Model.UnpackedFloat (unpack Sign)

-- With more zeros behind its significant bits a magnitude is larger, whatever these are.
theorem patternUnits_lt_of_shift_lt {body body' : Nat} (h : shift body < shift body') :
    patternUnits body < patternUnits body' := by
  have hpos : 0 < 2 ^ shift body := Nat.two_pow_pos _
  have hnormal : fractionSize ≤ significand body' :=
    le_significand (Nat.lt_of_le_of_lt (Nat.zero_le _) h)
  rw [patternUnits_eq, patternUnits_eq]
  calc significand body * 2 ^ shift body
      < 2 * fractionSize * 2 ^ shift body := Nat.mul_lt_mul_of_pos_right (significand_lt body) hpos
    _ = fractionSize * 2 ^ (shift body + 1) := by
        rw [Nat.pow_succ, Nat.mul_comm 2 fractionSize, Nat.mul_assoc, Nat.mul_comm 2]
    _ ≤ significand body' * 2 ^ shift body' :=
        Nat.mul_le_mul hnormal (Nat.pow_le_pow_right Nat.two_pos h)

/-- Magnitudes compare as their zeros do, and if there are as many, as their significant
    bits do. -/
theorem compare_patternUnits (body body' : Nat) :
    (compare (shift body) (shift body')).then (compare (significand body) (significand body'))
      = compare (patternUnits body) (patternUnits body') := by
  rcases Nat.lt_trichotomy (shift body) (shift body') with hless | hsame | hgreater
  · rw [Nat.compare_eq_lt.mpr hless, Nat.compare_eq_lt.mpr (patternUnits_lt_of_shift_lt hless)]
    rfl
  · have hpos : 0 < 2 ^ shift body' := Nat.two_pow_pos _
    rw [Nat.compare_eq_eq.mpr hsame, patternUnits_eq, patternUnits_eq, hsame]
    rcases Nat.lt_trichotomy (significand body) (significand body') with h | h | h
    · rw [Nat.compare_eq_lt.mpr h, Nat.compare_eq_lt.mpr (Nat.mul_lt_mul_of_pos_right h hpos)]
      rfl
    · rw [h, Nat.compare_eq_eq.mpr rfl, Nat.compare_eq_eq.mpr rfl]
      rfl
    · rw [Nat.compare_eq_gt.mpr h, Nat.compare_eq_gt.mpr (Nat.mul_lt_mul_of_pos_right h hpos)]
      rfl
  · rw [Nat.compare_eq_gt.mpr hgreater,
      Nat.compare_eq_gt.mpr (patternUnits_lt_of_shift_lt hgreater)]
    rfl

variable {negative : Bool} {body body' : Nat}

-- Finite forms with the same numbers in them are the same.
theorem exists_finite_eq {sign : Sign} {m m' : Nat} {e e' : Int} {hpos : 0 < m} (hm : m = m')
    (he : e = e') : ∃ hpos',
      Float.Model.UnpackedFloat.finite sign m e hpos = .finite sign m' e' hpos' := by
  subst hm he
  exact ⟨hpos, rfl⟩

/-- What a finite double is unpacked into. -/
theorem unpack_finite (h : body < infinityPattern) :
    (body = 0 ∧ (ofPattern negative body).toModel.unpack
        = .zero (sign negative)) ∨
      ∃ hpos, (ofPattern negative body).toModel.unpack
        = .finite (sign negative) (significand body)
            ((shift body : Int) - 1074) hpos := by
  rcases sizes_eq with ⟨hfraction, hinfinity, -⟩
  have hexponent : (BitVec.ofNat 11 (body / fractionSize)).toNat = body / fractionSize := by
    rw [BitVec.toNat_ofNat, hfraction]
    rw [hinfinity] at h
    omega
  have hmantissa : (BitVec.ofNat 52 (body % fractionSize)).toNat = body % fractionSize := by
    rw [BitVec.toNat_ofNat, hfraction]
    omega
  rw [unpack_ofPattern (Nat.le_of_lt h)]
  unfold unpack
  simp only [Float.Model.UnpackedFloat.unpackMantissa_packComponents,
    Float.Model.UnpackedFloat.unpackExponent_packComponents,
    Float.Model.UnpackedFloat.unpackSign_packComponents, Sign.ofBitVec_toBitVec]
  split
  · -- All ones are the exponent of what is not finite.
    rename_i hones
    rw [hones] at hexponent
    have hfield : (-1#11).toNat = 2047 := rfl
    rw [hfield, hfraction] at hexponent
    omega
  · split
    · rename_i hzero
      rw [hzero] at hexponent
      have hsubnormal : body / fractionSize = 0 := hexponent.symm
      split
      · rename_i hnothing
        rw [hnothing] at hmantissa
        have hfraction0 : body % fractionSize = 0 := hmantissa.symm
        refine Or.inl ⟨?_, rfl⟩
        rw [← Nat.div_add_mod' body fractionSize, hsubnormal, hfraction0, Nat.zero_mul]
      · refine Or.inr (exists_finite_eq ?_ ?_)
        · rw [hmantissa, significand, if_pos hsubnormal]
        · rw [hzero, shift, hsubnormal]
          rfl
    · rename_i hnonzero
      have hnormal : body / fractionSize ≠ 0 := by
        intro hsubnormal
        rw [hsubnormal] at hnonzero
        exact hnonzero rfl
      refine Or.inr (exists_finite_eq ?_ ?_)
      · have hleading : (1#1).toNat * 2 ^ 52 = fractionSize := rfl
        rw [BitVec.toNat_append, ← Nat.shiftLeft_add_eq_or_of_lt (BitVec.isLt _), hmantissa,
          Nat.shiftLeft_eq, hleading, significand, if_neg hnormal]
      · have hbias : (Float.Model.Format.binary64.exponentBias : Int) = 1023 := rfl
        rw [hexponent, hbias, shift]
        omega

-- Exponents compare as the numbers of zeros that they are counted from.
theorem compare_exponents (n n' : Nat) :
    compare ((n : Int) - 1074) ((n' : Int) - 1074) = compare n n' := by
  rcases Nat.lt_trichotomy n n' with h | h | h
  · rw [Nat.compare_eq_lt.mpr h, Int.compare_eq_lt.mpr (by omega)]
  · rw [Nat.compare_eq_eq.mpr h, Int.compare_eq_eq.mpr (by omega)]
  · rw [Nat.compare_eq_gt.mpr h, Int.compare_eq_gt.mpr (by omega)]

/-- Magnitudes compare as their units do. -/
theorem compare_unpack (h : body < infinityPattern) (h' : body' < infinityPattern) :
    (ofPattern false body).toModel.unpack.compare (ofPattern false body').toModel.unpack
      = some (compare (patternUnits body) (patternUnits body')) := by
  have hzero : patternUnits 0 = 0 := rfl
  have hunits : ∀ {body : Nat}, 0 < significand body → 0 < patternUnits body := by
    intro body hpos
    rw [patternUnits_eq]
    exact Nat.mul_pos hpos (Nat.two_pow_pos _)
  rcases @unpack_finite false body h with ⟨rfl, hleft⟩ | ⟨hpos, hleft⟩
  · rcases @unpack_finite false body' h' with ⟨rfl, hright⟩ | ⟨hpos', hright⟩
    · rw [hleft]
      rfl
    · rw [hleft, hright, hzero, Nat.compare_eq_lt.mpr (hunits hpos')]
      rfl
  · rcases @unpack_finite false body' h' with ⟨rfl, hright⟩ | ⟨hpos', hright⟩
    · rw [hleft, hright, hzero, Nat.compare_eq_gt.mpr (hunits hpos)]
      rfl
    · rw [hleft, hright, ← compare_patternUnits, ← compare_exponents]
      rfl

-- The two comparisons of doubles.
theorem ofPattern_lt_iff (h : body < infinityPattern) (h' : body' < infinityPattern) :
    ofPattern false body < ofPattern false body' ↔ patternUnits body < patternUnits body' := by
  change decide (((ofPattern false body).toModel.unpack.compare
    (ofPattern false body').toModel.unpack == some .lt) = true) = true ↔ _
  rw [decide_eq_true_iff, beq_iff_eq, compare_unpack h h', Option.some.injEq, Nat.compare_eq_lt]

theorem ofPattern_le_iff (h : body < infinityPattern) (h' : body' < infinityPattern) :
    ofPattern false body ≤ ofPattern false body' ↔ patternUnits body ≤ patternUnits body' := by
  change decide (((ofPattern false body).toModel.unpack.compare
    (ofPattern false body').toModel.unpack).any (·.isLE) = true) = true ↔ _
  rw [decide_eq_true_iff, compare_unpack h h', Option.any_some, Nat.isLE_compare]

section Limits

variable {v limit : Float} {n m : Nat} (hv : parts v = .finite negative n)
  (hlimit : parts limit = .finite false m)
include hv hlimit

/-- A magnitude is below a limit if its units are. -/
theorem abs_lt_iff : v.abs < limit ↔ n < m := by
  rcases eq_ofPattern_of_parts hv with ⟨body, hbody, rfl, rfl⟩
  rcases eq_ofPattern_of_parts hlimit with ⟨body', hbody', rfl, rfl⟩
  rw [abs_ofPattern (Nat.le_of_lt hbody)]
  exact ofPattern_lt_iff hbody hbody'

/-- A magnitude reaches a limit if its units do. -/
theorem le_abs_iff : limit ≤ v.abs ↔ m ≤ n := by
  rcases eq_ofPattern_of_parts hv with ⟨body, hbody, rfl, rfl⟩
  rcases eq_ofPattern_of_parts hlimit with ⟨body', hbody', rfl, rfl⟩
  rw [abs_ofPattern (Nat.le_of_lt hbody)]
  exact ofPattern_le_iff hbody' hbody

end Limits

end Binary64

end Reckoner
