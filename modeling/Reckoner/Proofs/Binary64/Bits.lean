import Mathlib
import Reckoner.Proofs.Binary64.Pattern

/-!
# Doubles and their Bits

The sign bit and the pattern below it say all there is to say about a double.

A double is built from its bits and taken apart by its bits, and the library of doubles
promises that this is without loss as long as the bits are those of a number or an
infinity; of all that is no number it keeps only one. So `ofPattern` and `parts` are inverse
to each other on the finite doubles (`parts_ofPattern`, `eq_ofPattern_of_parts`).

Negation and magnitude are defined on the unpacked form of a double, in which the sign
stands beside exponent and mantissa. In the bits it stands apart from them as well, so what
changes the sign of the one form and nothing else does the same to the other
(`map_ofPattern`).

## Main definitions

* `Binary64.sign`: The sign of the unpacked form.

## Theorems

* `toBits_ofBits`: Bits are kept, unless they are those of what is no number.
* `parts_ofBits_nan`: All of the latter are one double.
* `toBits_ofPattern`: The bits of a sign and a pattern.
* `parts_ofPattern`, `eq_ofPattern_of_parts`: Finite doubles are signs and patterns.
* `unpack_packComponents_map`: Changing the sign of what is unpacked.
* `unpack_ofPattern`, `pack_unpack_ofPattern`: A double and its unpacked form.
* `map_ofPattern`: Changing the sign leaves the pattern.
* `neg_ofPattern`, `abs_ofPattern`: Negation turns over the sign bit, and the magnitude
  has none.
* `parts_eq_nan_iff`, `eq_ofPattern_of_parts_infinite`: The doubles that are not finite.
* `isNaN_iff`, `beq_iff`: What is no number, and which doubles are equal.
-/

namespace Reckoner

namespace Binary64

open Float.Model.UnpackedFloat (unpack unpackExponent unpackMantissa packComponents isNaNBits
  Sign)

-- The sizes as numerals, for counting with them.
theorem sizes_eq : fractionSize = 4503599627370496 ∧ infinityPattern = 9218868437227405312 ∧
    signWeight = 9223372036854775808 :=
  ⟨rfl, rfl, rfl⟩

-- What is no number has a pattern above that of the infinity.
theorem isNaNBits_iff {bits : UInt64} :
    @isNaNBits Float.Model.Format.binary64 bits.toBitVec = true
      ↔ infinityPattern < bits.toNat % signWeight := by
  have hexponent : (@unpackExponent Float.Model.Format.binary64 bits.toBitVec).toNat
      = bits.toNat / 2 ^ 52 % 2 ^ 11 := by
    rw [Float.Model.UnpackedFloat.unpackExponent_def, BitVec.extractLsb'_toNat,
      UInt64.toNat_toBitVec, Nat.shiftRight_eq_div_pow]
  have hmantissa : (@unpackMantissa Float.Model.Format.binary64 bits.toBitVec).toNat
      = bits.toNat % 2 ^ 52 := by
    rw [Float.Model.UnpackedFloat.unpackMantissa_def, BitVec.extractLsb'_toNat,
      UInt64.toNat_toBitVec, Nat.shiftRight_zero]
  have hones : (-BitVec.ofNat Float.Model.Format.binary64.exponentBits 1).toNat = 2047 := rfl
  have hnone : (BitVec.ofNat Float.Model.Format.binary64.mantissaBitsWithoutImplicit 0).toNat = 0 :=
    rfl
  rcases sizes_eq with ⟨-, hinfinity, hweight⟩
  unfold isNaNBits
  rw [decide_eq_true_iff, ← BitVec.toNat_inj, Ne, ← BitVec.toNat_inj, hexponent, hmantissa,
    hones, hnone, hinfinity, hweight]
  omega

/-- Bits are kept, unless they are those of what is no number. -/
theorem toBits_ofBits {bits : UInt64} (h : bits.toNat % signWeight ≤ infinityPattern) :
    (Float.ofBits bits).toBits = bits := by
  have hpack := @Float.Model.UnpackedFloat.pack_unpack Float.Model.Format.binary64 bits.toBitVec
    (by decide)
  rw [if_neg (mt isNaNBits_iff.mp (Nat.not_lt_of_le h))] at hpack
  exact UInt64.toBitVec_inj.mp hpack

-- The library's own bits of what is no number.
theorem packedNaN_eq : Float.Model.UnpackedFloat.packedNaN Float.Model.Format.binary64
    = nan.toBits.toBitVec := by
  decide +kernel

theorem parts_nan : parts nan = .nan := by
  decide +kernel

/-- All bits of what is no number are the same double. -/
theorem ofBits_eq_nan {bits : UInt64} (h : infinityPattern < bits.toNat % signWeight) :
    Float.ofBits bits = nan := by
  have hpack := @Float.Model.UnpackedFloat.pack_unpack Float.Model.Format.binary64 bits.toBitVec
    (by decide)
  rw [if_pos (isNaNBits_iff.mpr h)] at hpack
  exact Float.toBits_inj.mp (UInt64.toBitVec_inj.mp (hpack.trans packedNaN_eq))

theorem parts_ofBits_nan {bits : UInt64} (h : infinityPattern < bits.toNat % signWeight) :
    parts (Float.ofBits bits) = .nan := by
  rw [ofBits_eq_nan h, parts_nan]

variable {negative : Bool} {body : Nat}

theorem toNat_ofNat_pattern (h : body < signWeight) :
    (UInt64.ofNat (negative.toNat * signWeight + body)).toNat
      = negative.toNat * signWeight + body := by
  rw [UInt64.toNat_ofNat']
  refine Nat.mod_eq_of_lt ?_
  rcases sizes_eq with ⟨-, -, hweight⟩
  rw [hweight] at h ⊢
  cases negative with
  | false => rw [Bool.toNat_false]; omega
  | true => rw [Bool.toNat_true]; omega

theorem lt_signWeight_of_le (h : body ≤ infinityPattern) : body < signWeight := by
  rcases sizes_eq with ⟨-, hinfinity, hweight⟩
  omega

/-- The bits of a sign and a pattern. -/
theorem toBits_ofPattern (h : body ≤ infinityPattern) :
    (ofPattern negative body).toBits.toNat = negative.toNat * signWeight + body := by
  have hless := lt_signWeight_of_le h
  have hbits := @toNat_ofNat_pattern negative body hless
  rw [ofPattern, toBits_ofBits, hbits]
  rw [hbits, Nat.mul_comm, Nat.mul_add_mod, Nat.mod_eq_of_lt hless]
  exact h

/-- A sign and the pattern of a finite magnitude are what the double is taken apart
    into. -/
theorem parts_ofPattern (h : body < infinityPattern) :
    parts (ofPattern negative body) = .finite negative (patternUnits body) := by
  have hless := lt_signWeight_of_le (Nat.le_of_lt h)
  have hbody : (negative.toNat * signWeight + body) % signWeight = body := by
    rw [Nat.mul_comm, Nat.mul_add_mod, Nat.mod_eq_of_lt hless]
  have hsign : decide (signWeight ≤ negative.toNat * signWeight + body) = negative := by
    cases negative with
    | false =>
        rw [Bool.toNat_false, Nat.zero_mul, Nat.zero_add, decide_eq_false_iff_not]
        exact Nat.not_le_of_lt hless
    | true =>
        rw [Bool.toNat_true, Nat.one_mul, decide_eq_true_iff]
        exact Nat.le_add_right _ _
  simp only [parts, toBits_ofPattern (Nat.le_of_lt h), hbody, hsign,
    if_neg (Nat.not_lt_of_le (Nat.le_of_lt h)), if_neg (Nat.ne_of_lt h)]

-- A double has the sign and the pattern that its bits consist of.
theorem eq_ofPattern (x : Float) :
    x = ofPattern (decide (signWeight ≤ x.toBits.toNat)) (x.toBits.toNat % signWeight) := by
  have hbound : x.toBits.toNat < 2 * signWeight := x.toBits.toNat_lt
  have hbits : (decide (signWeight ≤ x.toBits.toNat)).toNat * signWeight
      + x.toBits.toNat % signWeight = x.toBits.toNat := by
    by_cases hsign : signWeight ≤ x.toBits.toNat
    · rw [decide_eq_true hsign, Bool.toNat_true, Nat.one_mul, Nat.mod_eq_sub_mod hsign,
        Nat.mod_eq_of_lt (by omega)]
      omega
    · rw [decide_eq_false hsign, Bool.toNat_false, Nat.zero_mul, Nat.zero_add,
        Nat.mod_eq_of_lt (Nat.lt_of_not_le hsign)]
  rw [ofPattern, hbits, UInt64.ofNat_toNat, Float.ofBits_toBits]

/-- A finite double is its sign and a pattern. -/
theorem eq_ofPattern_of_parts {x : Float} {units : Nat}
    (h : parts x = .finite negative units) :
    ∃ body, body < infinityPattern ∧ units = patternUnits body ∧ x = ofPattern negative body := by
  have hx := eq_ofPattern x
  simp only [parts] at h
  split at h
  · cases h
  · rename_i hle
    split at h
    · cases h
    · rename_i hne
      rw [Parts.finite.injEq] at h
      rw [h.1] at hx
      exact ⟨_, by omega, h.2.symm, hx⟩

/-- The sign of a double as its unpacked form has it. -/
def sign (negative : Bool) : Sign :=
  if negative then .negative else .positive

/-- What changes the sign of every unpacked form and nothing else changes the sign of what
    is unpacked. -/
theorem unpack_packComponents_map {spec : Float.Model.Format} {s s' : Sign}
    {f : Float.Model.UnpackedFloat → Float.Model.UnpackedFloat}
    (hnan : f .notANumber = .notANumber) (hinfinity : f (.infinity s) = .infinity s')
    (hzero : f (.zero s) = .zero s')
    (hfinite : ∀ m e hpos, f (.finite s m e hpos) = .finite s' m e hpos)
    (exponent : BitVec spec.exponentBits) (mantissa : BitVec spec.mantissaBitsWithoutImplicit) :
    unpack spec (packComponents spec s' exponent mantissa)
      = f (unpack spec (packComponents spec s exponent mantissa)) := by
  unfold unpack
  simp only [Float.Model.UnpackedFloat.unpackMantissa_packComponents,
    Float.Model.UnpackedFloat.unpackExponent_packComponents,
    Float.Model.UnpackedFloat.unpackSign_packComponents, Sign.ofBitVec_toBitVec]
  split
  · split
    · exact hinfinity.symm
    · exact hnan.symm
  · split
    · split
      · exact hzero.symm
      · exact (hfinite _ _ _).symm
    · exact (hfinite _ _ _).symm

-- The fields of the bits of a sign and a pattern.
theorem toBitVec_ofNat_pattern (h : body < signWeight) :
    (UInt64.ofNat (negative.toNat * signWeight + body)).toBitVec
      = packComponents Float.Model.Format.binary64 (sign negative)
          (BitVec.ofNat 11 (body / fractionSize)) (BitVec.ofNat 52 (body % fractionSize)) := by
  have hbits := @toNat_ofNat_pattern negative body h
  rcases sizes_eq with ⟨hfraction, -, hweight⟩
  apply BitVec.eq_of_toNat_eq
  rw [UInt64.toNat_toBitVec, hbits]
  rw [hweight] at h ⊢
  rw [hfraction]
  unfold packComponents
  rw [BitVec.toNat_append, ← Nat.shiftLeft_add_eq_or_of_lt (BitVec.isLt _), BitVec.toNat_append,
    ← Nat.shiftLeft_add_eq_or_of_lt (BitVec.isLt _), Nat.shiftLeft_eq, Nat.shiftLeft_eq]
  cases negative with
  | false =>
      change 0 * _ + body = (0 * 2 ^ 11 + body / _ % 2 ^ 11) * 2 ^ 52 + body % _ % 2 ^ 52
      omega
  | true =>
      change 1 * _ + body = (1 * 2 ^ 11 + body / _ % 2 ^ 11) * 2 ^ 52 + body % _ % 2 ^ 52
      omega

/-- A double is unpacked from the fields of its bits. -/
theorem unpack_ofPattern (h : body ≤ infinityPattern) :
    (ofPattern negative body).toModel.unpack
      = unpack Float.Model.Format.binary64
          (packComponents Float.Model.Format.binary64 (sign negative)
            (BitVec.ofNat 11 (body / fractionSize)) (BitVec.ofNat 52 (body % fractionSize))) := by
  have hless := lt_signWeight_of_le h
  have hkept : (ofPattern negative body).toBits
      = UInt64.ofNat (negative.toNat * signWeight + body) := by
    rw [← UInt64.toNat_inj, toBits_ofPattern h, toNat_ofNat_pattern hless]
  rw [← toBitVec_ofNat_pattern hless, ← hkept]
  rfl

/-- A double is given back by packing what it is unpacked into. -/
theorem pack_unpack_ofPattern (h : body ≤ infinityPattern) :
    Float.ofModel (Float.Model.pack (ofPattern negative body).toModel.unpack)
      = ofPattern negative body := by
  rw [unpack_ofPattern h, ← toBitVec_ofNat_pattern (lt_signWeight_of_le h)]
  rfl

-- So what changes the sign and nothing else leaves the pattern.
theorem map_ofPattern {f : Float.Model.UnpackedFloat → Float.Model.UnpackedFloat}
    {negative' : Bool} (hnan : f .notANumber = .notANumber)
    (hinfinity : f (.infinity (sign negative)) = .infinity (sign negative'))
    (hzero : f (.zero (sign negative)) = .zero (sign negative'))
    (hfinite : ∀ m e hpos, f (.finite (sign negative) m e hpos)
      = .finite (sign negative') m e hpos)
    (h : body ≤ infinityPattern) :
    Float.ofModel (Float.Model.pack (f (ofPattern negative body).toModel.unpack))
      = ofPattern negative' body := by
  have hmapped : (ofPattern negative' body).toModel.unpack
      = f (ofPattern negative body).toModel.unpack := by
    rw [unpack_ofPattern h, unpack_ofPattern h]
    exact unpack_packComponents_map hnan hinfinity hzero hfinite _ _
  rw [← hmapped]
  exact pack_unpack_ofPattern h

/-- Negation turns over the sign bit. -/
theorem neg_ofPattern (h : body ≤ infinityPattern) :
    -(ofPattern false body) = ofPattern true body :=
  @map_ofPattern false body Float.Model.UnpackedFloat.neg true rfl rfl rfl (fun _ _ _ => rfl) h

/-- The magnitude of a double is the double without its sign. -/
theorem abs_ofPattern (h : body ≤ infinityPattern) :
    (ofPattern negative body).abs = ofPattern false body :=
  @map_ofPattern negative body Float.Model.UnpackedFloat.abs false rfl rfl rfl (fun _ _ _ => rfl) h

-- The library's bits of the two zeros.
theorem packedZero_eq (negative : Bool) :
    Float.Model.UnpackedFloat.packedZero Float.Model.Format.binary64 (sign negative)
      = (ofPattern negative 0).toBits.toBitVec := by
  cases negative with
  | false => decide +kernel
  | true => decide +kernel

theorem toBitVec_inj {x y : Float} : x.toBits.toBitVec = y.toBits.toBitVec ↔ x = y := by
  rw [UInt64.toBitVec_inj, Float.toBits_inj]

theorem parts_eq_nan_iff {x : Float} : parts x = .nan ↔ x = nan := by
  constructor
  · intro h
    simp only [parts] at h
    split at h
    · rename_i hbody
      rw [← Float.ofBits_toBits x]
      exact ofBits_eq_nan hbody
    · split at h
      · cases h
      · cases h
  · rintro rfl
    exact parts_nan

/-- An infinity is its sign and the pattern of the infinity. -/
theorem eq_ofPattern_of_parts_infinite {x : Float} (h : parts x = .infinite negative) :
    x = ofPattern negative infinityPattern := by
  have hx := eq_ofPattern x
  simp only [parts] at h
  split at h
  · cases h
  · split at h
    · rename_i hbody
      rw [Parts.infinite.injEq] at h
      rw [h, hbody] at hx
      exact hx
    · cases h

/-- There is one double that is no number. -/
theorem isNaN_iff {x : Float} : x.isNaN = true ↔ x = nan := by
  have hnan := Float.Model.UnpackedFloat.isNaN_unpack_iff_of_valid x.toModel.valid
  rw [packedNaN_eq] at hnan
  exact hnan.trans toBitVec_inj

/-- Two numbers are equal if they are the same double or the two zeros. What is no number is not
    equal to anything. -/
theorem beq_iff {x y : Float} :
    (x == y) = true ↔ x ≠ nan ∧ y ≠ nan ∧ (x = y ∨
      ∃ negative, x = ofPattern negative 0 ∧ y = ofPattern (!negative) 0) := by
  have hbeq := Float.Model.UnpackedFloat.unpack_beq_unpack_iff x.toModel.valid y.toModel.valid
  have hpositive := packedZero_eq false
  have hnegative := packedZero_eq true
  rw [sign, if_neg Bool.false_ne_true] at hpositive
  rw [sign, if_pos rfl] at hnegative
  rw [packedNaN_eq, hpositive, hnegative] at hbeq
  refine hbeq.trans ?_
  have hx : x.toModel.toBits = x.toBits := rfl
  have hy : y.toModel.toBits = y.toBits := rfl
  rw [hx, hy, Ne, Ne, toBitVec_inj, toBitVec_inj, toBitVec_inj, toBitVec_inj, toBitVec_inj,
    toBitVec_inj, toBitVec_inj, Bool.exists_bool]
  exact Iff.rfl

end Binary64

end Reckoner
