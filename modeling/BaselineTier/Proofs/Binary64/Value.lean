import BaselineTier.Binary64
import Mathlib.Algebra.Order.Field.Rat
import Mathlib.Data.Rat.Cast.Order
import Mathlib.Tactic.FieldSimp
import Mathlib.Tactic.Ring

/-! # The number a double stands for

`value` reads a pattern as a rational number, field by field.  The operations on doubles
work on words and on numbers of smallest units, and never on rationals; this module says
what each of them does to the number:

* words below the sign bit are ordered as the magnitudes they stand for, so the order of
  words is the order of numbers;
* a number of smallest units that is not zero is never rounded to zero, so a double has no
  fractional part exactly when it is an integer;
* the least signed 64-bit integer is a double, and the largest is rounded up by one.
-/

set_option autoImplicit false

namespace BaselineTier.Binary64

/-! ## Fields -/

section Fields

variable (x : Binary64)

/-- The bits below the sign bit. -/
def payload : Nat :=
  x.word % 0x8000000000000000

theorem word_lt : x.word < 0x10000000000000000 :=
  x.bits.toNat_lt

theorem fractionField_lt : x.fractionField < 0x10000000000000 :=
  Nat.mod_lt _ (by decide)

theorem payload_eq : x.payload = x.exponentField * 0x10000000000000 + x.fractionField := by
  unfold payload exponentField fractionField
  omega

theorem orderKey_eq :
    x.orderKey = if x.isNegative then -(x.payload : Int) else x.payload := by
  have hword := x.word_lt
  simp only [orderKey, isNegative, payload, decide_eq_true_eq]
  split <;> omega

theorem isZero_iff : x.isZero = true ↔ x.payload = 0 := by
  rw [payload_eq, isZero, decide_eq_true_eq]
  omega

variable {x}

theorem isNaN_eq_false_of_isFinite (h : x.isFinite = true) : x.isNaN = false := by
  have hexponent : x.exponentField ≠ specialExponent := of_decide_eq_true h
  simp [isNaN, hexponent]

theorem isNaN_eq_false_of_payload_le (h : x.payload ≤ infinityWord) : x.isNaN = false := by
  have hfraction := x.fractionField_lt
  rw [payload_eq, infinityWord] at h
  rw [isNaN, decide_eq_false_iff_not, specialExponent]
  omega

end Fields

/-! ## The order of words is the order of numbers -/

section Order

variable {x y : Binary64}

theorem magnitude_of_subnormal (h : x.exponentField = 0) : x.magnitude = x.fractionField := by
  simp [magnitude, significand, unitExponent, h]

theorem magnitude_of_normal {e : Nat} (h : x.exponentField = e + 1) :
    x.magnitude = (0x10000000000000 + x.fractionField) * 2 ^ e := by
  simp [magnitude, significand, unitExponent, h, Nat.shiftLeft_eq]

/-- The magnitudes with one exponent field lie below all with a larger one. -/
theorem magnitude_lt (x : Binary64) :
    x.magnitude < 0x10000000000000 * 2 ^ x.exponentField := by
  have hfraction := x.fractionField_lt
  cases he : x.exponentField with
  | zero => rwa [magnitude_of_subnormal he, Nat.pow_zero, Nat.mul_one]
  | succ e =>
    calc x.magnitude
        = (0x10000000000000 + x.fractionField) * 2 ^ e := magnitude_of_normal he
      _ < (2 * 0x10000000000000) * 2 ^ e :=
        Nat.mul_lt_mul_of_pos_right (by omega) (Nat.two_pow_pos e)
      _ = 0x10000000000000 * 2 ^ (e + 1) := by ring

theorem le_magnitude {e : Nat} (h : x.exponentField = e + 1) :
    0x10000000000000 * 2 ^ e ≤ x.magnitude := by
  rw [magnitude_of_normal h]
  exact Nat.mul_le_mul_right _ (Nat.le_add_right _ _)

theorem magnitude_lt_of_exponentField_lt (h : x.exponentField < y.exponentField) :
    x.magnitude < y.magnitude := by
  obtain ⟨e, he⟩ := Nat.exists_eq_add_one_of_ne_zero (Nat.ne_zero_of_lt h)
  calc x.magnitude
      < 0x10000000000000 * 2 ^ x.exponentField := x.magnitude_lt
    _ ≤ 0x10000000000000 * 2 ^ e :=
      Nat.mul_le_mul_left _ (Nat.pow_le_pow_right (by decide) (by omega))
    _ ≤ y.magnitude := le_magnitude he

theorem magnitude_lt_of_fractionField_lt (hexponent : x.exponentField = y.exponentField)
    (h : x.fractionField < y.fractionField) : x.magnitude < y.magnitude := by
  cases he : y.exponentField with
  | zero => rwa [magnitude_of_subnormal he, magnitude_of_subnormal (hexponent.trans he)]
  | succ e =>
    rw [magnitude_of_normal he, magnitude_of_normal (hexponent.trans he)]
    exact Nat.mul_lt_mul_of_pos_right (by omega) (Nat.two_pow_pos e)

theorem magnitude_lt_of_payload_lt (h : x.payload < y.payload) : x.magnitude < y.magnitude := by
  have hfraction := y.fractionField_lt
  rw [payload_eq, payload_eq] at h
  rcases Nat.lt_trichotomy x.exponentField y.exponentField with hlt | heq | hgt
  · exact magnitude_lt_of_exponentField_lt hlt
  · exact magnitude_lt_of_fractionField_lt heq (by omega)
  · omega

theorem magnitude_congr (h : x.payload = y.payload) : x.magnitude = y.magnitude := by
  have hx := x.fractionField_lt
  have hy := y.fractionField_lt
  rw [payload_eq, payload_eq] at h
  have hexponent : x.exponentField = y.exponentField := by omega
  have hfraction : x.fractionField = y.fractionField := by omega
  simp only [magnitude, significand, unitExponent, hexponent, hfraction]

theorem magnitude_le_of_payload_le (h : x.payload ≤ y.payload) : x.magnitude ≤ y.magnitude := by
  rcases Nat.lt_or_eq_of_le h with hlt | heq
  · exact Nat.le_of_lt (magnitude_lt_of_payload_lt hlt)
  · exact Nat.le_of_eq (magnitude_congr heq)

theorem magnitude_lt_iff : x.magnitude < y.magnitude ↔ x.payload < y.payload := by
  refine ⟨fun h => ?_, magnitude_lt_of_payload_lt⟩
  by_contra hge
  exact Nat.not_le_of_lt h (magnitude_le_of_payload_le (Nat.le_of_not_lt hge))

theorem magnitude_eq_zero_iff : x.magnitude = 0 ↔ x.payload = 0 := by
  have hzero : zero.magnitude = 0 ∧ zero.payload = 0 := by decide
  have hpos : zero.magnitude < x.magnitude ↔ zero.payload < x.payload := magnitude_lt_iff
  rw [hzero.1, hzero.2] at hpos
  omega

/-- Places in the numeric order compare as the numbers. -/
theorem orderKey_lt_iff : x.orderKey < y.orderKey ↔ x.scaled < y.scaled := by
  have hlt : x.magnitude < y.magnitude ↔ x.payload < y.payload := magnitude_lt_iff
  have hgt : y.magnitude < x.magnitude ↔ y.payload < x.payload := magnitude_lt_iff
  have hx : x.magnitude = 0 ↔ x.payload = 0 := magnitude_eq_zero_iff
  have hy : y.magnitude = 0 ↔ y.payload = 0 := magnitude_eq_zero_iff
  rw [orderKey_eq, orderKey_eq, scaled, scaled]
  -- the four combinations of signs; only the mixed ones need the zeros
  cases x.isNegative <;> cases y.isNegative <;>
    simp only [reduceIte, Bool.false_eq_true] <;> omega

theorem numericLt_iff :
    x.numericLt y = true ↔ x.isNaN = false ∧ y.isNaN = false ∧ x.scaled < y.scaled := by
  simp [numericLt, and_assoc, orderKey_lt_iff]

theorem numericLe_iff :
    x.numericLe y = true ↔ x.isNaN = false ∧ y.isNaN = false ∧ x.scaled ≤ y.scaled := by
  have hle : x.orderKey ≤ y.orderKey ↔ x.scaled ≤ y.scaled := by
    rw [← Int.not_lt, orderKey_lt_iff, Int.not_lt]
  simp [numericLe, and_assoc, hle]

end Order

/-! ## Rounding -/

theorem dropBits_pos {n count : Nat} (h : 2 ^ count ≤ n) : 0 < dropBits n count := by
  have hkept : 0 < n >>> count := by
    rw [Nat.shiftRight_eq_div_pow]
    exact Nat.div_pos h (Nat.two_pow_pos count)
  unfold dropBits
  dsimp only
  split
  · exact hkept
  · exact Nat.succ_pos _

theorem nearestWord_le (units : Nat) : nearestWord units ≤ infinityWord :=
  Nat.min_le_right _ _

/-- Only zero is rounded to zero: every other number is at least one smallest unit. -/
theorem nearestWord_eq_zero_iff {units : Nat} : nearestWord units = 0 ↔ units = 0 := by
  refine ⟨fun h => ?_, by rintro rfl; decide⟩
  by_contra hne
  have hlog : 2 ^ (units.log2 - 52) ≤ units :=
    calc 2 ^ (units.log2 - 52)
        ≤ 2 ^ units.log2 := Nat.pow_le_pow_right (by decide) (Nat.sub_le _ _)
      _ ≤ units := Nat.log2_self_le hne
  have hpos := dropBits_pos hlog
  unfold nearestWord infinityWord at h
  dsimp only at h
  omega

theorem payload_ofScaled (n : Int) : (ofScaled n).payload = nearestWord n.natAbs := by
  have hle := nearestWord_le n.natAbs
  unfold infinityWord at hle
  rw [payload, word, ofScaled, UInt64.toNat_ofNat']
  split <;> omega

theorem isNaN_ofScaled (n : Int) : (ofScaled n).isNaN = false := by
  apply isNaN_eq_false_of_payload_le
  rw [payload_ofScaled]
  exact nearestWord_le n.natAbs

theorem isZero_ofScaled {n : Int} : (ofScaled n).isZero = true ↔ n = 0 := by
  rw [isZero_iff, payload_ofScaled, nearestWord_eq_zero_iff, Int.natAbs_eq_zero]

theorem numericEq_zero_iff {x : Binary64} (h : x.isNaN = false) :
    x.numericEq zero = true ↔ x.isZero = true := by
  have hzero : zero.isNaN = false ∧ zero.isZero = true := by decide
  simp only [numericEq, h, hzero.1, hzero.2, Bool.not_false, Bool.true_and, Bool.and_true,
    Bool.or_eq_true, beq_iff_eq, or_iff_right_iff_imp]
  intro hbits
  have hx : x = zero := congrArg Binary64.mk hbits
  rw [hx, hzero.2]

/-- A double has no fractional part exactly when it is a whole number of ones. -/
theorem fract_numericEq_zero_iff {x : Binary64} :
    x.fract.numericEq zero = true ↔ x.isFinite = true ∧ (unitsPerOne : Int) ∣ x.scaled := by
  cases hfinite : x.isFinite with
  | true =>
    rw [fract, if_pos hfinite, numericEq_zero_iff (isNaN_ofScaled _), isZero_ofScaled,
      ← Int.dvd_iff_tmod_eq_zero, eq_self, true_and]
  | false =>
    have hnan : quietNaN.numericEq zero = false := by decide
    simp [fract, hfinite, hnan]

/-! ## The ends of the integer range -/

theorem isNaN_ofInt64 (i : Int64) : (ofInt64 i).isNaN = false :=
  isNaN_ofScaled _

/-- The least integer is a double. -/
theorem scaled_ofInt64_minValue :
    (ofInt64 Int64.minValue).scaled = -2 ^ 63 * unitsPerOne := by
  decide +kernel

/-- The largest integer is not: it is rounded up to the next power of two. -/
theorem scaled_ofInt64_maxValue :
    (ofInt64 Int64.maxValue).scaled = 2 ^ 63 * unitsPerOne := by
  decide +kernel

theorem unitsPerOne_pos : 0 < unitsPerOne := by
  decide +kernel

theorem toInt_saturated {n : Int} (hlow : -2 ^ 63 ≤ n) (hhigh : n < 2 ^ 63) :
    (saturated n).toInt = n := by
  have hmin : Int64.minValue.toInt = -2 ^ 63 := by decide
  have hmax : Int64.maxValue.toInt = 2 ^ 63 - 1 := by decide
  rw [saturated, hmin, hmax, if_neg (by omega), if_neg (by omega)]
  exact Int64.toInt_ofInt_of_le hlow hhigh

/-- The conversion keeps the integers of the range. -/
theorem toInt_toInt64 {x : Binary64} {n : Int} (hfinite : x.isFinite = true)
    (hscaled : x.scaled = n * unitsPerOne) (hlow : -2 ^ 63 ≤ n) (hhigh : n < 2 ^ 63) :
    x.toInt64.toInt = n := by
  have hnan := isNaN_eq_false_of_isFinite hfinite
  have hunits : (unitsPerOne : Int) ≠ 0 := Int.natCast_ne_zero.mpr unitsPerOne_pos.ne'
  rw [toInt64, hnan, hfinite, hscaled, Int.mul_tdiv_cancel _ hunits]
  exact toInt_saturated hlow hhigh

/-! ## Exact rational values -/

/-- The number a finite pattern stands for.  The fraction field has fifty-two places
behind the point and the exponent field is biased by 1023; in front of the point stands a
one, and a zero in the subnormal patterns. -/
def value (x : Binary64) : ℚ :=
  let sign : ℚ := if x.isNegative then -1 else 1
  let fraction : ℚ := x.fractionField / 2 ^ 52
  if x.exponentField = 0 then sign * fraction * 2 ^ (-1022 : ℤ)
  else sign * (1 + fraction) * 2 ^ ((x.exponentField : ℤ) - 1023)

theorem cast_unitsPerOne : (unitsPerOne : ℚ) = 2 ^ 52 * 2 ^ 1022 := by
  have hunits : unitsPerOne = 2 ^ 52 * 2 ^ 1022 := by decide +kernel
  rw [hunits, Nat.cast_mul, Nat.cast_pow, Nat.cast_pow, Nat.cast_ofNat]

theorem value_eq (x : Binary64) : x.value = x.scaled / unitsPerOne := by
  have hne : (2 : ℚ) ^ 1022 ≠ 0 := pow_ne_zero _ two_ne_zero
  have hsign : (x.scaled : ℚ) = (if x.isNegative then -1 else 1) * x.magnitude := by
    unfold scaled
    split <;> simp
  rw [hsign, cast_unitsPerOne]
  unfold value
  dsimp only
  cases he : x.exponentField with
  | zero =>
    have hscale : (2 : ℚ) ^ (-1022 : ℤ) = (2 ^ 1022)⁻¹ := by
      rw [zpow_neg]
      rfl
    rw [if_pos rfl, magnitude_of_subnormal he, hscale]
    generalize (2 : ℚ) ^ 1022 = c at hne
    field_simp
  | succ e =>
    have hscale : (2 : ℚ) ^ (((e + 1 : ℕ) : ℤ) - 1023) = 2 ^ e / 2 ^ 1022 := by
      rw [← zpow_natCast, ← zpow_natCast, ← zpow_sub₀ two_ne_zero]
      congr 1
      push_cast
      ring
    rw [if_neg (Nat.succ_ne_zero e), magnitude_of_normal he, hscale]
    generalize (2 : ℚ) ^ 1022 = c at hne
    push_cast
    field_simp
    norm_num

/-- A double is an integer exactly when it is that many ones. -/
theorem value_eq_intCast_iff {x : Binary64} {n : ℤ} :
    x.value = n ↔ x.scaled = n * unitsPerOne := by
  have hunits : (unitsPerOne : ℚ) ≠ 0 := Nat.cast_ne_zero.mpr unitsPerOne_pos.ne'
  rw [value_eq, div_eq_iff hunits]
  exact_mod_cast Iff.rfl

end BaselineTier.Binary64
