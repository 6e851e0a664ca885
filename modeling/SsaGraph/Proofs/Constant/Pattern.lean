import Mathlib.Algebra.Order.Field.Rat
import Mathlib.Algebra.Order.Field.Power
import Mathlib.Data.Rat.Cast.Order
import Mathlib.Tactic.Ring
import Mathlib.Tactic.NormNum
import SsaGraph.Constant.Single

/-!
# Numbers of floating point patterns

A pattern of a binary format has a sign bit, an exponent field and a fraction, and `number?` is the
rational number that it stands for, read by the `Float.Model.UnpackedFloat.unpack` of the language.
Infinity and what is not a number have none.

Without its sign a pattern is a natural number, its `magnitude`. `number?_eq` computes the number
from the sign and the magnitude, as so many units of the least positive number of the format:
`scaled` of the magnitude. This function is strictly increasing, so patterns are ordered like their
numbers (`scaled_strictMono`), and from one pattern to the next the number grows by one unit of the
significand (`scaled_succ`), also where the significand is full and the exponent is carried to.
Above the finite patterns `scaled` continues the exponents without end.
-/

namespace SsaGraph

open Float.Model (Format UnpackedFloat)
open Float.Model.UnpackedFloat (Sign unpack unpackMantissa unpackExponent unpackSign)

namespace Pattern

variable {f : Format}

/-! ## Fields -/

/-- A pattern without its sign. -/
def magnitude (f : Format) (b : BitVec f.numBits) : Nat :=
  b.toNat % 2 ^ (f.exponentBits + f.mantissaBitsWithoutImplicit)

/-- The fraction of a pattern. -/
def fraction (f : Format) (b : BitVec f.numBits) : Nat := (unpackMantissa b).toNat

/-- The fraction is the lower part of the magnitude. -/
theorem fraction_eq (b : BitVec f.numBits) :
    fraction f b = magnitude f b % 2 ^ f.mantissaBitsWithoutImplicit := by
  have hm := f.hm
  have width : f.mantissaBitsWithoutImplicit - 1 - 0 + 1 = f.mantissaBitsWithoutImplicit := by omega
  rw [fraction, unpackMantissa, BitVec.toNat_cast, BitVec.extractLsb_toNat, Nat.shiftRight_zero,
    width, magnitude, Nat.mod_mod_of_dvd]
  exact Nat.pow_dvd_pow 2 (Nat.le_add_left ..)

/-- The exponent field is the upper part of the magnitude. -/
theorem toNat_unpackExponent (b : BitVec f.numBits) :
    (unpackExponent b).toNat = magnitude f b / 2 ^ f.mantissaBitsWithoutImplicit := by
  have he := f.he
  have width : f.mantissaBitsWithoutImplicit + f.exponentBits - 1 -
      f.mantissaBitsWithoutImplicit + 1 = f.exponentBits := by
    omega
  rw [unpackExponent, BitVec.toNat_cast, BitVec.extractLsb_toNat, Nat.shiftRight_eq_div_pow, width,
    magnitude, Nat.add_comm, Nat.pow_add, Nat.mod_mul_right_div_self]

/-- The exponent field is full exactly when the upper part of the magnitude is. -/
theorem unpackExponent_eq_top_iff (b : BitVec f.numBits) : unpackExponent b = -1#_ ↔
    magnitude f b / 2 ^ f.mantissaBitsWithoutImplicit = 2 ^ f.exponentBits - 1 := by
  rw [← BitVec.toNat_inj, toNat_unpackExponent, BitVec.neg_one_eq_allOnes, BitVec.toNat_allOnes]

/-- The exponent field is zero exactly when the upper part of the magnitude is. -/
theorem unpackExponent_eq_zero_iff (b : BitVec f.numBits) : unpackExponent b = 0#_ ↔
    magnitude f b / 2 ^ f.mantissaBitsWithoutImplicit = 0 := by
  rw [← BitVec.toNat_inj, toNat_unpackExponent, BitVec.toNat_zero]

/-- The fraction field is zero exactly when the lower part of the magnitude is. -/
theorem unpackMantissa_eq_zero_iff (b : BitVec f.numBits) : unpackMantissa b = 0#_ ↔
    magnitude f b % 2 ^ f.mantissaBitsWithoutImplicit = 0 := by
  rw [← BitVec.toNat_inj, ← fraction_eq, fraction, BitVec.toNat_zero]

/-- The sign field is the most significant bit. -/
theorem unpackSign_eq (b : BitVec f.numBits) : unpackSign b = BitVec.ofBool b.msb := by
  have last : 1 + f.exponentBits + f.mantissaBitsWithoutImplicit - 1 =
      f.mantissaBitsWithoutImplicit + f.exponentBits := by
    omega
  unfold unpackSign
  ext i hi
  obtain rfl : i = 0 := by omega
  simp [BitVec.msb_eq_getLsbD_last, last]

/-- A pattern is its sign bit and its magnitude. -/
theorem toNat_eq (b : BitVec f.numBits) :
    b.toNat = b.msb.toNat * 2 ^ (f.exponentBits + f.mantissaBitsWithoutImplicit) +
      magnitude f b := by
  have width : f.numBits = f.exponentBits + f.mantissaBitsWithoutImplicit + 1 := by
    simp only [Format.numBits]
    omega
  have last : f.numBits - 1 = f.exponentBits + f.mantissaBitsWithoutImplicit := by omega
  have upper : b.toNat < 2 ^ (f.exponentBits + f.mantissaBitsWithoutImplicit) * 2 :=
    b.isLt.trans_eq (by rw [width, Nat.pow_succ])
  rw [BitVec.msb_eq_decide, last, magnitude]
  by_cases negative : 2 ^ (f.exponentBits + f.mantissaBitsWithoutImplicit) ≤ b.toNat
  · rw [decide_eq_true negative, Nat.mod_eq_sub_mod negative, Nat.mod_eq_of_lt (by omega),
      Bool.toNat_true, Nat.one_mul, Nat.add_sub_cancel' negative]
  · rw [decide_eq_false negative, Nat.mod_eq_of_lt (by omega), Bool.toNat_false, Nat.zero_mul,
      Nat.zero_add]

/-! ## Numbers -/

/-- The number with a magnitude and a sign. -/
def signed (negative : Bool) (m : Nat) : Int := if negative then -m else m

/-- Applying a sign gives the signed number. -/
theorem apply_ofBool (negative : Bool) (m : Nat) :
    (Sign.ofBitVec (BitVec.ofBool negative)).apply m = signed negative m := by
  cases negative <;> rfl

/-- The number that a pattern stands for, if it stands for one. -/
def number? (f : Format) (b : BitVec f.numBits) : Option Rat :=
  match unpack f b with
  | .zero _ => some 0
  | .finite sign mantissa exponent _ => some ((sign.apply mantissa : Int) * 2 ^ exponent : Rat)
  | .infinity _ | .notANumber => none

/-- The number of a pattern without sign, in units of the least positive number. The fraction has
`bits` bits. -/
def scaled (bits p : Nat) : Nat :=
  if p / 2 ^ bits = 0 then p % 2 ^ bits
  else (2 ^ bits + p % 2 ^ bits) * 2 ^ (p / 2 ^ bits - 1)

/-- The exponent of the least positive number. -/
def leastExponent (f : Format) : Int := 1 - (f.exponentBias + f.mantissaBitsWithoutImplicit)

/-- A factor may be taken out of the signed number. -/
theorem signed_mul (negative : Bool) (m n : Nat) :
    signed negative (m * n) = signed negative m * n := by
  cases negative
  · exact Int.natCast_mul m n
  · show -((m * n : Nat) : Int) = -m * n
    rw [Int.natCast_mul, neg_mul]

/-- The significand of a normal number begins with a one that is not part of the pattern. -/
theorem toNat_implicit {n : Nat} (m : BitVec n) : (1#1 ++ m).toNat = 2 ^ n + m.toNat := by
  rw [BitVec.toNat_append, ← Nat.shiftLeft_add_eq_or_of_lt m.isLt, Nat.shiftLeft_eq,
    BitVec.toNat_one Nat.one_pos, Nat.one_mul]

/-- With a full exponent field a pattern is an infinity or no number. -/
theorem unpack_of_top {b : BitVec f.numBits} (top : unpackExponent b = -1#_) :
    unpack f b = if unpackMantissa b = 0#_ then .infinity (.ofBitVec (unpackSign b))
      else .notANumber := by
  unfold unpack
  exact if_pos top

/-- With another exponent field a pattern is neither an infinity nor a NaN. -/
theorem unpack_of_ne_top {b : BitVec f.numBits} (top : ¬ unpackExponent b = -1#_) :
    (unpack f b).isInf = false ∧ (unpack f b).isNaN = false := by
  unfold unpack
  dsimp only
  rw [if_neg top]
  by_cases subnormal : unpackExponent b = 0#_
  · rw [if_pos subnormal]
    by_cases zero : unpackMantissa b = 0#_
    · rw [dif_pos zero]
      exact ⟨rfl, rfl⟩
    · rw [dif_neg zero]
      exact ⟨rfl, rfl⟩
  · rw [if_neg subnormal]
    exact ⟨rfl, rfl⟩

/-- The number is read off the fields. -/
theorem number?_eq (b : BitVec f.numBits) :
    number? f b =
      if magnitude f b / 2 ^ f.mantissaBitsWithoutImplicit = 2 ^ f.exponentBits - 1 then none
      else some ((signed b.msb (scaled f.mantissaBitsWithoutImplicit (magnitude f b)) : Int) *
        2 ^ leastExponent f : Rat) := by
  have hm := fraction_eq b
  have he := toNat_unpackExponent b
  rw [fraction] at hm
  unfold number?
  -- The cases are those of the decoder: a full exponent field, an empty one, and any other.
  by_cases special : magnitude f b / 2 ^ f.mantissaBitsWithoutImplicit = 2 ^ f.exponentBits - 1
  · rw [if_pos special, unpack_of_top ((unpackExponent_eq_top_iff b).2 special)]
    by_cases empty : unpackMantissa b = 0#_
    · rw [if_pos empty]
    · rw [if_neg empty]
  unfold unpack scaled
  rw [if_neg special]
  dsimp only
  rw [if_neg (mt (unpackExponent_eq_top_iff b).1 special), unpackSign_eq]
  by_cases subnormal : magnitude f b / 2 ^ f.mantissaBitsWithoutImplicit = 0
  · rw [if_pos ((unpackExponent_eq_zero_iff b).2 subnormal), if_pos subnormal]
    by_cases zero : magnitude f b % 2 ^ f.mantissaBitsWithoutImplicit = 0
    · rw [dif_pos ((unpackMantissa_eq_zero_iff b).2 zero), zero]
      simp [signed]
    · have exponent : ((0 : Nat) : Int) - (f.exponentBias + f.mantissaBitsWithoutImplicit) + 1 =
          leastExponent f := by
        rw [leastExponent]
        omega
      rw [dif_neg (mt (unpackMantissa_eq_zero_iff b).1 zero)]
      dsimp only
      rw [apply_ofBool, hm, he, subnormal, exponent]
  · -- The unit is taken out of the power, which leaves the exponent field less one.
    have exponent : (2 : Rat) ^ ((unpackExponent b).toNat -
          (f.exponentBias + f.mantissaBitsWithoutImplicit) : Int) =
        2 ^ (magnitude f b / 2 ^ f.mantissaBitsWithoutImplicit - 1) * 2 ^ leastExponent f := by
      rw [← zpow_natCast, ← zpow_add₀ two_ne_zero, he, leastExponent]
      congr 1
      omega
    rw [if_neg (mt (unpackExponent_eq_zero_iff b).1 subnormal), if_neg subnormal]
    dsimp only
    rw [toNat_implicit, hm, exponent, apply_ofBool, signed_mul]
    push_cast
    rw [mul_assoc]

/-- Infinity has an empty fraction under the greatest exponent. -/
theorem isInf_iff (b : BitVec f.numBits) : (unpack f b).isInf = true ↔
    magnitude f b / 2 ^ f.mantissaBitsWithoutImplicit = 2 ^ f.exponentBits - 1 ∧
      magnitude f b % 2 ^ f.mantissaBitsWithoutImplicit = 0 := by
  rw [← unpackExponent_eq_top_iff, ← unpackMantissa_eq_zero_iff]
  by_cases top : unpackExponent b = -1#_
  · rw [unpack_of_top top]
    split
    case isTrue empty => exact iff_of_true rfl ⟨top, empty⟩
    case isFalse payload => exact iff_of_false Bool.false_ne_true fun h => payload h.2
  · rw [(unpack_of_ne_top top).1]
    exact iff_of_false Bool.false_ne_true fun h => top h.1

/-- What is not a number has another fraction under the greatest exponent. -/
theorem isNaN_iff (b : BitVec f.numBits) : (unpack f b).isNaN = true ↔
    magnitude f b / 2 ^ f.mantissaBitsWithoutImplicit = 2 ^ f.exponentBits - 1 ∧
      magnitude f b % 2 ^ f.mantissaBitsWithoutImplicit ≠ 0 := by
  rw [← unpackExponent_eq_top_iff, ne_eq, ← unpackMantissa_eq_zero_iff]
  by_cases top : unpackExponent b = -1#_
  · rw [unpack_of_top top]
    split
    case isTrue empty => exact iff_of_false Bool.false_ne_true fun h => h.2 empty
    case isFalse payload => exact iff_of_true rfl ⟨top, payload⟩
  · rw [(unpack_of_ne_top top).2]
    exact iff_of_false Bool.false_ne_true fun h => top h.1

/-! ## The order of patterns -/

variable {bits : Nat}

/-- A pattern is an exponent field and a fraction. -/
theorem exists_fields (bits p : Nat) : ∃ e m, m < 2 ^ bits ∧ p = 2 ^ bits * e + m :=
  ⟨p / 2 ^ bits, p % 2 ^ bits, Nat.mod_lt _ (by positivity), (Nat.div_add_mod ..).symm⟩

/-- The number of a pattern by its exponent and fraction. -/
theorem scaled_eq {e m : Nat} (hm : m < 2 ^ bits) :
    scaled bits (2 ^ bits * e + m) = if e = 0 then m else (2 ^ bits + m) * 2 ^ (e - 1) := by
  unfold scaled
  rw [Nat.mul_add_div (by positivity), Nat.div_eq_of_lt hm, Nat.mul_add_mod, Nat.mod_eq_of_lt hm,
    Nat.add_zero]

/-- The next pattern is that of the next number, which is one unit of the significand greater. -/
theorem scaled_succ (p : Nat) : scaled bits (p + 1) = scaled bits p + 2 ^ (p / 2 ^ bits - 1) := by
  obtain ⟨e, m, hm, rfl⟩ := exists_fields bits p
  -- With room in the fraction the step is one unit of the exponent.
  have quotient : (2 ^ bits * e + m) / 2 ^ bits = e := by
    rw [Nat.mul_add_div (by positivity), Nat.div_eq_of_lt hm, Nat.add_zero]
  rw [quotient, scaled_eq hm]
  by_cases carry : m + 1 < 2 ^ bits
  · rw [Nat.add_assoc, scaled_eq carry]
    split
    · subst e
      rfl
    · ring
  · -- The significand is full, and the next exponent begins.
    have full : 2 ^ bits * e + m + 1 = 2 ^ bits * (e + 1) + 0 := by
      rw [Nat.mul_add]
      omega
    rw [full, scaled_eq (by positivity), if_neg (Nat.succ_ne_zero e), Nat.add_sub_cancel]
    have hm : 2 ^ bits = m + 1 := by omega
    rw [hm]
    split
    · subst e
      simp
    · rename_i he
      obtain ⟨e, rfl⟩ := Nat.exists_eq_succ_of_ne_zero he
      simp only [Nat.succ_eq_add_one, Nat.add_sub_cancel]
      ring

/-- The numbers increase with the patterns. -/
theorem scaled_strictMono (bits : Nat) : StrictMono (scaled bits) := by
  apply strictMono_nat_of_lt_succ
  intro p
  rw [scaled_succ]
  exact Nat.lt_add_of_pos_right (by positivity)

/-- Up to the next exponent all steps are the same. -/
theorem scaled_add {p k : Nat} (h : p % 2 ^ bits + k ≤ 2 ^ bits) :
    scaled bits (p + k) = scaled bits p + k * 2 ^ (p / 2 ^ bits - 1) := by
  induction k with
  | zero => simp
  | succ k ih =>
    have same : (p + k) / 2 ^ bits = p / 2 ^ bits := by
      have hp := Nat.div_add_mod p (2 ^ bits)
      apply Nat.div_eq_of_lt_le
      · rw [Nat.mul_comm]
        omega
      · rw [Nat.mul_comm, Nat.mul_add]
        omega
    rw [← Nat.add_assoc, scaled_succ, ih (by omega), same]
    ring

/-- The subnormal numbers, and the least normal one, are as many units as their patterns say. -/
theorem scaled_of_le {p : Nat} (h : p ≤ 2 ^ bits) : scaled bits p = p := by
  have counted : scaled bits (0 + p) = scaled bits 0 + p * 2 ^ (0 / 2 ^ bits - 1) :=
    scaled_add (by simpa using h)
  simpa [scaled] using counted

end Pattern

end SsaGraph
