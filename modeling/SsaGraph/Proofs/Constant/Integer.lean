import Mathlib.Data.Int.ModEq
import SsaGraph.Constant.Integer

/-!
# The two readings of an integer constant

A constant of `w` bits made from `x` reads as `x` modulo `2^w` without sign (`zext_ofNat`), and in
two's complement as the one integer from `-2^(w-1)` up to `2^(w-1)` that is congruent to it. Either
reading determines the constant.

The readings are computed by shifts of words. The sign bit of the pattern is moved up by `64 - w`
places to that of the word, which multiplies the pattern by `2^(64-w)`, and moved back with its
copies, which divides (`sext_eq`). The amounts are `w` for a mask that is not the whole word and `64
- w` for the extension, so shifts that are checked to be by less than 64 compute the same
(`maskBy_checked`, `sextBy_checked`).
-/

namespace SsaGraph

/-- A word can be shifted by less than its length only. -/
def Shifts.checked : Shifts Option where
  left x amount := if amount < 64 then some (x <<< amount) else none
  right x amount := if amount < 64 then some (x.sshiftRight amount) else none

namespace IntConstant

variable {w x y : Nat} {c c' : IntConstant}

/-! ## The mask -/

/-- The mask of a width below that of the word is made with a shift. -/
theorem mask_of_lt (h : w < 64) : mask w = 1#64 <<< w - 1#64 := by
  unfold mask maskBy
  rw [if_neg (by omega)]
  rfl

/-- The mask of a width that fills the word is the full word. -/
theorem mask_of_le (h : 64 ≤ w) : mask w = BitVec.allOnes 64 := by
  unfold mask maskBy
  rw [if_pos h]
  rfl

/-- The mask is made without a shift that the machine does not have. -/
theorem maskBy_checked (w : Nat) : maskBy .checked w = some (mask w) := by
  unfold maskBy
  by_cases h : 64 ≤ w
  · rw [if_pos h, mask_of_le h]
    rfl
  · have amount : w < 64 := by omega
    rw [if_neg h, mask_of_lt amount]
    simp [Shifts.checked, amount]

/-- The mask as a number. -/
theorem toNat_mask (h : w ≤ 64) : (mask w).toNat = 2 ^ w - 1 := by
  rcases Nat.lt_or_eq_of_le h with h | rfl
  · have small : 2 ^ w < 2 ^ 64 := Nat.pow_lt_pow_right (by decide) h
    have positive : 0 < 2 ^ w := Nat.two_pow_pos w
    rw [mask_of_lt h, BitVec.toNat_sub, BitVec.toNat_shiftLeft, Nat.shiftLeft_eq]
    show (2 ^ 64 - 1 + 1 * 2 ^ w % 2 ^ 64) % 2 ^ 64 = 2 ^ w - 1
    omega
  · rfl

/-- Masking a word is reducing it modulo a power of two. -/
theorem toNat_and_mask (h : w ≤ 64) (word : BitVec 64) :
    (word &&& mask w).toNat = word.toNat % 2 ^ w := by
  rw [BitVec.toNat_and, toNat_mask h, Nat.and_two_pow_sub_one_eq_mod]

/-! ## Without sign -/

/-- Without sign, the constant made from a number is the number modulo two to the width. -/
theorem zext_ofNat (h : w ≤ 64) : (ofNat w x).zext = x % 2 ^ w := by
  show (BitVec.ofNat 64 x &&& mask w).toNat = x % 2 ^ w
  rw [toNat_and_mask h, BitVec.toNat_ofNat, Nat.mod_mod_of_dvd x (Nat.pow_dvd_pow 2 h)]

/-- Without sign, a constant is below two to its width. -/
theorem zext_lt (h : c.width ≤ 64) : c.zext < 2 ^ c.width := by
  have masked := toNat_and_mask h c.word
  rw [c.masked] at masked
  unfold zext
  rw [masked]
  exact Nat.mod_lt _ (Nat.two_pow_pos _)

/-- A constant is its width and its value. -/
theorem ext_of_zext (width : c.width = c'.width) (zext : c.zext = c'.zext) : c = c' := by
  obtain ⟨w, word, masked⟩ := c
  obtain ⟨w', word', masked'⟩ := c'
  obtain rfl : w = w' := width
  obtain rfl : word = word' := BitVec.eq_of_toNat_eq zext
  rfl

/-- Two numbers make the same constant exactly when they are the same modulo two to the width. -/
theorem ofNat_eq_iff (h : w ≤ 64) : ofNat w x = ofNat w y ↔ x % 2 ^ w = y % 2 ^ w := by
  rw [← zext_ofNat h, ← zext_ofNat h]
  exact ⟨congrArg zext, ext_of_zext rfl⟩

/-- A constant is made from the number it is without sign. -/
theorem ofNat_zext (h : c.width ≤ 64) : ofNat c.width c.zext = c := by
  refine ext_of_zext rfl ?_
  rw [zext_ofNat h, Nat.mod_eq_of_lt (zext_lt h)]

/-! ## In two's complement -/

/-- The sign is extended without a shift that the machine does not have. -/
theorem sextBy_checked (positive : 0 < c.width) : c.sextBy .checked = some c.sext := by
  have amount : 64 - c.width < 64 := by omega
  unfold sextBy
  simp only [Shifts.checked, amount, if_true]
  rfl

/-- The number that the pattern is without sign, less two to the width if its sign bit is set. -/
theorem sext_eq (h : c.width ≤ 64) :
    c.sext = if 2 * c.zext < 2 ^ c.width then (c.zext : Int) else c.zext - 2 ^ c.width := by
  -- The word is shifted up by the bits that the width leaves free, and back.
  have room : 2 ^ c.width * 2 ^ (64 - c.width) = 2 ^ 64 := by
    rw [← Nat.pow_add, Nat.add_sub_cancel' h]
  have small : c.word.toNat < 2 ^ c.width := zext_lt h
  have high : (c.word <<< (64 - c.width)).toNat = c.word.toNat * 2 ^ (64 - c.width) := by
    rw [BitVec.toNat_shiftLeft, Nat.shiftLeft_eq, Nat.mod_eq_of_lt]
    calc c.word.toNat * 2 ^ (64 - c.width)
        < 2 ^ c.width * 2 ^ (64 - c.width) := Nat.mul_lt_mul_of_pos_right small (Nat.two_pow_pos _)
      _ = 2 ^ 64 := room
  have back : c.sext = (c.word <<< (64 - c.width)).toInt >>> (64 - c.width) :=
    BitVec.toInt_sshiftRight
  rw [back, BitVec.toInt_eq_toNat_cond, high, Int.shiftRight_eq_div_pow]
  unfold zext
  -- The sign bit of the word is that of the pattern.
  have sign : 2 * (c.word.toNat * 2 ^ (64 - c.width)) < 2 ^ 64 ↔ 2 * c.word.toNat < 2 ^ c.width := by
    rw [← room, ← Nat.mul_assoc]
    exact Nat.mul_lt_mul_right (Nat.two_pow_pos _)
  have nonzero : (2 : Int) ^ (64 - c.width) ≠ 0 := Int.ne_of_gt (Int.pow_pos (by decide))
  by_cases negative : 2 * c.word.toNat < 2 ^ c.width
  · rw [if_pos (sign.2 negative), if_pos negative]
    push_cast
    exact Int.mul_ediv_cancel _ nonzero
  · rw [if_neg (mt sign.1 negative), if_neg negative, ← room]
    push_cast
    rw [← Int.sub_mul]
    exact Int.mul_ediv_cancel _ nonzero

/-- Two to the width is twice the number of non-negative values. -/
theorem two_pow_width (positive : 0 < w) : (2 : Int) ^ w = 2 * 2 ^ (w - 1) := by
  obtain ⟨n, rfl⟩ : ∃ n, w = n + 1 := ⟨w - 1, by omega⟩
  rw [Nat.add_sub_cancel, Int.pow_succ, Int.mul_comm]

/-- The two readings differ by a multiple of two to the width. -/
theorem sext_modEq (h : c.width ≤ 64) : c.sext ≡ c.zext [ZMOD 2 ^ c.width] := by
  rw [sext_eq h]
  split
  · exact Int.ModEq.refl _
  · exact Int.modEq_iff_dvd.2 ⟨1, by omega⟩

/-- In two's complement, a constant is in the range of its width. -/
theorem sext_range (positive : 0 < c.width) (h : c.width ≤ 64) :
    -2 ^ (c.width - 1) ≤ c.sext ∧ c.sext < 2 ^ (c.width - 1) := by
  have small : (c.zext : Int) < 2 ^ c.width := by exact_mod_cast zext_lt h
  have half := two_pow_width positive
  have sign : 2 * c.zext < 2 ^ c.width ↔ 2 * (c.zext : Int) < 2 ^ c.width := by norm_cast
  rw [sext_eq h]
  split
  · have := sign.1 ‹_›
    omega
  · have := mt sign.2 ‹_›
    omega

/-- Two integers that are congruent modulo the length of a range are equal if both are in it. -/
theorem eq_of_modEq {p n m : Int} (hn : -p ≤ n ∧ n < p) (hm : -p ≤ m ∧ m < p)
    (h : n ≡ m [ZMOD 2 * p]) : n = m := by
  have moved : (n + p) % (2 * p) = (m + p) % (2 * p) := h.add_right p
  rw [Int.emod_eq_of_lt (by omega) (by omega), Int.emod_eq_of_lt (by omega) (by omega)] at moved
  omega

/-- The two readings identify the same constants of one width. -/
theorem sext_eq_iff (h : w ≤ 64) (hc : c.width = w) (hc' : c'.width = w) :
    c'.sext = c.sext ↔ c'.zext = c.zext := by
  subst hc
  constructor
  · intro same
    have near := sext_modEq (c := c') (hc' ▸ h)
    rw [same, hc'] at near
    have congruent : (c'.zext : Int) ≡ c.zext [ZMOD 2 ^ c.width] := near.symm.trans (sext_modEq h)
    have small := zext_lt (c := c') (hc' ▸ h)
    rw [hc'] at small
    exact Nat.ModEq.eq_of_lt_of_lt (by exact_mod_cast congruent) small (zext_lt h)
  · intro same
    rw [ext_of_zext hc' same]

/-- The pattern of the integer in a word, masked, is the pattern of the constant. -/
theorem ofNat_sext (h : c.width ≤ 64) :
    ofNat c.width (BitVec.ofInt 64 c.sext).toNat = c := by
  refine ext_of_zext rfl ?_
  rw [zext_ofNat h, BitVec.toNat_ofInt]
  -- The width divides the word, so the pattern modulo the word is enough.
  have word : (2 : Int) ^ c.width ∣ 2 ^ 64 := pow_dvd_pow 2 h
  have small : (c.zext : Int) < 2 ^ c.width := by exact_mod_cast zext_lt h
  have same : c.sext % 2 ^ 64 % 2 ^ c.width = (c.zext : Int) := by
    calc c.sext % 2 ^ 64 % 2 ^ c.width
        = c.sext % 2 ^ c.width := Int.emod_emod_of_dvd _ word
      _ = c.zext % 2 ^ c.width := sext_modEq h
      _ = c.zext := Int.emod_eq_of_lt (Int.natCast_nonneg _) small
  have natural : ((c.sext % 2 ^ 64).toNat : Int) = c.sext % 2 ^ 64 :=
    Int.toNat_of_nonneg (Int.emod_nonneg _ (by decide))
  have cast : (((c.sext % 2 ^ 64).toNat % 2 ^ c.width : Nat) : Int) = c.zext := by
    rw [Int.natCast_emod, natural]
    exact_mod_cast same
  exact_mod_cast cast

/-- What a constant of `w` bits that was made from `x` reads as. -/
structure Reads (w x : Nat) (c : IntConstant) : Prop where
  /-- Without sign it is `x` modulo two to the width. -/
  zext : c.zext = x % 2 ^ w
  /-- In two's complement it is an integer of the range of its width. -/
  range : -2 ^ (w - 1) ≤ c.sext ∧ c.sext < 2 ^ (w - 1)
  /-- It is congruent to `x`. -/
  congruent : c.sext ≡ x [ZMOD 2 ^ w]
  /-- No other integer of the range is. -/
  unique : ∀ n : Int, -2 ^ (w - 1) ≤ n → n < 2 ^ (w - 1) → n ≡ x [ZMOD 2 ^ w] → n = c.sext
  /-- The number without sign makes the same constant. -/
  ofNat_zext : ofNat w c.zext = c
  /-- So does the pattern of the integer in a word. -/
  ofNat_sext : ofNat w (BitVec.ofInt 64 c.sext).toNat = c
  /-- For constants of one width, both readings are the same or both are different. -/
  sext_eq_iff : ∀ {c' : IntConstant}, c'.width = w → (c'.sext = c.sext ↔ c'.zext = c.zext)
  /-- The mask is made without a shift by 64 or more. -/
  mask_checked : maskBy .checked w = some (mask w)
  /-- The sign is extended without a shift by 64 or more. -/
  sext_checked : c.sextBy .checked = some c.sext

/-- The constant of a width and a number has the readings that it should have. -/
theorem reads_ofNat (positive : 0 < w) (h : w ≤ 64) (x : Nat) : (ofNat w x).Reads w x := by
  have range := sext_range (c := ofNat w x) positive h
  have congruent : (ofNat w x).sext ≡ x [ZMOD 2 ^ w] := by
    calc (ofNat w x).sext
        ≡ (ofNat w x).zext [ZMOD 2 ^ w] := sext_modEq h
      _ = (x % 2 ^ w : Nat) := by rw [zext_ofNat h]
      _ ≡ x [ZMOD 2 ^ w] := by exact_mod_cast Nat.mod_modEq x (2 ^ w)
  constructor
  case zext => exact zext_ofNat h
  case range => exact range
  case congruent => exact congruent
  case unique =>
    intro n low high same
    -- Both are in a range of 2^w numbers and congruent modulo 2^w.
    refine eq_of_modEq ⟨low, high⟩ range ?_
    rw [← two_pow_width positive]
    exact same.trans congruent.symm
  case ofNat_zext => exact ofNat_zext (c := ofNat w x) h
  case ofNat_sext => exact ofNat_sext (c := ofNat w x) h
  case sext_eq_iff => exact fun hc' => sext_eq_iff h rfl hc'
  case mask_checked => exact maskBy_checked w
  case sext_checked => exact sextBy_checked positive

/-- For instance, with 63 bits, all of them set. -/
theorem reads_ofNat_ones : (0 < 63 ∧ 63 ≤ 64) ∧
    ((ofNat 63 (2 ^ 64 - 1)).zext = 2 ^ 63 - 1 ∧ (ofNat 63 (2 ^ 64 - 1)).sext = -1) ∧
    (ofNat 63 (2 ^ 64 - 1)).Reads 63 (2 ^ 64 - 1) :=
  ⟨by decide, by decide, reads_ofNat (by decide) (by decide) _⟩

end IntConstant

end SsaGraph
