import SsaGraph.Proofs.Constant.Magnitude

/-!
# Rounding to single precision is exact where it can be, and nearest elsewhere

`Rounds x r` says what becomes of a binary64 pattern `x` when it is rounded to `r`: the image of a
binary32 pattern, of the same sign, which is `x` itself if `x` is such an image, the nearest one if
`x` stands for a number that does not overflow, infinity if it overflows, and a quiet pattern with
the upper payload of `x` if `x` is not a number. `round_rounds` proves it of `Single.round`.

An image is told by what both patterns stand for (`Image`), through the reading of the language, and
not by how the rounding computes it; `exists_binary32` and `image_of_widen` find the binary32
pattern of a result. To be nearest is to be no farther away than any finite binary32 number, of
either sign (`Nearest`).
-/

namespace SsaGraph

open Pattern
open Float.Model.UnpackedFloat (unpack)

namespace Single

variable {s : BitVec 32} {x : BitVec 64} {negative : Bool} {m n : Nat}

/-! ## Reading patterns -/

/-- The least positive number of binary64. -/
def unit : Rat := 2 ^ leastExponent .binary64

/-- The unit is positive. -/
theorem unit_pos : 0 < unit := zpow_pos two_pos _

/-- The magnitude of a binary64 pattern has 63 bits. -/
theorem magnitude_binary64 (x : BitVec 64) : magnitude .binary64 x = x.toNat % 2 ^ 63 := rfl

/-- The magnitude of a binary32 pattern has 31 bits. -/
theorem magnitude_binary32 (s : BitVec 32) : magnitude .binary32 s = s.toNat % 2 ^ 31 := rfl

/-- The fraction of a binary64 pattern has 52 bits. -/
theorem fraction_binary64 (x : BitVec 64) :
    fraction .binary64 x = magnitude .binary64 x % 2 ^ 52 := fraction_eq (f := .binary64) x

/-- The fraction of a binary32 pattern has 23 bits. -/
theorem fraction_binary32 (s : BitVec 32) :
    fraction .binary32 s = magnitude .binary32 s % 2 ^ 23 := fraction_eq (f := .binary32) s

/-- The number of a binary64 pattern, in units of the least positive one. -/
theorem number?_binary64 (x : BitVec 64) :
    number? .binary64 x =
      if magnitude .binary64 x < infinity then
        some ((signed x.msb (scaled 52 (magnitude .binary64 x)) : Int) * unit : Rat)
      else none := by
  have upper : magnitude .binary64 x < 2 ^ 63 := Nat.mod_lt _ (by positivity)
  have top : magnitude .binary64 x / 2 ^ 52 = 2 ^ 11 - 1 ↔
      ¬ magnitude .binary64 x < infinity := by
    rw [infinity_eq]
    omega
  refine (number?_eq (f := .binary64) x).trans ?_
  by_cases finite : magnitude .binary64 x < infinity
  · rw [if_pos finite]
    exact if_neg fun h => top.1 h finite
  · rw [if_neg finite]
    exact if_pos (top.2 finite)

/-- The number of a binary32 pattern, in units of the least positive one of binary64. -/
theorem number?_binary32 (s : BitVec 32) :
    number? .binary32 s =
      if magnitude .binary32 s < 255 * 2 ^ 23 then
        some ((signed s.msb (grid (magnitude .binary32 s)) : Int) * unit : Rat)
      else none := by
  have upper : magnitude .binary32 s < 2 ^ 31 := Nat.mod_lt _ (by positivity)
  -- The exponent is the greatest one exactly from this magnitude on.
  have top : magnitude .binary32 s / 2 ^ 23 = 2 ^ 8 - 1 ↔
      ¬ magnitude .binary32 s < 255 * 2 ^ 23 := by
    omega
  -- The least exponent of the short format is a whole number of units of the long one.
  have units : (2 : Rat) ^ leastExponent .binary32 = (2 ^ gridExponent : Nat) * unit := by
    rw [unit, Nat.cast_pow, Nat.cast_ofNat, ← zpow_natCast, ← zpow_add₀ two_ne_zero]
    rfl
  refine (number?_eq (f := .binary32) s).trans ?_
  by_cases finite : magnitude .binary32 s < 255 * 2 ^ 23
  · rw [if_pos finite, if_neg fun h => top.1 h finite, units, grid, signed_mul, Int.cast_mul,
      Int.cast_natCast, mul_assoc]
  · rw [if_neg finite]
    exact if_pos (top.2 finite)

/-- A binary64 pattern is infinite exactly when its magnitude is that of infinity. -/
theorem isInf_binary64 (x : BitVec 64) :
    (unpack .binary64 x).isInf = true ↔ magnitude .binary64 x = infinity := by
  have upper : magnitude .binary64 x < 2 ^ 63 := Nat.mod_lt _ (by positivity)
  rw [isInf_iff (f := .binary64) x, infinity_eq]
  show magnitude .binary64 x / 2 ^ 52 = 2 ^ 11 - 1 ∧ magnitude .binary64 x % 2 ^ 52 = 0 ↔ _
  omega

/-- A binary64 pattern is no number exactly when its magnitude is above infinity. -/
theorem isNaN_binary64 (x : BitVec 64) :
    (unpack .binary64 x).isNaN = true ↔ infinity < magnitude .binary64 x := by
  have upper : magnitude .binary64 x < 2 ^ 63 := Nat.mod_lt _ (by positivity)
  rw [isNaN_iff (f := .binary64) x, infinity_eq]
  show magnitude .binary64 x / 2 ^ 52 = 2 ^ 11 - 1 ∧ magnitude .binary64 x % 2 ^ 52 ≠ 0 ↔ _
  omega

/-! ## Images -/

/-- The binary64 pattern is what the binary32 pattern becomes without any rounding: both have the
same sign and stand for the same number, and if they stand for none, the fraction is filled up with
zeros. -/
structure Image (s : BitVec 32) (x : BitVec 64) : Prop where
  sign : x.msb = s.msb
  number : number? .binary64 x = number? .binary32 s
  payload : number? .binary32 s = none →
    fraction .binary64 x = fraction .binary32 s * 2 ^ 29

/-- There is a pattern for each sign and magnitude. -/
theorem exists_binary32 (negative : Bool) (hn : n < 2 ^ 31) :
    ∃ s : BitVec 32, s.msb = negative ∧ magnitude .binary32 s = n ∧ s.toNat % 2 = n % 2 := by
  have small : negative.toNat * 2 ^ 31 + n < 2 ^ 32 := by
    have := Bool.toNat_le negative
    omega
  refine ⟨BitVec.ofNat 32 (negative.toNat * 2 ^ 31 + n), ?_, ?_, ?_⟩
  · rw [BitVec.msb_eq_decide, BitVec.toNat_ofNat, Nat.mod_eq_of_lt small]
    cases negative with
    | false => simpa using hn
    | true => simp
  · rw [magnitude_binary32, BitVec.toNat_ofNat, Nat.mod_eq_of_lt small]
    omega
  · rw [BitVec.toNat_ofNat, Nat.mod_eq_of_lt small]
    omega

/-- Finite patterns stand for the same number if one is the other widened. -/
theorem image_of_widen (sign : x.msb = s.msb) (hs : magnitude .binary32 s < 255 * 2 ^ 23)
    (hx : magnitude .binary64 x = widen (magnitude .binary32 s)) : Image s x := by
  have finite : magnitude .binary64 x < infinity := by
    rw [hx]
    exact (widen_lt hs).trans (by decide +kernel)
  have number : number? .binary64 x = number? .binary32 s := by
    rw [number?_binary64, if_pos finite, number?_binary32, if_pos hs, sign, hx, scaled_widen, grid]
  refine ⟨sign, number, fun none => ?_⟩
  rw [number?_binary32, if_pos hs] at none
  cases none

/-- Patterns that stand for no number have the same fraction. -/
theorem image_of_special (sign : x.msb = s.msb) (hs : magnitude .binary32 s = 255 * 2 ^ 23 + n)
    (hx : magnitude .binary64 x = infinity + n * 2 ^ 29) (hn : n < 2 ^ 23) : Image s x := by
  have number : number? .binary64 x = number? .binary32 s := by
    rw [number?_binary64, if_neg (by omega), number?_binary32, if_neg (by omega)]
  refine ⟨sign, number, fun _ => ?_⟩
  rw [infinity_eq] at hx
  rw [fraction_binary64, fraction_binary32, hs, hx]
  omega

/-- Numbers of one sign are determined by their magnitudes. -/
theorem signed_inj (h : signed negative m = signed negative n) : m = n := by
  unfold signed at h
  split at h <;> omega

/-- A finite image is the pattern widened. -/
theorem Image.magnitude_eq (h : Image s x) (finite : magnitude .binary64 x < infinity) :
    magnitude .binary32 s < 255 * 2 ^ 23 ∧
      magnitude .binary64 x = widen (magnitude .binary32 s) := by
  have number := h.number
  rw [number?_binary64, if_pos finite, number?_binary32] at number
  split at number
  · rename_i hs
    refine ⟨hs, (scaled_strictMono 52).injective ?_⟩
    rw [Option.some.injEq, mul_left_inj' unit_pos.ne', Int.cast_inj, h.sign] at number
    rw [scaled_widen]
    exact signed_inj number
  · cases number

/-! ## The rounded pattern -/

/-- Rounding keeps the sign and rounds the magnitude. -/
theorem toNat_round (x : BitVec 64) :
    (round x).toNat = x.toNat / 2 ^ 63 * 2 ^ 63 + roundMagnitude (x.toNat % 2 ^ 63) ∧
      roundMagnitude (x.toNat % 2 ^ 63) < 2 ^ 63 := by
  have upper := x.isLt
  have rounded : roundMagnitude (x.toNat % 2 ^ 63) < 2 ^ 63 :=
    roundMagnitude_lt (Nat.mod_lt _ (by positivity))
  refine ⟨?_, rounded⟩
  rw [round, BitVec.toNat_ofNat, Nat.one_shiftLeft]
  exact Nat.mod_eq_of_lt (by omega)

/-- Rounding keeps the sign. -/
theorem msb_round (x : BitVec 64) : (round x).msb = x.msb := by
  obtain ⟨value, rounded⟩ := toNat_round x
  have upper := x.isLt
  rw [BitVec.msb_eq_decide, BitVec.msb_eq_decide, value, decide_eq_decide]
  omega

/-- Rounding a pattern rounds its magnitude. -/
theorem magnitude_round (x : BitVec 64) :
    magnitude .binary64 (round x) = roundMagnitude (magnitude .binary64 x) := by
  obtain ⟨value, rounded⟩ := toNat_round x
  rw [magnitude_binary64, magnitude_binary64, value]
  omega

/-- A binary64 pattern is determined by its sign and its magnitude. -/
theorem eq_of_parts {y : BitVec 64} (sign : x.msb = y.msb)
    (magnitudes : magnitude .binary64 x = magnitude .binary64 y) : x = y := by
  apply BitVec.eq_of_toNat_eq
  rw [toNat_eq (f := .binary64) x, sign, magnitudes]
  exact (toNat_eq (f := .binary64) y).symm

/-- From half a unit below the limit on, a number is rounded to infinity. -/
theorem magnitude_round_of_large (large : limit - 2 ^ 28 ≤ magnitude .binary64 x)
    (finite : magnitude .binary64 x ≤ infinity) : magnitude .binary64 (round x) = infinity := by
  rw [magnitude_round, roundMagnitude_overflow large finite]

/-- A number or infinity is not rounded to a NaN. -/
theorem magnitude_round_le (number : magnitude .binary64 x ≤ infinity) :
    magnitude .binary64 (round x) ≤ infinity := by
  rcases Nat.lt_or_ge (magnitude .binary64 x) (limit - 2 ^ 28) with small | large
  · obtain ⟨n, hn, rounded, -⟩ := roundMagnitude_nearest small
    rw [magnitude_round, rounded]
    exact ((widen_lt hn).trans (by decide +kernel)).le
  · exact (magnitude_round_of_large large number).le

/-- A NaN stays a NaN. -/
theorem lt_magnitude_round (nan : infinity < magnitude .binary64 x) :
    infinity < magnitude .binary64 (round x) := by
  obtain ⟨n, hn, -, rounded⟩ := roundMagnitude_nan nan (Nat.mod_lt _ (by positivity))
  rw [magnitude_round, rounded]
  omega

/-- A pattern that is not a number is made quiet and loses its low bits. -/
theorem round_nan (hx : infinity < magnitude .binary64 x) :
    round x = (x >>> 29 ||| 1#64 <<< 22) <<< 29 := by
  rw [magnitude_binary64] at hx
  have upper := x.isLt
  have high : x.toNat % 2 ^ 63 / 2 ^ 29 < 2 ^ 34 := by omega
  have parts : x.toNat / 2 ^ 29 = x.toNat / 2 ^ 63 * 2 ^ 34 + x.toNat % 2 ^ 63 / 2 ^ 29 := by omega
  have word : (1#64 <<< 22).toNat = 2 ^ 22 := rfl
  apply BitVec.eq_of_toNat_eq
  rw [round, BitVec.toNat_ofNat, Nat.one_shiftLeft, roundMagnitude, if_pos hx, quiet_eq,
    BitVec.toNat_shiftLeft, BitVec.toNat_or, BitVec.toNat_ushiftRight, word, Nat.shiftLeft_eq,
    Nat.shiftRight_eq_div_pow, parts, mul_add_or high (by decide)]
  omega

/-- Each bit of a rounded NaN: the quiet bit is set, the upper bits stay and the lower ones are
cleared. -/
theorem getLsbD_round_nan (hx : infinity < magnitude .binary64 x) (i : Nat) :
    (round x).getLsbD i = (decide (i = 51) || decide (29 ≤ i) && x.getLsbD i) := by
  have quietBit : (1#64 <<< 22).getLsbD (i - 29) = decide (22 = i - 29) :=
    BitVec.getLsbD_twoPow 22 (i - 29)
  rw [round_nan hx, BitVec.getLsbD_shiftLeft, BitVec.getLsbD_or, BitVec.getLsbD_ushiftRight,
    quietBit]
  -- The bits fall in three ranges: those cleared, those kept and those beyond the word.
  rcases Nat.lt_or_ge i 29 with low | high
  · rw [decide_eq_true low, decide_eq_false (show ¬ i = 51 by omega),
      decide_eq_false (Nat.not_le.2 low)]
    simp
  have bit : 22 = i - 29 ↔ i = 51 := by omega
  rw [Nat.add_sub_cancel' high, decide_eq_false (Nat.not_lt.2 high), decide_eq_true high,
    decide_eq_decide.2 bit]
  rcases Nat.lt_or_ge i 64 with small | large
  · rw [decide_eq_true small]
    simp [Bool.or_comm]
  · rw [BitVec.getLsbD_of_ge x i large, decide_eq_false (show ¬ i = 51 by omega)]
    simp

/-! ## Nearest numbers -/

/-- Of the numbers of binary32, `p` is nearest to `q`, and `s` is its pattern. -/
structure Nearest (q : Rat) (s : BitVec 32) (p : Rat) : Prop where
  number : number? .binary32 s = some p
  /-- No number is nearer. -/
  le : ∀ {s' p'}, number? .binary32 s' = some p' → |q - p| ≤ |q - p'|
  /-- If another number is as near, the last bit of the pattern is zero. -/
  even : ∀ {s' p'}, number? .binary32 s' = some p' → p' ≠ p → |q - p'| = |q - p| →
    s.getLsbD 0 = false

/-- With signs the same number is nearest, as numbers of the other sign are no nearer than zero. -/
theorem NearestAt.across_signs {v k : Nat} (h : NearestAt grid v k) (negative negative' : Bool)
    (n : Nat) :
    (signed negative v - signed negative (grid k)).natAbs ≤
        (signed negative v - signed negative' (grid n)).natAbs ∧
      (signed negative' (grid n) ≠ signed negative (grid k) →
        (signed negative v - signed negative' (grid n)).natAbs =
          (signed negative v - signed negative (grid k)).natAbs → k % 2 = 0) := by
  have zero : grid 0 = 0 := by
    rw [grid, scaled_of_le (Nat.zero_le _), Nat.zero_mul]
  have le := h.le n
  have even := h.even n
  -- Between the signs lies zero, so its distance bounds that to any number of the other sign.
  have le₀ := h.le 0
  have even₀ := h.even 0
  rw [zero] at le₀ even₀
  have hk : k = 0 → grid k = 0 := by
    rintro rfl
    exact zero
  have hn : n = k → grid n = grid k := by
    rintro rfl
    rfl
  cases negative <;> cases negative' <;>
    simp only [signed, Bool.false_eq_true, ↓reduceIte] <;> omega

/-- What is nearest on the grid is nearest among the numbers of binary32. -/
theorem nearest_of_nearestAt {v : Nat} (near : NearestAt grid v n) (hs : magnitude .binary32 s = n)
    (hn : n < 255 * 2 ^ 23) (parity : s.toNat % 2 = n % 2) :
    Nearest ((signed s.msb v : Int) * unit) s ((signed s.msb (grid n) : Int) * unit) := by
  -- Distances of numbers are distances of their multiples of the unit.
  have distance : ∀ a b : Int, |a * unit - b * unit| = (a - b).natAbs * unit := by
    intro a b
    rw [← sub_mul, abs_mul, abs_of_pos unit_pos, ← Int.cast_sub, ← Int.cast_abs,
      Nat.cast_natAbs]
  have number : ∀ {s' : BitVec 32} {p' : Rat}, number? .binary32 s' = some p' →
      ∃ n', p' = (signed s'.msb (grid n') : Int) * unit := by
    intro s' p' h
    rw [number?_binary32] at h
    split at h
    · exact ⟨_, (Option.some.inj h).symm⟩
    · cases h
  constructor
  case number => rw [number?_binary32, hs, if_pos hn]
  -- Any other number is on the grid, with its own sign.
  case le =>
    intro s' p' h
    obtain ⟨n', rfl⟩ := number h
    rw [distance, distance, mul_le_mul_iff_left₀ unit_pos, Nat.cast_le]
    exact (near.across_signs ..).1
  -- On equal distance the two differ, so the even one has been taken.
  case even =>
    intro s' p' h ne same
    obtain ⟨n', rfl⟩ := number h
    rw [distance, distance, mul_left_inj' unit_pos.ne', Nat.cast_inj] at same
    have even : n % 2 = 0 := by
      refine (near.across_signs _ _ _).2 (fun heq => ne ?_) same
      rw [heq]
    rw [BitVec.getLsbD, Nat.testBit_zero, parity, even]
    rfl

/-- The numbers that do not overflow are those below the middle between the greatest number of
binary32 and 2^128. -/
theorem abs_lt_iff {v p : Nat} (hv : v = scaled 52 p) (negative : Bool) :
    |(signed negative v : Int) * unit| < 2 ^ 128 - 2 ^ 103 ↔ p < limit - 2 ^ 28 := by
  have middle : limit - 2 ^ 28 = 2 ^ 52 * 1150 + (2 ^ 52 - 2 ^ 28) := rfl
  have bound : (2 : Rat) ^ 128 - 2 ^ 103 = (scaled 52 (limit - 2 ^ 28) : Nat) * unit := by
    have power : (2 : Rat) ^ 1149 * unit = 2 ^ 75 := by
      rw [unit, ← zpow_natCast, ← zpow_add₀ two_ne_zero]
      rfl
    rw [middle, scaled_eq (by norm_num), if_neg (by norm_num), Nat.cast_mul, Nat.cast_pow,
      mul_assoc, Nat.cast_ofNat, power]
    norm_num
  have value : |(signed negative v : Int) * unit| = v * unit := by
    rw [abs_mul, abs_of_pos unit_pos, ← Int.cast_abs]
    cases negative <;> simp [signed]
  rw [value, bound, mul_lt_mul_iff_left₀ unit_pos, Nat.cast_lt, hv,
    (scaled_strictMono 52).lt_iff_lt]

/-! ## What rounding is -/

/-- A number that does not overflow is rounded to the image of the nearest number of binary32. -/
theorem round_nearest (small : magnitude .binary64 x < limit - 2 ^ 28) :
    ∃ s p, Image s (round x) ∧
      Nearest ((signed x.msb (scaled 52 (magnitude .binary64 x)) : Int) * unit) s p := by
  obtain ⟨n, hn, rounded, near⟩ := roundMagnitude_nearest small
  obtain ⟨s, sign, hs, parity⟩ := exists_binary32 x.msb (show n < 2 ^ 31 by omega)
  have image : Image s (round x) := by
    apply image_of_widen
    · rw [sign, msb_round]
    · rwa [hs]
    · rw [magnitude_round, rounded, hs]
  rw [← sign]
  exact ⟨s, _, image, nearest_of_nearestAt near hs hn parity⟩

/-- A rounded pattern is the image of a binary32 pattern. -/
theorem exists_image (x : BitVec 64) : ∃ s, Image s (round x) := by
  have upper : magnitude .binary64 x < 2 ^ 63 := Nat.mod_lt _ (by positivity)
  -- An image without a number has the payload `n`.
  have special : ∀ n < 2 ^ 23, magnitude .binary64 (round x) = infinity + n * 2 ^ 29 →
      ∃ s, Image s (round x) := by
    intro n hn rounded
    obtain ⟨s, sign, hs, -⟩ := exists_binary32 x.msb (show 255 * 2 ^ 23 + n < 2 ^ 31 by omega)
    exact ⟨s, image_of_special (by rw [msb_round, sign]) hs rounded hn⟩
  rcases Nat.lt_or_ge infinity (magnitude .binary64 x) with nan | finite
  · obtain ⟨n, -, hn, rounded⟩ := roundMagnitude_nan nan upper
    exact special n hn (by rw [magnitude_round, rounded])
  · rcases Nat.lt_or_ge (magnitude .binary64 x) (limit - 2 ^ 28) with small | large
    · obtain ⟨s, p, image, -⟩ := round_nearest small
      exact ⟨s, image⟩
    · exact special 0 (by decide) (by rw [magnitude_round_of_large large finite]; rfl)

/-- An image is rounded to itself, unless it is without a number. -/
theorem round_of_image (h : Image s x) (number : magnitude .binary64 x ≤ infinity) :
    round x = x := by
  apply eq_of_parts (msb_round x)
  rw [magnitude_round]
  rcases Nat.lt_or_eq_of_le number with finite | infinite
  · obtain ⟨hs, hx⟩ := h.magnitude_eq finite
    rw [hx, roundMagnitude_widen hs]
  · rw [infinite, roundMagnitude_infinity]

/-- Rounding twice is rounding once. -/
theorem round_round (x : BitVec 64) : round (round x) = round x := by
  rcases Nat.lt_or_ge infinity (magnitude .binary64 x) with nan | number
  · apply BitVec.eq_of_getLsbD_eq
    intro i _
    rw [getLsbD_round_nan (lt_magnitude_round nan), getLsbD_round_nan nan]
    cases decide (i = 51) <;> cases decide (29 ≤ i) <;> rfl
  · obtain ⟨s, image⟩ := exists_image x
    exact round_of_image image (magnitude_round_le number)

/-- What rounding makes of a binary64 pattern. -/
structure Rounds (x r : BitVec 64) : Prop where
  /-- The pattern is the image of a binary32 number. -/
  image : ∃ s, Image s r
  /-- A pattern that is such an image, and not without a number, is kept. -/
  exact : ∀ {s}, Image s x → (unpack .binary64 x).isNaN = false → r = x
  /-- The sign is kept. -/
  sign : r.msb = x.msb
  /-- A number that does not overflow is rounded to the nearest one, a tie to the even pattern. -/
  nearest : ∀ {q}, number? .binary64 x = some q → |q| < 2 ^ 128 - 2 ^ 103 →
    ∃ s p, Image s r ∧ Nearest q s p
  /-- A number that overflows becomes infinite. -/
  overflow : ∀ {q}, number? .binary64 x = some q → 2 ^ 128 - 2 ^ 103 ≤ |q| →
    (unpack .binary64 r).isInf = true
  /-- A pattern without a number becomes quiet and keeps the upper part of its payload. -/
  nan : (unpack .binary64 x).isNaN = true → (unpack .binary64 r).isNaN = true ∧
    ∀ i, r.getLsbD i = (decide (i = 51) || decide (29 ≤ i) && x.getLsbD i)
  /-- Rounding again changes nothing. -/
  again : round r = r

/-- Rounding a pattern satisfies the whole description of rounding. -/
theorem round_rounds (x : BitVec 64) : Rounds x (round x) := by
  -- Each clause is one of the lemmas above, once the patterns without a number are excluded.
  constructor
  case image => exact exists_image x
  case exact =>
    intro s image number
    rw [Bool.eq_false_iff, ne_eq, isNaN_binary64] at number
    exact round_of_image image (Nat.le_of_not_lt number)
  case sign => exact msb_round x
  case nearest =>
    intro q number small
    rw [number?_binary64] at number
    split at number
    · cases number
      exact round_nearest ((abs_lt_iff rfl _).1 small)
    · cases number
  case overflow =>
    intro q number large
    rw [number?_binary64] at number
    split at number
    · -- From the limit on the magnitude is too large for any binary32 number to be nearest.
      rename_i finite
      cases number
      rw [isInf_binary64]
      apply magnitude_round_of_large _ finite.le
      rw [← not_lt, abs_lt_iff rfl] at large
      exact Nat.le_of_not_lt large
    · cases number
  case nan =>
    intro nan
    rw [isNaN_binary64] at nan
    exact ⟨(isNaN_binary64 _).2 (lt_magnitude_round nan), getLsbD_round_nan nan⟩
  case again => exact round_round x

end Single

end SsaGraph
