import SsaGraph.Proofs.Constant.Pattern

/-!
# Rounding of magnitudes

`Single.roundMagnitude` rounds a binary64 pattern without its sign. Below the overflow the result is
the pattern of a number of binary32, which is the nearest of them, and of two that are as near the
even one (`roundMagnitude_nearest`); from the middle between the greatest number of binary32 and
2^128 on it is infinity (`roundMagnitude_overflow`).

The numbers of binary32 are the values of `grid` at their patterns, in units of the least positive
number of binary64. Both kinds of rounding divide: below the normal range of binary32 the
significand by the size of a unit of 2^(-149), and from there on the pattern by 2^29. In either case
the quotient is a pattern of binary32, up to an even offset that keeps its parity, the next pattern
is one divisor away, and the remainder tells which of the two is nearer (`nearestAt_roundShift`).
What is not one of the two is farther away, for `grid` is strictly increasing
(`nearestAt_of_between`).

Hence numbers of binary32 and infinity are kept, and what is not a number goes to a pattern with a
fraction that binary32 has room for (`roundMagnitude_nan`).
-/

namespace SsaGraph

open Pattern

namespace Single

/-! ## Widening -/

/-- The least positive number of binary32 is this power of two, in units of that of binary64. -/
def gridExponent : Nat := 925

/-- The binary64 pattern for the number of a binary32 pattern, both without sign. Above the
subnormal numbers the exponents of binary32 are continued without end. -/
def widen (n : Nat) : Nat := if n < 2 ^ 23 then ofUnits n else (n + 896 * 2 ^ 23) * 2 ^ 29

/-- The pattern made from a number of units stands for this number of units. -/
theorem scaled_ofUnits {n : Nat} (hn : n < 2 ^ 53) :
    scaled 52 (ofUnits n) = n * 2 ^ gridExponent := by
  by_cases zero : n = 0
  · subst n
    rw [ofUnits, if_pos rfl, Nat.zero_mul, scaled_of_le (by positivity)]
  have upper : n < 2 ^ (n.log2 + 1) := Nat.lt_log2_self
  have lower : 2 ^ n.log2 ≤ n := Nat.log2_self_le zero
  have top : n.log2 ≤ 52 := by
    have := (Nat.log2_lt zero).2 hn
    omega
  -- Shifted up, the leading bit of `n` becomes the implicit one.
  have leading : n * 2 ^ (52 - n.log2) = 2 ^ 52 + (n * 2 ^ (52 - n.log2) - 2 ^ 52) := by
    have := Nat.mul_le_mul_right (2 ^ (52 - n.log2)) lower
    rw [← Nat.pow_add, Nat.add_sub_cancel' top] at this
    omega
  have rest : n * 2 ^ (52 - n.log2) - 2 ^ 52 < 2 ^ 52 := by
    have := Nat.mul_lt_mul_of_pos_right upper (show 0 < 2 ^ (52 - n.log2) by positivity)
    rw [← Nat.pow_add, show n.log2 + 1 + (52 - n.log2) = 53 by omega] at this
    omega
  have pattern : ofUnits n =
      2 ^ 52 * (1023 - 149 + n.log2) + (n * 2 ^ (52 - n.log2) - 2 ^ 52) := by
    rw [ofUnits, if_neg zero, ofExponent, Nat.shiftLeft_eq, Nat.shiftLeft_eq]
    simp only [fractionBits, ofExponent, Nat.shiftLeft_eq]
    omega
  have exponent : 52 - n.log2 + (1023 - 149 + n.log2 - 1) = gridExponent := by
    unfold gridExponent
    omega
  rw [pattern, scaled_eq rest, if_neg (by omega), ← leading, Nat.mul_assoc, ← Nat.pow_add, exponent]

/-- The images of binary32 numbers. -/
theorem scaled_widen (n : Nat) : scaled 52 (widen n) = scaled 23 n * 2 ^ gridExponent := by
  unfold widen
  split
  · -- Below the normal range the pattern is itself a number of units.
    rename_i subnormal
    rw [scaled_ofUnits (by omega), scaled_of_le (by omega)]
  · rename_i normal
    -- In it the fraction gets 29 more bits and the exponent another bias.
    obtain ⟨e, m, hm, rfl⟩ := exists_fields 23 n
    have he : e ≠ 0 := by
      rintro rfl
      omega
    have pattern : (2 ^ 23 * e + m + 896 * 2 ^ 23) * 2 ^ 29 =
        2 ^ 52 * (e + 896) + m * 2 ^ 29 := by
      ring
    have exponent : 2 ^ 29 * 2 ^ (e + 896 - 1) = 2 ^ (e - 1) * 2 ^ gridExponent := by
      have sum : 29 + (e + 896 - 1) = e - 1 + gridExponent := by
        unfold gridExponent
        omega
      rw [← Nat.pow_add, ← Nat.pow_add, sum]
    rw [pattern, scaled_eq (by omega), if_neg (by omega), scaled_eq hm, if_neg he]
    calc (2 ^ 52 + m * 2 ^ 29) * 2 ^ (e + 896 - 1)
        = (2 ^ 23 + m) * (2 ^ 29 * 2 ^ (e + 896 - 1)) := by ring
      _ = (2 ^ 23 + m) * 2 ^ (e - 1) * 2 ^ gridExponent := by rw [exponent, Nat.mul_assoc]

/-! ## Nearest numbers -/

/-- Of the values of `g`, the one at `k` is nearest to `v`. -/
structure NearestAt (g : Nat → Nat) (v k : Nat) : Prop where
  /-- No value is nearer. -/
  le : ∀ n, (v - g k : Int).natAbs ≤ (v - g n : Int).natAbs
  /-- If another one is as near, `k` is even. -/
  even : ∀ n, n ≠ k → (v - g n : Int).natAbs = (v - g k : Int).natAbs → k % 2 = 0

/-- Between two neighbours the nearer one is nearest, or the even one. -/
theorem nearestAt_of_between {g : Nat → Nat} (hg : StrictMono g) {v k j a u : Nat}
    (lower : v = g k + a) (upper : g (k + 1) = g k + u) (ha : a < u)
    (choice : j = k ∧ (2 * a < u ∨ 2 * a = u ∧ k % 2 = 0) ∨
      j = k + 1 ∧ (u < 2 * a ∨ 2 * a = u ∧ k % 2 = 1)) : NearestAt g v j := by
  -- What is not one of the two neighbours is farther away than the one on its side.
  have far : ∀ n, g n = g k ∧ n = k ∨ g n < g k ∧ n < k ∨ g n = g (k + 1) ∧ n = k + 1 ∨
      g (k + 1) < g n ∧ k + 1 < n := by
    intro n
    rcases Nat.lt_trichotomy n k with h | rfl | h
    · exact .inr (.inl ⟨hg h, h⟩)
    · exact .inl ⟨rfl, rfl⟩
    · rcases Nat.lt_or_eq_of_le (Nat.succ_le_of_lt h) with h | rfl
      · exact .inr (.inr (.inr ⟨hg h, h⟩))
      · exact .inr (.inr (.inl ⟨rfl, rfl⟩))
  constructor
  · intro n
    have := far n
    rcases choice with ⟨rfl, h⟩ | ⟨rfl, h⟩ <;> omega
  · -- At the same distance there is only the other neighbour, and a tie chose the even one.
    intro n ne same
    have := far n
    rcases choice with ⟨rfl, h⟩ | ⟨rfl, h⟩ <;> omega

/-- `roundShift` goes down to the quotient or up to the next number, whichever is nearer. -/
theorem roundShift_cases (n shift : Nat) :
    roundShift n shift = n / 2 ^ shift ∧
        (2 * (n % 2 ^ shift) < 2 ^ shift ∨
          2 * (n % 2 ^ shift) = 2 ^ shift ∧ n / 2 ^ shift % 2 = 0) ∨
      roundShift n shift = n / 2 ^ shift + 1 ∧
        (2 ^ shift < 2 * (n % 2 ^ shift) ∨
          2 * (n % 2 ^ shift) = 2 ^ shift ∧ n / 2 ^ shift % 2 = 1) := by
  unfold roundShift
  simp only [Nat.shiftRight_eq_div_pow, Nat.one_shiftLeft]
  split
  · exact .inr ⟨rfl, by omega⟩
  · exact .inl ⟨rfl, by omega⟩

/-- Rounding away the low bits of `n` is rounding to the values of `g`, if its steps around `v` are
steps of the quotient. -/
theorem nearestAt_roundShift {g : Nat → Nat} (hg : StrictMono g) {v k n shift c offset : Nat}
    (hc : 0 < c) (quotient : n / 2 ^ shift = k + 2 * offset) (lower : v = g k + n % 2 ^ shift * c)
    (upper : g (k + 1) = g k + 2 ^ shift * c) :
    NearestAt g v (roundShift n shift - 2 * offset) := by
  have rest : n % 2 ^ shift < 2 ^ shift := Nat.mod_lt _ (by positivity)
  have scale : ∀ {a b : Nat}, a < b → a * c < b * c := fun h => Nat.mul_lt_mul_of_pos_right h hc
  refine nearestAt_of_between hg lower upper (scale rest) ?_
  rw [← Nat.mul_assoc]
  rcases roundShift_cases n shift with ⟨down, h⟩ | ⟨up, h⟩
  · refine .inl ⟨by omega, ?_⟩
    rcases h with h | ⟨h, even⟩
    · exact .inl (scale h)
    · exact .inr ⟨by rw [h], by omega⟩
  · refine .inr ⟨by omega, ?_⟩
    rcases h with h | ⟨h, odd⟩
    · exact .inl (scale h)
    · exact .inr ⟨by rw [h], by omega⟩

/-- Rounding a quotient below a bound does not pass the bound. -/
theorem roundShift_le {n shift bound : Nat} (h : n < bound * 2 ^ shift) :
    roundShift n shift ≤ bound := by
  have quotient : n / 2 ^ shift < bound := (Nat.div_lt_iff_lt_mul (by positivity)).2 h
  rcases roundShift_cases n shift with ⟨down, -⟩ | ⟨up, -⟩ <;> omega

/-! ## Magnitudes -/

/-- The numbers of binary32 in units of binary64, with exponents continued without end. -/
def grid (n : Nat) : Nat := scaled 23 n * 2 ^ gridExponent

/-- The numbers of binary32 increase with their patterns. -/
theorem grid_strictMono : StrictMono grid := fun _ _ h =>
  Nat.mul_lt_mul_of_pos_right (scaled_strictMono 23 h) (by positivity)

/-- The pattern of the least normal number of binary32, by its fields. -/
theorem leastNormal_eq : leastNormal = 897 * 2 ^ 52 := rfl

/-- The pattern of the first power of two beyond binary32, by its fields. -/
theorem limit_eq : limit = 1151 * 2 ^ 52 := rfl

/-- The pattern of infinity, by its fields. -/
theorem infinity_eq : infinity = 2047 * 2 ^ 52 := rfl

/-- The significand of a number, with the leading one that only subnormal numbers lack. -/
def significand (e m : Nat) : Nat := if e = 0 then m else 2 ^ 52 + m

/-- A significand has 53 bits. -/
theorem significand_lt {e m : Nat} (hm : m < 2 ^ 52) : significand e m < 2 ^ 53 := by
  unfold significand
  split <;> omega

/-- The number of a pattern is its significand, shifted by its exponent. -/
theorem scaled_eq_significand {e m : Nat} (hm : m < 2 ^ 52) :
    scaled 52 (2 ^ 52 * e + m) = significand e m * 2 ^ (max e 1 - 1) := by
  rw [scaled_eq hm, significand]
  split
  · subst e
    simp
  · rw [show max e 1 = e by omega]

/-- The number of units is the significand, shifted down and rounded. -/
theorem units_eq {e m : Nat} (hm : m < 2 ^ 52) :
    units (2 ^ 52 * e + m) = roundShift (significand e m) (926 - max e 1) := by
  have exponent : (2 ^ 52 * e + m) / 2 ^ 52 = e := by omega
  have fraction : (2 ^ 52 * e + m) % 2 ^ 52 = m := by omega
  simp only [units, significand, fractionBits, ofExponent, Nat.shiftRight_eq_div_pow,
    Nat.one_shiftLeft, exponent, fraction]

/-- Below the normal range of binary32 a pattern is rounded to a number of units. -/
theorem units_nearest {p : Nat} (hp : p < leastNormal) :
    NearestAt grid (scaled 52 p) (units p) ∧ units p ≤ 2 ^ 23 := by
  obtain ⟨e, m, hm, rfl⟩ := exists_fields 52 p
  have he : e < 897 := by
    rw [leastNormal_eq] at hp
    omega
  -- The shift and the significand are kept as variables, or the arithmetic below would unfold them.
  obtain ⟨shift, hshift⟩ : ∃ shift, shift = 926 - max e 1 := ⟨_, rfl⟩
  obtain ⟨n, hn⟩ : ∃ n, n = significand e m := ⟨_, rfl⟩
  rw [scaled_eq_significand hm, units_eq hm, ← hn, ← hshift]
  -- One unit of binary32 is this many units of the pattern's own exponent.
  have unit : 2 ^ shift * 2 ^ (max e 1 - 1) = 2 ^ gridExponent := by
    have sum : shift + (max e 1 - 1) = gridExponent := by
      unfold gridExponent
      omega
    rw [← Nat.pow_add, sum]
  have small : n < 2 ^ 23 * 2 ^ shift := by
    have thirty : 2 ^ 30 ≤ 2 ^ shift := Nat.pow_le_pow_right (by decide) (by omega)
    have upper : n < 2 ^ 53 := hn ▸ significand_lt hm
    omega
  have quotient : n / 2 ^ shift < 2 ^ 23 := (Nat.div_lt_iff_lt_mul (by positivity)).2 small
  have lower : n * 2 ^ (max e 1 - 1) =
      grid (n / 2 ^ shift) + n % 2 ^ shift * 2 ^ (max e 1 - 1) := by
    rw [grid, scaled_of_le (by omega), ← unit, ← Nat.mul_assoc, ← Nat.add_mul, Nat.div_add_mod']
  have upper : grid (n / 2 ^ shift + 1) =
      grid (n / 2 ^ shift) + 2 ^ shift * 2 ^ (max e 1 - 1) := by
    rw [grid, scaled_of_le (by omega), grid, scaled_of_le (by omega), unit, Nat.succ_mul]
  have near : NearestAt grid (n * 2 ^ (max e 1 - 1)) (roundShift n shift - 2 * 0) :=
    nearestAt_roundShift grid_strictMono (by positivity) rfl lower upper
  exact ⟨near, roundShift_le small⟩

/-- In the normal range of binary32 a pattern is rounded to a multiple of 2^29. -/
theorem roundShift_nearest {p : Nat} (hp : leastNormal ≤ p) :
    NearestAt grid (scaled 52 p) (roundShift p 29 - 896 * 2 ^ 23) ∧
      (roundShift p 29 - 896 * 2 ^ 23) + 896 * 2 ^ 23 = roundShift p 29 := by
  rw [leastNormal_eq] at hp
  have hk : 2 ^ 23 + 896 * 2 ^ 23 ≤ p / 2 ^ 29 := by omega
  -- A normal pattern of binary32 is a pattern of binary64 whose last 29 bits are zero.
  have image : ∀ k, 2 ^ 23 ≤ k → grid k = scaled 52 ((k + 896 * 2 ^ 23) * 2 ^ 29) := by
    intro k hk
    rw [grid, ← scaled_widen, widen, if_neg (by omega)]
  obtain ⟨k, hk⟩ : ∃ k, p / 2 ^ 29 = k + 896 * 2 ^ 23 := ⟨_, (Nat.sub_add_cancel (by omega)).symm⟩
  have exponent : (k + 896 * 2 ^ 23) * 2 ^ 29 / 2 ^ 52 = p / 2 ^ 52 := by omega
  have lower : scaled 52 p = grid k + p % 2 ^ 29 * 2 ^ (p / 2 ^ 52 - 1) := by
    rw [image k (by omega), ← exponent, ← scaled_add (by omega), ← hk, Nat.div_add_mod']
  have upper : grid (k + 1) = grid k + 2 ^ 29 * 2 ^ (p / 2 ^ 52 - 1) := by
    have next : (k + 1 + 896 * 2 ^ 23) * 2 ^ 29 = (k + 896 * 2 ^ 23) * 2 ^ 29 + 2 ^ 29 := by ring
    rw [image k (by omega), image (k + 1) (by omega), next, scaled_add (by omega), exponent]
  have near : NearestAt grid (scaled 52 p) (roundShift p 29 - 2 * (448 * 2 ^ 23)) :=
    nearestAt_roundShift grid_strictMono (by positivity) hk lower upper
  refine ⟨near, Nat.sub_add_cancel ?_⟩
  rcases roundShift_cases p 29 with ⟨down, -⟩ | ⟨up, -⟩ <;> omega

/-- The rounded pattern is the image of the nearest number of binary32, if that is below 2^128. -/
theorem roundMagnitude_nearest {p : Nat} (hp : p < limit - 2 ^ 28) :
    ∃ n < 255 * 2 ^ 23, roundMagnitude p = widen n ∧ NearestAt grid (scaled 52 p) n := by
  rw [limit_eq] at hp
  have finite : ¬ infinity < p := by
    rw [infinity_eq]
    omega
  rw [roundMagnitude, if_neg finite]
  by_cases subnormal : p < leastNormal
  · -- Rounding up may reach the least normal number, which has the same pattern either way.
    obtain ⟨near, le⟩ := units_nearest subnormal
    refine ⟨units p, by omega, ?_, near⟩
    rw [if_pos subnormal, widen]
    split
    · rfl
    · rw [show units p = 2 ^ 23 by omega]
      decide +kernel
  · obtain ⟨near, offset⟩ := roundShift_nearest (Nat.le_of_not_lt subnormal)
    have normal : 897 * 2 ^ 52 ≤ p := Nat.le_of_not_lt subnormal
    have upper : roundShift p 29 < 1151 * 2 ^ 23 := by
      rcases roundShift_cases p 29 with ⟨down, -⟩ | ⟨up, h⟩ <;> omega
    -- What is rounded stays under the limit, for that is the bound on `p`.
    have below : ¬ limit ≤ roundShift p excessBits <<< excessBits := by
      rw [limit_eq, excessBits, Nat.shiftLeft_eq]
      omega
    refine ⟨roundShift p 29 - 896 * 2 ^ 23, by omega, ?_, near⟩
    rw [if_neg subnormal]
    simp only [if_neg below]
    have lower : 897 * 2 ^ 23 ≤ roundShift p 29 := by
      rcases roundShift_cases p 29 with ⟨down, -⟩ | ⟨up, h⟩ <;> omega
    rw [widen, if_neg (by omega), offset, excessBits, Nat.shiftLeft_eq]

/-- From half a unit of binary32 below 2^128 on, a pattern is rounded to infinity. -/
theorem roundMagnitude_overflow {p : Nat} (hp : limit - 2 ^ 28 ≤ p) (finite : p ≤ infinity) :
    roundMagnitude p = infinity := by
  rw [limit_eq] at hp
  have normal : ¬ p < leastNormal := by
    rw [leastNormal_eq]
    omega
  have above : limit ≤ roundShift p excessBits <<< excessBits := by
    rw [limit_eq, excessBits, Nat.shiftLeft_eq]
    rcases roundShift_cases p 29 with ⟨down, h⟩ | ⟨up, h⟩ <;> omega
  rw [roundMagnitude, if_neg (Nat.not_lt.2 finite), if_neg normal]
  exact if_pos above

/-! ## What is kept, and what is not a number -/

/-- Widening keeps the order of patterns. -/
theorem widen_strictMono : StrictMono widen := by
  intro m n h
  apply (scaled_strictMono 52).lt_iff_lt.1
  rw [scaled_widen, scaled_widen]
  exact grid_strictMono h

/-- The greatest number of binary32 is one unit of it below 2^128. -/
theorem widen_lt {n : Nat} (hn : n < 255 * 2 ^ 23) : widen n < limit - 2 ^ 28 :=
  (widen_strictMono.monotone (Nat.le_sub_one_of_lt hn)).trans_lt (by decide +kernel)

/-- The number at distance zero is the nearest. -/
theorem NearestAt.eq {n m : Nat} (h : NearestAt grid (grid n) m) : m = n := by
  have near := h.le n
  apply grid_strictMono.injective
  omega

/-- A number of binary32 is rounded to itself. -/
theorem roundMagnitude_widen {n : Nat} (hn : n < 255 * 2 ^ 23) :
    roundMagnitude (widen n) = widen n := by
  obtain ⟨m, -, rounded, near⟩ := roundMagnitude_nearest (widen_lt hn)
  rw [scaled_widen, ← grid] at near
  rw [rounded, near.eq]

/-- Infinity is rounded to itself. -/
theorem roundMagnitude_infinity : roundMagnitude infinity = infinity :=
  roundMagnitude_overflow (by decide +kernel) (Nat.le_refl _)

/-- Only the low part of a number matters for a bit in it. -/
theorem mul_add_or {a k b c : Nat} (hb : b < 2 ^ k) (hc : c < 2 ^ k) :
    a * 2 ^ k + b ||| c = a * 2 ^ k + (b ||| c) := by
  rw [← Nat.shiftLeft_eq, Nat.shiftLeft_add_eq_or_of_lt hb, Nat.or_assoc,
    ← Nat.shiftLeft_add_eq_or_of_lt (Nat.or_lt_two_pow hb hc)]

/-- The quiet pattern keeps the upper bits, sets the quiet bit and clears the others. -/
theorem quiet_eq (p : Nat) : quiet p = (p / 2 ^ 29 ||| 2 ^ 22) * 2 ^ 29 := by
  rw [quiet, Nat.shiftLeft_eq, Nat.shiftRight_eq_div_pow]
  rfl

/-- A quiet pattern has a fraction that fits binary32 and is not zero. -/
theorem roundMagnitude_nan {p : Nat} (nan : infinity < p) (hp : p < 2 ^ 63) :
    ∃ n, 0 < n ∧ n < 2 ^ 23 ∧ roundMagnitude p = infinity + n * 2 ^ 29 := by
  have high : p % 2 ^ 52 / 2 ^ 29 < 2 ^ 23 := by omega
  have parts : p / 2 ^ 29 = 2047 * 2 ^ 23 + p % 2 ^ 52 / 2 ^ 29 := by
    rw [infinity_eq] at nan
    omega
  have lower : 2 ^ 22 ≤ p % 2 ^ 52 / 2 ^ 29 ||| 2 ^ 22 := Nat.right_le_or
  refine ⟨p % 2 ^ 52 / 2 ^ 29 ||| 2 ^ 22, by omega, Nat.or_lt_two_pow high (by decide), ?_⟩
  rw [roundMagnitude, if_pos nan, quiet_eq, parts, mul_add_or high (by decide), infinity_eq]
  ring

/-- A rounded pattern without its sign leaves the sign bit free. -/
theorem roundMagnitude_lt {p : Nat} (hp : p < 2 ^ 63) : roundMagnitude p < 2 ^ 63 := by
  rcases Nat.lt_or_ge infinity p with nan | finite
  · obtain ⟨n, -, hn, rounded⟩ := roundMagnitude_nan nan hp
    rw [rounded, infinity_eq]
    omega
  · rcases Nat.lt_or_ge p (limit - 2 ^ 28) with small | large
    · obtain ⟨n, hn, rounded, -⟩ := roundMagnitude_nearest small
      rw [rounded]
      exact (widen_lt hn).trans (by decide +kernel)
    · rw [roundMagnitude_overflow large finite]
      decide +kernel

end Single

end SsaGraph
