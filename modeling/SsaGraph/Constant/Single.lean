/-!
# Rounding to single precision

A floating point constant is stored as the bit pattern of a binary64 number, also when its type is
the 32-bit one; it is then rounded so that it is the binary64 image of a binary32 number. The
rounding goes to the nearest such image, and a tie to the one whose significand is even. Numbers of
2^128 and above, and those that round to 2^128, become infinite. A pattern that is not a number
keeps its sign and the part of its payload that binary32 has room for, and becomes quiet.

The rounding is defined on the patterns themselves. Below the sign bit, patterns are ordered like
the numbers they stand for, and a carry out of the significand is a step to the next exponent. In
the normal range of binary32 rounding is therefore rounding the pattern to a multiple of 2^29, the
29 bits being what the binary64 significand has more. Below that range the binary32 numbers are the
multiples of 2^(-149), and the significand is rounded to as many of them.
-/

namespace SsaGraph

namespace Single

/-- The quotient of `n` by two to the power `shift`, rounded to the nearest natural number, a tie to
the even one. -/
def roundShift (n shift : Nat) : Nat :=
  let quotient := n >>> shift
  let unit := 1 <<< shift
  let rest := n % unit
  if unit < 2 * rest ∨ (2 * rest = unit ∧ quotient % 2 = 1) then quotient + 1 else quotient

/-- The number of bits in the fraction of a binary64 pattern. -/
def fractionBits : Nat := 52

/-- How many bits the fraction of a binary64 pattern has more than that of a binary32 pattern. -/
def excessBits : Nat := 29

/-- The pattern of the least number with a given exponent field. -/
def ofExponent (field : Nat) : Nat := field <<< fractionBits

/-- The pattern of infinity. -/
def infinity : Nat := ofExponent 2047

/-- The pattern of 2^128, the first power of two beyond binary32. -/
def limit : Nat := ofExponent (1023 + 128)

/-- The pattern of 2^(-126), the least normal number of binary32. -/
def leastNormal : Nat := ofExponent (1023 - 126)

/-- The pattern of `n` units of 2^(-149), for `n` below 2^53. -/
def ofUnits (n : Nat) : Nat :=
  if n = 0 then 0
  else ofExponent (1023 - 149 + n.log2) + (n <<< (fractionBits - n.log2) - ofExponent 1)

/-- How many units of 2^(-149) a pattern below the normal range of binary32 comes nearest to. -/
def units (magnitude : Nat) : Nat :=
  let exponent := magnitude >>> fractionBits
  let fraction := magnitude % ofExponent 1
  let significand := if exponent = 0 then fraction else ofExponent 1 + fraction
  roundShift significand (1074 - 149 + 1 - max exponent 1)

/-- Makes a pattern that is not a number quiet, and drops the payload bits that binary32 lacks. -/
def quiet (magnitude : Nat) : Nat :=
  (magnitude >>> excessBits ||| 1 <<< (fractionBits - excessBits - 1)) <<< excessBits

/-- Rounds a pattern without its sign. -/
def roundMagnitude (magnitude : Nat) : Nat :=
  if infinity < magnitude then quiet magnitude
  else if magnitude < leastNormal then ofUnits (units magnitude)
  else
    let rounded := roundShift magnitude excessBits <<< excessBits
    if limit ≤ rounded then infinity else rounded

/-- Rounds a binary64 pattern to the image of a binary32 number. -/
def round (bits : BitVec 64) : BitVec 64 :=
  let signUnit := 1 <<< 63
  BitVec.ofNat 64 (bits.toNat / signUnit * signUnit + roundMagnitude (bits.toNat % signUnit))

end Single

end SsaGraph
