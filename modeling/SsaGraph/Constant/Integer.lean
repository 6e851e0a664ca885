/-!
# Integer constants

An integer constant of up to 64 bits is stored in a word of 64 bits, in which the bits beyond its
width are zero. Read without sign it is a natural number, and read in two's complement an integer.

Words are masked and extended by shifting them. What becomes of a word that is shifted by its length
or more is not agreed upon: it may be refused, or shifted by the amount modulo 64. So the two
computations that shift are given for any way of shifting (`Shifts`), with the effects that shifting
has there, and are carried out with `Shifts.exact`.
-/

namespace SsaGraph

/-- A way of shifting words, with effects in `m`. -/
structure Shifts (m : Type → Type) where
  /-- Shifts a word to the left; zeros follow. -/
  left (x : BitVec 64) (amount : Nat) : m (BitVec 64)
  /-- Shifts a word to the right; copies of its sign bit follow. -/
  right (x : BitVec 64) (amount : Nat) : m (BitVec 64)

/-- Every shift is carried out, whatever its amount. -/
def Shifts.exact : Shifts Id where
  left x amount := x <<< amount
  right x amount := x.sshiftRight amount

namespace IntConstant

/-- The word in which the bits of a given width are set. -/
def maskBy {m : Type → Type} [Monad m] (shifts : Shifts m) (width : Nat) : m (BitVec 64) := do
  if 64 ≤ width then return BitVec.allOnes 64
  return (← shifts.left 1 width) - 1

/-- The word in which the bits of a given width are set. -/
def mask (width : Nat) : BitVec 64 := Id.run (maskBy .exact width)

end IntConstant

/-- An integer constant of `width` bits. -/
structure IntConstant where
  /-- The width of the type. -/
  width : Nat
  /-- The pattern, without sign. -/
  word : BitVec 64
  /-- The bits beyond the width are zero. -/
  masked : word &&& IntConstant.mask width = word
deriving DecidableEq

namespace IntConstant

/-- The constant of a given width that agrees with `x` on the low bits. -/
def ofNat (width x : Nat) : IntConstant where
  width
  word := BitVec.ofNat 64 x &&& mask width
  masked := by rw [BitVec.and_assoc, BitVec.and_self]

/-- The value without sign. -/
def zext (c : IntConstant) : Nat := c.word.toNat

/-- The value in two's complement: the pattern is shifted until its sign bit is that of the word,
and back. -/
def sextBy {m : Type → Type} [Monad m] (shifts : Shifts m) (c : IntConstant) : m Int := do
  let amount := 64 - c.width
  let high ← shifts.left c.word amount
  return (← shifts.right high amount).toInt

/-- The value in two's complement. -/
def sext (c : IntConstant) : Int := Id.run (c.sextBy .exact)

end IntConstant

end SsaGraph
