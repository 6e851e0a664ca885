import SsaGraph.Type.Query

/-!
# Requests for types

A request names a description and gets the one type of that description, which is entered into the
table if it is new. The parts are checked first: each must belong to the table and be of a kind
that fits its position.
-/

namespace SsaGraph

/-- The least width of an integer type. -/
def minIntBits : Nat := 1

/-- The greatest width of an integer type, one below 2^24. -/
def maxIntBits : Nat := 16777215

/-- The lane count of a vector is below this bound, which is 2^32. -/
def laneLimit : Nat := 4294967296

namespace TypeTable

/-- The type of a description whose parts have been checked. -/
def request (d : TypeData) : Run TypeTable Ty := modifyGet (·.intern d)

/-- Checks that a part belongs to the table and has a fitting kind. -/
def checkPart (t : TypeTable) (fits : TypeKind → Bool) (err : String → Error) (ty : Ty) :
    Except Failure Unit := do
  t.check ty
  unless fits (← t.kind ty) do reject (err (t.display ty))

/-- Checks parts in order. -/
def checkParts (t : TypeTable) (fits : TypeKind → Bool) (err : String → Error) (tys : List Ty) :
    Except Failure Unit :=
  tys.forM (t.checkPart fits err)

/-- Checks the fields of a struct in order. -/
def checkFields (t : TypeTable) (fields : List Ty) : Except Failure Unit :=
  t.checkParts (·.canBeField) .badField fields

/-- The integer type of a given width. -/
def integerType (bits : Nat) : Run TypeTable Ty := do
  unless minIntBits ≤ bits do reject (.widthTooSmall bits)
  unless bits ≤ maxIntBits do reject (.widthTooLarge bits)
  request (.integer bits)

/-- The function type of given return type and parameters. -/
def functionType (ret : Ty) (params : List Ty) (varArg : Bool) : Run TypeTable Ty := do
  let t ← get
  t.checkPart (·.canBeReturned) .badReturnType ret
  t.checkParts (·.canBeParameter) .badParameterType params
  request (.function ret params varArg)

/-- The pointer type to a given type in a given address space. -/
def pointerType (pointee : Ty) (space : Nat) : Run TypeTable Ty := do
  let t ← get
  t.checkPart (·.canBePointee) .badPointee pointee
  request (.pointer pointee space)

/-- The array type of given element type and length. -/
def arrayType (elem : Ty) (len : Nat) : Run TypeTable Ty := do
  let t ← get
  t.checkPart (·.canBeArrayElement) .badArrayElement elem
  request (.array elem len)

/-- The vector type of given element type and lane count. -/
def vectorType (elem : Ty) (lanes : Nat) : Run TypeTable Ty := do
  let t ← get
  t.check elem
  unless 0 < lanes do reject .noLanes
  t.checkPart (·.canBeLane) .badVectorElement elem
  request (.vector elem lanes)

/-- The literal struct type of given fields. -/
def literalStruct (fields : List Ty) (packed : Bool) : Run TypeTable Ty := do
  let t ← get
  t.checkFields fields
  request (.literal ⟨fields, packed⟩)

/-! ## Vectors derived from vectors -/

/-- The element type, element width and lane count of a vector type. -/
def vectorShape (t : TypeTable) (ty : Ty) : Except Failure (Ty × Nat × Nat) := do
  t.check ty
  match ← t.data ty with
  | .vector elem lanes => return (elem, (← t.data elem).scalarBits, lanes)
  | _ => reject (.notVector (t.display ty))

/-- The vector of integers as wide as the elements of a vector. -/
def vectorInteger (ty : Ty) : Run TypeTable Ty := do
  let (_, bits, lanes) ← (← get).vectorShape ty
  unless bits ≠ 0 do reject .zeroWidthElement
  vectorType (← integerType bits) lanes

/-- The vector of integers twice as wide as the elements of a vector. -/
def vectorExtended (ty : Ty) : Run TypeTable Ty := do
  let (_, bits, lanes) ← (← get).vectorShape ty
  vectorType (← integerType (bits * 2)) lanes

/-- The vector of integers half as wide as the elements of a vector. -/
def vectorTruncated (ty : Ty) : Run TypeTable Ty := do
  let (_, bits, lanes) ← (← get).vectorShape ty
  unless bits % 2 = 0 do reject .oddElementWidth
  vectorType (← integerType (bits / 2)) lanes

/-- The vector with half as many lanes. -/
def vectorHalved (ty : Ty) : Run TypeTable Ty := do
  let (elem, _, lanes) ← (← get).vectorShape ty
  unless lanes % 2 = 0 do reject .oddLaneCount
  vectorType elem (lanes / 2)

/-- The vector with twice as many lanes. -/
def vectorDoubled (ty : Ty) : Run TypeTable Ty := do
  let (elem, _, lanes) ← (← get).vectorShape ty
  unless lanes * 2 < laneLimit do reject .tooManyLanes
  vectorType elem (lanes * 2)

end TypeTable

end SsaGraph
