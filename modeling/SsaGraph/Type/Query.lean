import SsaGraph.Type.Display

/-!
# Questions about types

What a type is made of, its size, and whether values of it have a size at all.
-/

namespace SsaGraph

namespace TypeTable

/-- The element type of a vector, and any other type itself. -/
def scalarType (t : TypeTable) (ty : Ty) : Except Fault Ty := do
  match ← t.data ty with
  | .vector elem _ => return elem
  | _ => return ty

/-- The kind of a type, or of its elements if it is a vector. -/
def scalarKind (t : TypeTable) (ty : Ty) : Except Fault TypeKind := do
  t.kind (← t.scalarType ty)

/-- The scalar type of a type, and its lane count if it is a vector. -/
def shape (t : TypeTable) (ty : Ty) : Except Fault (Ty × Option Nat) := do
  match ← t.data ty with
  | .vector elem lanes => return (elem, some lanes)
  | _ => return (ty, none)

/-- Integers and vectors of integers. -/
def isIntOrIntVector (t : TypeTable) (ty : Ty) : Except Fault Bool :=
  return (← t.scalarKind ty) == .integer

/-- Floating point numbers and vectors of them. -/
def isFloatOrFloatVector (t : TypeTable) (ty : Ty) : Except Fault Bool :=
  return (← t.scalarKind ty).isFloatingPoint

/-- The size in bits of numbers and of vectors of them; other types count as size zero. -/
def primitiveBits (t : TypeTable) (ty : Ty) : Except Fault Nat := do
  match ← t.data ty with
  | .vector elem lanes => return (← t.data elem).scalarBits * lanes
  | d => return d.scalarBits

/-! ## Sized types

Numbers, pointers and vectors have a size. An array has one if its elements do, and a struct if it
has a body and all its fields do. A struct that contains itself through fields and array elements
has none, since the rule would have to be applied without end. The search for a part without a size
therefore keeps the structs on its path, and a struct that it meets again is unsized.

Between two structs on the path there are arrays of arrays only, each with elements that were there
before it. So a path has fewer steps than the square of the length of the table, up to its end. -/

/-- Whether the type is sized, by a search at most `depth` deep; there is no answer if that is not
deep enough. The state holds the structs on the current path. -/
def sizedIn (t : TypeTable) : Nat → Ty → StateT (List Ty) Option Bool
  | 0, _ => failure
  | depth + 1, ty => do
    match ← t.data? ty with
    | .integer _ | .half | .float | .double | .pointer _ _ | .vector _ _ => return true
    | .array elem _ => t.sizedIn depth elem
    | .literal body | .identified _ (some body) =>
      if ty ∈ (← get) then return false
      modify (ty :: ·)
      let sized ← body.fields.allM (t.sizedIn depth)
      modify (·.erase ty)
      return sized
    | _ => return false

/-- A depth that every search stays below. -/
def sizedDepth (t : TypeTable) : Nat := t.size * (t.size + 1)

/-- Values of the type have a size. -/
def isSized (t : TypeTable) (ty : Ty) : Except Fault Bool := do
  let _ ← t.data ty
  return (t.sizedIn t.sizedDepth ty []).any (·.1)

/-! ## Structs -/

/-- The identified struct of a given name. -/
def structByName? (t : TypeTable) (name : String) : Option Ty := t.names.get? name

/-- Two structs have the same fields and packing. Names do not matter, and a struct without a body
is laid out like itself only. -/
def isLayoutIdentical (t : TypeTable) (a b : Ty) : Except Failure Bool := do
  t.check a
  t.check b
  if a = b then return true
  let da ← t.data a
  let db ← t.data b
  unless da.kind = .struct ∧ db.kind = .struct do reject .layoutOfNonStruct
  match da.body?, db.body? with
  | some x, some y => return x = y
  | _, _ => return false

/-- The type reached by stepping into a struct, array or vector. The index matters for structs
only. -/
def typeAtIndex (t : TypeTable) (ty : Ty) (index : Nat) : Except Failure Ty := do
  t.check ty
  match ← t.data ty with
  | .array elem _ => return elem
  | .vector elem _ => return elem
  | .identified _ none => reject .indexIntoBodyless
  | .literal body | .identified _ (some body) =>
    match body.fields[index]? with
    | some field => return field
    | none => reject (.fieldOutOfRange index)
  | _ => reject (.notIndexable (t.display ty))

end TypeTable

end SsaGraph
