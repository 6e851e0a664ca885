import SsaGraph.Build.Basic

/-!
# Casts

Which casts between two types are valid. Apart from bit casts, both types must have the same number
of lanes; sizes are those of the whole type.
-/

namespace SsaGraph

/-- What the validity of a cast depends on, for one of its types. -/
structure CastSide where
  /-- The kind of the type. -/
  kind : TypeKind
  /-- The kind of the type's elements if it is a vector, and of the type itself if not. -/
  scalar : TypeKind
  /-- The lane count of a vector. -/
  lanes : Option Nat
  /-- The size in bits; zero for pointers and for types that are not numbers or vectors. -/
  bits : Nat
  /-- The address space of a pointer or of the elements of a vector of pointers. -/
  space : Option Nat
deriving DecidableEq

namespace CastSide

/-- A bit cast goes between pointers, or vectors of pointers, of one address space and lane count,
or between other register types of the same size. -/
def bitcast (a b : CastSide) : Bool :=
  if a.scalar = .pointer ∨ b.scalar = .pointer then
    a.scalar = .pointer && b.scalar = .pointer && a.lanes = b.lanes && a.space = b.space
  else a.kind.isSingleValue && b.kind.isSingleValue && a.bits = b.bits

/-- The cast `op` from `a` to `b` is valid. -/
def valid (op : Opcode) (a b : CastSide) : Bool :=
  match op with
  | .trunc => a.lanes = b.lanes && ints && b.bits < a.bits
  | .zext | .sext => a.lanes = b.lanes && ints && a.bits < b.bits
  | .fptoui | .fptosi => a.lanes = b.lanes && a.scalar.isFloatingPoint && b.scalar = .integer
  | .uitofp | .sitofp => a.lanes = b.lanes && a.scalar = .integer && b.scalar.isFloatingPoint
  | .fptrunc => a.lanes = b.lanes && floats && b.bits < a.bits
  | .fpext => a.lanes = b.lanes && floats && a.bits < b.bits
  | .ptrtoint => a.lanes = b.lanes && a.scalar = .pointer && b.scalar = .integer
  | .inttoptr => a.lanes = b.lanes && a.scalar = .integer && b.scalar = .pointer
  | .bitcast => bitcast a b
  | _ => false
where
  /-- Both are integers. -/
  ints : Bool := a.scalar = .integer && b.scalar = .integer
  /-- Both are floating point numbers. -/
  floats : Bool := a.scalar.isFloatingPoint && b.scalar.isFloatingPoint

end CastSide

/-- A type as a side of a cast. -/
def TypeTable.castSide (t : TypeTable) (ty : Ty) : Except Fault CastSide := do
  let (elem, lanes) ← t.shape ty
  let scalar ← t.data elem
  return {
    kind := ← t.kind ty
    scalar := scalar.kind
    lanes
    bits := ← t.primitiveBits ty
    space := scalar.addressSpace? }

/-- The cast `op` from the type `a` to the type `b` is valid. -/
def TypeTable.isValidCast (t : TypeTable) (op : Opcode) (a b : Ty) : Except Fault Bool :=
  return CastSide.valid op (← t.castSide a) (← t.castSide b)

namespace Context

/-- Builds a cast. -/
def buildCast (site : Site) (op : Opcode) (value : Value) (ty : Ty) :
    Run Context (Handle .cast) := do
  if h : op.isCast then
    let c ← get
    c.check value
    c.types.check ty
    let source ← c.typeOf value
    unless ← c.types.isValidCast op source ty do
      reject (.badCast op (c.types.display source) (c.types.display ty))
    emit site ty (.cast ⟨op, h⟩) [some value]
  else reject (.notCast op)

end Context

end SsaGraph
