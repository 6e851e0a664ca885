import SsaGraph.Build.Basic
import SsaGraph.Context.Constants

/-!
# Memory

Factories of allocations, loads, stores and address computations.
-/

namespace SsaGraph

namespace Context

/-- Values of the type can be kept in memory. -/
def isStorable (c : Context) (ty : Ty) : Except Fault Bool := do
  return (← c.types.kind ty).canBeAccessed && (← c.types.isSized ty)

/-- What a pointer points to, and its address space. -/
def pointerParts (c : Context) (op : Opcode) (ptr : Value) : Except Failure (Ty × Nat) := do
  match ← c.types.data (← c.typeOf ptr) with
  | .pointer pointee space => return (pointee, space)
  | _ => reject (.pointerRequired op)

/-- Builds an allocation of one or more values of a type. -/
def buildAlloca (site : Site) (ty : Ty) (size : Option Value) : Run Context (Handle .alloca) := do
  let c ← get
  c.types.check ty
  if let some n := size then
    c.check n
    unless (← c.types.kind (← c.typeOf n)) = .integer do reject .arraySize
  unless ← c.isStorable ty do reject (.badAllocation (c.types.display ty))
  c.checkPoint site.point
  let pointer ← onTypes (TypeTable.pointerType ty 0)
  let size ←
    match size with
    | some n => pure n
    | none => do pure (← constInt c.types.int32 1).value
  emit site pointer (.alloca ty) [some size]

/-- Builds a load. -/
def buildLoad (site : Site) (ptr : Value) : Run Context (Handle .load) := do
  let c ← get
  c.check ptr
  let (ty, _) ← c.pointerParts .load ptr
  unless ← c.isStorable ty do reject (.badLoad (c.types.display ty))
  emit site ty .load [some ptr]

/-- Builds a store. -/
def buildStore (site : Site) (value ptr : Value) : Run Context (Handle .store) := do
  let c ← get
  c.checkAll [value, ptr]
  let (pointee, _) ← c.pointerParts .store ptr
  let ty ← c.typeOf value
  unless pointee = ty do reject (.storeTypes (c.types.display ty) (c.types.display pointee))
  unless (← c.types.kind pointee).canBeAccessed do reject (.badStore (c.types.display pointee))
  emit site c.types.void .store [some value, some ptr]

/-! ## Address computations -/

/-- Rejects an index that is not an integer. -/
def checkIndex (c : Context) (index : Value) : Except Failure Unit := do
  unless (← c.types.kind (← c.typeOf index)) = .integer do reject .indexNotInteger

/-- Rejects indices that are not integers. -/
def checkIndices (c : Context) (indices : List Value) : Except Failure Unit :=
  indices.forM c.checkIndex

/-- The field that an index selects in a struct: the index must be an integer constant. -/
def fieldIndex (c : Context) (index : Value) : Except Failure Nat := do
  match ← c.kindOf index with
  | .constant (.int k) => return k.zext
  | _ => reject .structIndexNotConstant

/-- The type reached from `ty` by stepping into it once for each index. -/
def walk (c : Context) (ty : Ty) : List Value → Except Failure Ty
  | [] => return ty
  | index :: indices => do
    let field ← if (← c.types.kind ty) = .struct then c.fieldIndex index else pure 0
    c.walk (← c.types.typeAtIndex ty field) indices

/-- Builds an address computation. The first index steps over what the pointer points to, and each
of the others into the type reached so far. -/
def buildElementPtr (site : Site) (ptr : Value) (indices : List Value) (inbounds : Bool) :
    Run Context (Handle .elementPtr) := do
  let c ← get
  c.checkAll (ptr :: indices)
  let (source, space) ← c.pointerParts .getelementptr ptr
  if indices.isEmpty then reject .noIndices
  c.checkIndices indices
  let target ← c.walk source indices.tail
  c.checkPoint site.point
  let ty ← onTypes (TypeTable.pointerType target space)
  emit site ty (.elementPtr source inbounds) ((ptr :: indices).map some)

end Context

end SsaGraph
