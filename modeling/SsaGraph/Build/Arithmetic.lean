import SsaGraph.Build.Basic

/-!
# Arithmetic

Factories of binary operators, comparisons and selects.
-/

namespace SsaGraph

namespace Context

/-- Builds a binary operator. -/
def buildBinary (site : Site) (op : Opcode) (lhs rhs : Value) : Run Context (Handle .binary) := do
  if h : op.isBinary then
    let c ← get
    c.checkAll [lhs, rhs]
    let ty ← c.typeOf lhs
    unless ty = (← c.typeOf rhs) do reject (.operandTypesDiffer op)
    if op.isFloatBinary then
      unless ← c.types.isFloatOrFloatVector ty do reject (.floatOperandsRequired op)
    else
      unless ← c.types.isIntOrIntVector ty do reject (.intOperandsRequired op)
    emit site ty (.binary ⟨op, h⟩) [some lhs, some rhs]
  else reject (.notBinary op)

/-- The type of a comparison: `i1`, or the vector of `i1` with as many lanes as the operands. -/
def boolLike (ty : Ty) : Run Context Ty := do
  let t := (← get).types
  match (← t.shape ty).2 with
  | some lanes => onTypes (TypeTable.vectorType t.int1 lanes)
  | none => return t.int1

/-- Builds an integer comparison. -/
def buildIcmp (site : Site) (pred : IntPredicate) (lhs rhs : Value) :
    Run Context (Handle .intComparison) := do
  let c ← get
  c.checkAll [lhs, rhs]
  let ty ← c.typeOf lhs
  unless ty = (← c.typeOf rhs) do reject (.operandTypesDiffer .icmp)
  let scalar ← c.types.scalarKind ty
  unless scalar = .integer ∨ scalar = .pointer do reject .intOrPointerOperandsRequired
  c.checkPoint site.point
  emit site (← boolLike ty) (.icmp pred) [some lhs, some rhs]

/-- Builds a floating point comparison. -/
def buildFcmp (site : Site) (pred : FloatPredicate) (lhs rhs : Value) :
    Run Context (Handle .floatComparison) := do
  let c ← get
  c.checkAll [lhs, rhs]
  let ty ← c.typeOf lhs
  unless ty = (← c.typeOf rhs) do reject (.operandTypesDiffer .fcmp)
  unless ← c.types.isFloatOrFloatVector ty do reject (.floatOperandsRequired .fcmp)
  c.checkPoint site.point
  emit site (← boolLike ty) (.fcmp pred) [some lhs, some rhs]

/-- Builds a `select`. -/
def buildSelect (site : Site) (cond ifTrue ifFalse : Value) : Run Context (Handle .select) := do
  let c ← get
  c.checkAll [cond, ifTrue, ifFalse]
  unless ← c.isBool cond do reject .selectCondition
  let ty ← c.typeOf ifTrue
  unless ty = (← c.typeOf ifFalse) do reject (.operandTypesDiffer .select)
  unless (← c.types.kind ty).isFirstClass do reject (.typeNotAllowed .select (c.types.display ty))
  emit site ty .select [some cond, some ifTrue, some ifFalse]

end Context

end SsaGraph
