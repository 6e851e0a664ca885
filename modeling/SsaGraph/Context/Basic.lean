import SsaGraph.Graph.Check
import SsaGraph.Graph.Edit
import SsaGraph.Layout
import SsaGraph.Type.Identified

/-!
# Contexts

A context owns a type table, a use-def graph, the layout of its functions, the pool of its
constants, and the registry of its functions. It answers questions about its values and rejects, or
takes as a fault, those of other contexts.
-/

namespace SsaGraph

/-- A context with everything it owns. -/
structure Context where
  /-- The number that the handles of the context carry. -/
  id : ContextId
  /-- The types. -/
  types : TypeTable
  /-- The values and their uses. -/
  graph : Graph
  /-- The order of blocks and instructions. -/
  layout : Layout
  /-- The constants made so far, by type and content. One pool stands for what may be kept as one
  pool for each sort of constant: the content tells the sort, so no two of them share a key. -/
  pool : Keyed (Ty × Constant) Value
  /-- The functions in creation order. -/
  functions : List Func
  /-- The functions by name. -/
  names : Keyed String Func

namespace Context

/-- A new context. -/
def initial (id : ContextId) : Context :=
  { id, types := .initial id, graph := .initial id, layout := {}, pool := {}, functions := [],
    names := {} }

/-- Carries out a request on the type table. -/
def onTypes {α : Type} (m : Run TypeTable α) : Run Context α :=
  Run.on (·.types) (fun c types => { c with types }) m

/-- Carries out a request on the graph. -/
def onGraph {α : Type} (m : Run Graph α) : Run Context α :=
  Run.on (·.graph) (fun c graph => { c with graph }) m

/-- Carries out a request on the layout. -/
def onLayout {α : Type} (m : Run Layout α) : Run Context α :=
  Run.on (·.layout) (fun c layout => { c with layout }) m

/-! ## Values -/

/-- Rejects a value of another context; a value of this one must be alive. -/
def check (c : Context) (v : Value) : Except Failure Unit := c.graph.check v

/-- Checks values in order. -/
def checkAll (c : Context) (vs : List Value) : Except Failure Unit := vs.forM c.check

/-- The data of a value, which must be alive and of this context. -/
def valueData (c : Context) (v : Value) : Except Fault ValueData :=
  if v.ctx ≠ c.id then .error (.foreignValue v) else c.graph.value v

/-- The type of a value. -/
def typeOf (c : Context) (v : Value) : Except Fault Ty := return (← c.valueData v).ty

/-- What a value is. -/
def kindOf (c : Context) (v : Value) : Except Fault ValueKind := return (← c.valueData v).kind

/-- The name of a value. -/
def nameOf (c : Context) (v : Value) : Except Fault (Option String) :=
  return (← c.valueData v).name

/-- The uses of a value, the one attached last coming first. -/
def uses (c : Context) (v : Value) : Except Fault (List Use) := do
  let _ ← c.valueData v
  c.graph.uses v

/-- The number of uses of a value. -/
def numUses (c : Context) (v : Value) : Except Fault Nat := return (← c.valueData v).numUses

/-- The edge of a use. -/
def useData (c : Context) (u : Use) : Except Fault Edge := c.graph.edge u

/-- The users of a value, one for each use. -/
def users (c : Context) (v : Value) : Except Fault (List Value) := do
  (← c.uses v).mapM fun u => return (← c.useData u).user

/-- The operand slots of a value. -/
def operandSlots (c : Context) (v : Value) : Except Fault (List Use) :=
  return (← c.valueData v).operands

/-- What the operand slots of a value point to. -/
def operands (c : Context) (v : Value) : Except Fault (List (Option Value)) := do
  (← c.operandSlots v).mapM fun u => return (← c.useData u).target

/-- What an operand slot of an instruction points to. -/
def operand (c : Context) (user : Value) (index : Nat) : Except Failure (Option Value) := do
  c.check user
  let d ← c.valueData user
  unless d.kind.isUser do reject (.notUser user)
  match d.operands[index]? with
  | none => reject (.operandOutOfRange index d.operands.length)
  | some u => return (← c.useData u).target

/-- What an operand slot points to; nothing if the slot is empty or there is no such slot. -/
def operandAt (c : Context) (user : Value) (index : Nat) : Except Fault (Option Value) := do
  let _ ← c.valueData user
  c.graph.operand user index

/-! ## Classes -/

/-- The value belongs to the class. -/
def isa (c : Context) (cls : Class) (v : Value) : Except Fault Bool :=
  return cls.contains (← c.kindOf v)

/-- The value as a handle of the class, if it belongs to it. -/
def narrow? (c : Context) (cls : Class) (v : Value) : Except Fault (Option (Handle cls)) :=
  return if ← c.isa cls v then some ⟨v⟩ else none

/-- The value as a handle of the class, which it must belong to. -/
def narrow (c : Context) (cls : Class) (v : Value) : Except Fault (Handle cls) := do
  match ← c.narrow? cls v with
  | some h => return h
  | none => throw (.classMismatch v cls)

/-- What an instruction does. -/
def operation (c : Context) (i : Instruction) : Except Fault Operation := do
  match ← c.kindOf i.value with
  | .instruction op => return op
  | _ => throw (.notInstruction i)

/-- The type is `i1`. -/
def isBool (c : Context) (v : Value) : Except Fault Bool := return (← c.typeOf v) = c.types.int1

end Context

end SsaGraph
