import SsaGraph.Context.Erase
import SsaGraph.Context.Operands

/-!
# Inspecting values

Questions about values of particular classes. They take typed handles and trust them only so far as
they must: a question that needs data of the class ends in a fault when the value has none, and a
question about operands just reads the operand slots.
-/

namespace SsaGraph

namespace Context

/-! ## Instructions -/

/-- The opcode of an instruction. -/
def opcode (c : Context) (i : Instruction) : Except Fault Opcode := return (← c.operation i).opcode

/-- The value that a `ret` returns. -/
def returnValue (c : Context) (i : Handle .ret) : Except Fault (Option Value) :=
  c.operandAt i.value 0

/-- The branch has a condition: it then has three operands. -/
def isConditional (c : Context) (i : Handle .branch) : Except Fault Bool :=
  return (← c.operandSlots i.value).length = 3

/-- The condition of a branch. -/
def branchCondition (c : Context) (i : Handle .branch) : Except Fault (Option Value) := do
  if ← c.isConditional i then c.operandAt i.value 0 else return none

/-- The blocks that a branch leads to, the one for a true condition first. -/
def successors (c : Context) (i : Handle .branch) : Except Fault (List Block) := do
  let skipped := if ← c.isConditional i then 1 else 0
  (((← c.operands i.value).drop skipped).filterMap fun v => v).mapM (c.narrow .block)

/-- An operand as a handle of the class it must belong to. -/
def operandAs (c : Context) (cls : Class) (user : Value) (index : Nat) :
    Except Fault (Option (Handle cls)) := do
  (← c.operandAt user index).mapM (c.narrow cls)

/-- The number of operands of a value after the first `skipped`. -/
def operandsAfter (c : Context) (v : Value) (skipped : Nat) : Except Fault Nat := do
  let count := (← c.operandSlots v).length
  if count < skipped then throw .tooFewOperands else return count - skipped

/-! ## Switches and phis -/

/-- Where a switch goes if no case applies. -/
def defaultDest (c : Context) (i : Handle .switch) : Except Fault (Option Block) :=
  c.operandAs .block i.value 1

/-- The number of cases of a switch: its operands are the condition, the default destination, and
two for each case. -/
def numCases (c : Context) (i : Handle .switch) : Except Fault Nat :=
  return (← c.operandsAfter i.value 2) / 2

/-- The value and destination of a case. -/
def case? (c : Context) (i : Handle .switch) (index : Nat) :
    Except Fault (Option (Handle .intConstant × Block)) := do
  if (← c.numCases i) ≤ index then return none
  match ← c.operandAt i.value (2 + index * 2) with
  | none => return none
  | some value =>
    match ← c.operandAt i.value (3 + index * 2) with
    | none => return none
    | some dest => return some (← c.narrow .intConstant value, ← c.narrow .block dest)

/-- The number of incoming edges of a phi: it has two operands for each. -/
def numIncoming (c : Context) (i : Handle .phi) : Except Fault Nat :=
  return (← c.operandSlots i.value).length / 2

/-- The value of an incoming edge. -/
def incomingValue (c : Context) (i : Handle .phi) (index : Nat) : Except Fault (Option Value) := do
  if index < (← c.numIncoming i) then c.operandAt i.value (index * 2) else return none

/-- The block of an incoming edge. -/
def incomingBlock (c : Context) (i : Handle .phi) (index : Nat) : Except Fault (Option Block) := do
  if index < (← c.numIncoming i) then c.operandAs .block i.value (index * 2 + 1) else return none

/-! ## Memory and comparisons -/

/-- The type that an allocation is for. -/
def allocatedType (c : Context) (i : Handle .alloca) : Except Fault Ty := do
  match ← c.operation i.toInstruction with
  | .alloca ty => return ty
  | _ => throw .noAllocatedType

/-- The type that the pointer of an address computation points to. -/
def sourceType (c : Context) (i : Handle .elementPtr) : Except Fault Ty := do
  match ← c.operation i.toInstruction with
  | .elementPtr source _ => return source
  | _ => throw .noSourceType

/-- The address computation stays within the object pointed to. -/
def isInbounds (c : Context) (i : Handle .elementPtr) : Except Fault Bool := do
  match ← c.operation i.toInstruction with
  | .elementPtr _ inbounds => return inbounds
  | _ => return false

/-- The number of indices of an address computation. -/
def numIndices (c : Context) (i : Handle .elementPtr) : Except Fault Nat :=
  c.operandsAfter i.value 1

/-- The predicate of an integer comparison. -/
def intPredicate (c : Context) (i : Handle .intComparison) : Except Fault IntPredicate := do
  match ← c.operation i.toInstruction with
  | .icmp pred => return pred
  | _ => throw .noIntPredicate

/-- The predicate of a floating point comparison. -/
def floatPredicate (c : Context) (i : Handle .floatComparison) : Except Fault FloatPredicate := do
  match ← c.operation i.toInstruction with
  | .fcmp pred => return pred
  | _ => throw .noFloatPredicate

/-! ## Calls: the operands are the arguments and then the callee -/

/-- The number of arguments of a call. -/
def numArgs (c : Context) (i : Handle .call) : Except Fault Nat := c.operandsAfter i.value 1

/-- An argument of a call. -/
def callArg (c : Context) (i : Handle .call) (index : Nat) : Except Fault (Option Value) := do
  if index < (← c.numArgs i) then c.operandAt i.value index else return none

/-- The value that is called. -/
def calledValue (c : Context) (i : Handle .call) : Except Fault (Option Value) := do
  c.operandAt i.value (← c.numArgs i)

/-- The function that is called, unless the callee is computed. -/
def calledFunction (c : Context) (i : Handle .call) : Except Fault (Option Func) := do
  match ← c.calledValue i with
  | some v => c.narrow? .function v
  | none => return none

/-- The function type of the callee. -/
def calleeFunctionType (c : Context) (i : Handle .call) : Except Fault Ty := do
  match ← c.operation i.toInstruction with
  | .call fnType _ _ => return fnType
  | _ => throw .noCalleeType

/-- The tail call marker of a call. -/
def tailCall (c : Context) (i : Handle .call) : Except Fault TailCall := do
  match ← c.operation i.toInstruction with
  | .call _ marker _ => return marker
  | _ => throw .noTailMarker

/-- The calling convention of a call. -/
def callingConv (c : Context) (i : Handle .call) : Except Fault CallingConv := do
  match ← c.operation i.toInstruction with
  | .call _ _ conv => return conv
  | _ => throw .noCallingConv

/-! ## Arguments, functions, blocks and constants -/

/-- The function of an argument and the argument's number. -/
def argumentData (c : Context) (a : Argument) : Except Fault (Func × Nat) := do
  match ← c.kindOf a.value with
  | .argument parent index => return (parent, index)
  | _ => throw .noArgumentData

/-- The name of a function. -/
def functionName (c : Context) (f : Func) : Except Fault String :=
  return (← c.nameOf f.value).getD ""

/-- The first block of a function. -/
def entryBlock? (c : Context) (f : Func) : Option Block := (c.layout.blocks f).head?

/-- The function has no body. -/
def isDeclaration (c : Context) (f : Func) : Bool := (c.entryBlock? f).isNone

/-- The first instruction of a block. -/
def front? (c : Context) (b : Block) : Option Instruction := (c.layout.instructions b).head?

/-- The last instruction of a block. -/
def back? (c : Context) (b : Block) : Option Instruction := (c.layout.instructions b).getLast?

/-- The last instruction of a block, if it is a terminator. -/
def terminator (c : Context) (b : Block) : Except Fault (Option (Handle .terminator)) := do
  match c.back? b with
  | some i => c.narrow? .terminator i.value
  | none => return none

/-- The blocks that are in no function, in creation order. -/
def detachedBlocks (c : Context) : List Block :=
  (c.graph.live.filter fun v => (c.graph.value? v).any (·.kind = .block)).map (⟨·⟩)
    |>.filter fun b => (c.layout.parentFunction? b).isNone

/-- An integer constant. -/
def intConstant (c : Context) (k : Handle .intConstant) : Except Fault IntConstant := do
  match ← c.kindOf k.value with
  | .constant (.int k) => return k
  | _ => throw .noIntegerData

/-- The pattern of a floating point constant. -/
def floatBits (c : Context) (k : Handle .floatConstant) : Except Fault (BitVec 64) := do
  match ← c.kindOf k.value with
  | .constant (.float bits) => return bits
  | _ => throw .noFloatData

end Context

end SsaGraph
