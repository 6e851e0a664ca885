import SsaGraph.Context.Basic

/-!
# Changing operands

The requests that point operand slots elsewhere, and those that add edges to a switch or a phi.
-/

namespace SsaGraph

namespace Context

/-- Points an operand slot to a value, or empties it. -/
def setOperand (user : Value) (index : Nat) (target : Option Value) : Run Context Unit := do
  let c ← get
  c.check user
  c.checkAll target.toList
  onGraph (Graph.setOperand user index target)

/-- Points every use of `old` to `new`, which must have the same type. -/
def replaceAllUses (old new : Value) : Run Context Unit := do
  let c ← get
  c.check old
  c.check new
  onGraph (Graph.replaceAllUses old new)

/-- Empties every use of a value. -/
def dropAllUses (v : Value) : Run Context Unit := do
  (← get).check v
  onGraph (Graph.dropAllUses v)

/-- Empties every operand slot of a value. -/
def dropAllReferences (user : Value) : Run Context Unit := do
  (← get).check user
  onGraph (Graph.dropAllReferences user)

/-- Adds an operand slot that points to a value. -/
def pushOperand (user target : Value) : Run Context Unit := do
  let c ← get
  c.check user
  c.check target
  onGraph (Graph.pushOperand user target)

/-- The condition of a switch. -/
def switchCondition (c : Context) (s : Handle .switch) : Except Fault (Option Value) :=
  c.operandAt s.value 0

/-- The type of the condition of a switch, unless the condition is missing. -/
def switchType (c : Context) (s : Handle .switch) : Except Fault (Option Ty) := do
  (← c.switchCondition s).mapM c.typeOf

/-- Adds a case to a switch; its value must have the type of the condition. -/
def addCase (s : Handle .switch) (value : Handle .intConstant) (dest : Block) :
    Run Context Unit := do
  let c ← get
  c.check value.value
  c.check dest.value
  unless (← c.switchType s) = some (← c.typeOf value.value) do reject .caseType
  pushOperand s.value value.value
  pushOperand s.value dest.value

/-- Adds an incoming edge to a phi; its value must have the type of the phi. -/
def addIncoming (p : Handle .phi) (value : Value) (b : Block) : Run Context Unit := do
  let c ← get
  c.check value
  c.check b.value
  unless (← c.typeOf value) = (← c.typeOf p.value) do reject .incomingType
  pushOperand p.value value
  pushOperand p.value b.value

/-- Replaces what an instruction does. -/
def setOperation (i : Instruction) (op : Operation) : Run Context Unit :=
  onGraph (modify (·.modifyValue i.value ({ · with kind := .instruction op })))

/-- Marks a call as a tail call, or not. -/
def setTailCall (i : Handle .call) (marker : TailCall) : Run Context Unit := do
  match ← (← get).operation i.toInstruction with
  | .call fnType _ conv => setOperation i.toInstruction (.call fnType marker conv)
  | _ => fault .noTailMarker

/-- Sets the calling convention of a call. -/
def setCallingConv (i : Handle .call) (conv : CallingConv) : Run Context Unit := do
  match ← (← get).operation i.toInstruction with
  | .call fnType marker _ => setOperation i.toInstruction (.call fnType marker conv)
  | _ => fault .noCallingConv

end Context

end SsaGraph
