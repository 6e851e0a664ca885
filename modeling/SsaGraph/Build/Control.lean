import SsaGraph.Build.Basic

/-!
# Control flow

Factories of the instructions that end a block, and of phis and calls.
-/

namespace SsaGraph

namespace Context

/-- Builds a `ret`, with a value or without. -/
def buildRet (site : Site) (value : Option Value) : Run Context (Handle .ret) := do
  let c ← get
  if let some v := value then
    c.check v
    let ty ← c.typeOf v
    unless (← c.types.kind ty).isFirstClass do reject (.badReturnValue (c.types.display ty))
  emit site c.types.void .ret (value.toList.map some)

/-- Builds a branch. -/
def buildBr (site : Site) (dest : Block) : Run Context (Handle .branch) := do
  let c ← get
  c.check dest.value
  emit site c.types.void .br [some dest.value]

/-- Builds a branch that depends on a condition of type `i1`. -/
def buildCondBr (site : Site) (cond : Value) (ifTrue ifFalse : Block) :
    Run Context (Handle .branch) := do
  let c ← get
  c.checkAll [cond, ifTrue.value, ifFalse.value]
  unless ← c.isBool cond do reject .branchCondition
  emit site c.types.void .br [some cond, some ifTrue.value, some ifFalse.value]

/-- Builds a `switch` without cases. -/
def buildSwitch (site : Site) (cond : Value) (default_ : Block) : Run Context (Handle .switch) := do
  let c ← get
  c.checkAll [cond, default_.value]
  unless (← c.types.kind (← c.typeOf cond)) = .integer do reject .switchCondition
  emit site c.types.void .switch [some cond, some default_.value]

/-- Builds an `unreachable`. -/
def buildUnreachable (site : Site) : Run Context (Handle .unreachable) := do
  emit site (← get).types.void .unreachable []

/-- Builds a `phi` without incoming edges. -/
def buildPhi (site : Site) (ty : Ty) : Run Context (Handle .phi) := do
  let t := (← get).types
  t.check ty
  unless (← t.kind ty).isFirstClass do reject (.typeNotAllowed .phi (t.display ty))
  emit site ty .phi []

/-- The function type behind a callee, which must be a pointer to a function. -/
def calleeType (c : Context) (callee : Value) : Except Failure Ty := do
  match ← c.types.data (← c.typeOf callee) with
  | .pointer pointee _ =>
    if (← c.types.kind pointee) = .function then return pointee else reject .calleeNotPointer
  | _ => reject .calleeNotPointer

/-- Checks the types of arguments from number `index` on against the parameters. -/
def checkArguments (c : Context) : Nat → List Value → List Ty → Except Failure Unit
  | index, arg :: args, param :: params => do
    let ty ← c.typeOf arg
    unless ty = param do
      reject (.argumentType index (c.types.display ty) (c.types.display param))
    c.checkArguments (index + 1) args params
  | _, _, _ => pure ()

/-- Builds a call. A function with variable arguments takes more of them than it has parameters. -/
def buildCall (site : Site) (callee : Value) (args : List Value) : Run Context (Handle .call) := do
  let c ← get
  c.checkAll (callee :: args)
  let fnType ← c.calleeType callee
  match ← c.types.data fnType with
  | .function ret params varArg =>
    unless args.length = params.length ∨ (varArg ∧ params.length < args.length) do
      reject (.argumentCount params.length args.length)
    c.checkArguments 0 args params
    emit site ret (.call fnType .none .c) ((args ++ [callee]).map some)
  | _ => reject .calleeNotFunction

end Context

end SsaGraph
