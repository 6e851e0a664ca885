import SsaGraph.Context.Basic

/-!
# Erasing values

An instruction can be erased when it has no uses. A block is erased with its instructions, and a
function with its blocks and arguments; the operands of the instructions are emptied first, so that
what is erased together may use each other. Constants and single arguments are not erased.
-/

namespace SsaGraph

namespace Context

/-- Erases an instruction. -/
def eraseInstruction (i : Instruction) : Run Context Unit := do
  let c ← get
  c.check i.value
  c.graph.ensureUnused i.value
  discard <| onLayout (Layout.removeInstruction i)
  onGraph (Graph.removeValue i.value)

/-- Empties the operands of the instructions of a block. -/
def releaseBlock (b : Block) : Run Context Unit := do
  let is := (← get).layout.instructions b
  is.forM fun i => onGraph (Graph.dropAllReferences i.value)

/-- Erases a block with its instructions. -/
def eraseBlock (b : Block) : Run Context Unit := do
  (← get).check b.value
  let is := (← get).layout.instructions b
  releaseBlock b
  (← get).graph.ensureUnused b.value
  is.forM eraseInstruction
  discard <| onLayout (Layout.removeBlock b)
  onLayout (modify (·.dropBlock b))
  onGraph (Graph.removeValue b.value)

/-- The function type and the arguments of a function. -/
def functionData (c : Context) (f : Func) : Except Fault (Ty × List Argument) := do
  match ← c.kindOf f.value with
  | .function ty args => return (ty, args)
  | _ => throw .noFunctionData

/-- Erases a function with its blocks and arguments. -/
def eraseFunction (f : Func) : Run Context Unit := do
  (← get).check f.value
  let bs := (← get).layout.blocks f
  bs.forM releaseBlock
  (← get).graph.ensureUnused f.value
  bs.forM eraseBlock
  let (_, args) ← (← get).functionData f
  args.forM fun a => onGraph (Graph.removeValue a.value)
  if let some name ← (← get).nameOf f.value then
    modify fun c => { c with names := c.names.erase name }
  modify fun c =>
    { c with functions := c.functions.filter (· ≠ f), layout := c.layout.dropFunction f }
  onGraph (Graph.removeValue f.value)

/-- Erases a value of any kind. -/
def eraseValue (v : Value) : Run Context Unit := do
  let c ← get
  c.check v
  match ← c.kindOf v with
  | .instruction _ => eraseInstruction ⟨v⟩
  | .block => eraseBlock ⟨v⟩
  | .function _ _ => eraseFunction ⟨v⟩
  | .argument _ _ => reject .eraseArgument
  | .constant _ => reject (.eraseConstant v)

end Context

end SsaGraph
