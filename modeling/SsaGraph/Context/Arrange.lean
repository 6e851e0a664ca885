import SsaGraph.Context.Basic

/-!
# Arranging blocks and instructions

The requests that place existing blocks in functions and existing instructions in blocks.
-/

namespace SsaGraph

/-- Where a new instruction is placed. -/
inductive InsertPoint where
  /-- In no block. -/
  | detached
  /-- Immediately before an instruction. -/
  | before (i : Instruction)
  /-- At the end of a block. -/
  | atEnd (b : Block)
deriving DecidableEq

namespace Context

/-! ## Blocks -/

/-- Creates a detached block. -/
def newBlock (name : Option String) : Run Context Block := do
  let v ← onGraph (Graph.newValue (← get).types.label .block name)
  onLayout (modify (·.addBlock ⟨v⟩))
  return ⟨v⟩

/-- Rejects a block that is in a function. -/
def checkDetachedBlock (c : Context) (b : Block) : Except Failure Unit := do
  c.check b.value
  unless (c.layout.parentFunction? b).isNone do reject (.blockAttached b)

/-- Puts a detached block at the end of a function. -/
def appendBlock (f : Func) (b : Block) : Run Context Unit := do
  let c ← get
  c.check f.value
  c.checkDetachedBlock b
  onLayout (Layout.appendBlock f b)

/-- Puts a detached block immediately before another. -/
def insertBlock (anchor b : Block) : Run Context Unit := do
  let c ← get
  c.check anchor.value
  c.checkDetachedBlock b
  unless (c.layout.parentFunction? anchor).isSome do reject (.blockDetached anchor)
  onLayout (Layout.insertBlock anchor b)

/-- Takes a block out of its function, and returns the function. -/
def removeBlock (b : Block) : Run Context (Option Func) := do
  (← get).check b.value
  onLayout (Layout.removeBlock b)

/-! ## Instructions -/

/-- Rejects an instruction that is in a block. -/
def checkDetached (c : Context) (i : Instruction) : Except Failure Unit := do
  c.check i.value
  unless (c.layout.parentBlock? i).isNone do reject (.instructionAttached i)

/-- Rejects a point before a detached instruction. -/
def checkPoint (c : Context) : InsertPoint → Except Failure Unit
  | .detached => pure ()
  | .atEnd b => c.check b.value
  | .before i => do
    c.check i.value
    unless (c.layout.parentBlock? i).isSome do reject (.anchorDetached i)

/-- Places a detached instruction. -/
def place (i : Instruction) : InsertPoint → Run Context Unit
  | .detached => pure ()
  | .atEnd b => onLayout (Layout.appendInstruction b i)
  | .before anchor => onLayout (Layout.insertInstruction anchor i)

/-- Takes an instruction out of its block, and returns the block. -/
def removeInstruction (i : Instruction) : Run Context (Option Block) := do
  (← get).check i.value
  onLayout (Layout.removeInstruction i)

/-- Puts a detached instruction immediately before another. -/
def insertInstruction (i anchor : Instruction) : Run Context Unit := do
  let c ← get
  c.checkDetached i
  c.checkPoint (.before anchor)
  place i (.before anchor)

/-- Puts a detached instruction at the end of a block. -/
def appendInstruction (i : Instruction) (b : Block) : Run Context Unit := do
  let c ← get
  c.checkDetached i
  c.check b.value
  place i (.atEnd b)

/-- Moves an instruction immediately before another, perhaps from another block. -/
def moveBefore (i anchor : Instruction) : Run Context Unit := do
  let c ← get
  c.check i.value
  if i = anchor then reject .moveBeforeItself
  c.checkPoint (.before anchor)
  discard <| onLayout (Layout.removeInstruction i)
  place i (.before anchor)

/-- Moves an instruction to the end of a block. -/
def moveToEnd (i : Instruction) (b : Block) : Run Context Unit := do
  let c ← get
  c.check i.value
  c.check b.value
  discard <| onLayout (Layout.removeInstruction i)
  place i (.atEnd b)

end Context

end SsaGraph
