import SsaGraph.Nest

/-!
# Layout

The order of basic blocks in functions and of instructions in basic blocks. Each function has a
list of blocks and each block a list of instructions. A block or instruction that is in no list is
detached. A block keeps its instructions when it is taken out of its function.
-/

namespace SsaGraph

/-- The order of blocks and instructions. -/
structure Layout where
  /-- The blocks of each function. -/
  bodies : Nest Func Block := {}
  /-- The instructions of each block. -/
  contents : Nest Block Instruction := {}

namespace Layout

/-! ## Looking up -/

/-- The blocks of a function in order. -/
def blocks (l : Layout) (f : Func) : List Block := l.bodies.members f

/-- The instructions of a block in order. -/
def instructions (l : Layout) (b : Block) : List Instruction := l.contents.members b

/-- The block that holds an instruction. -/
def parentBlock? (l : Layout) (i : Instruction) : Option Block := l.contents.owner? i

/-- The function that holds a block. -/
def parentFunction? (l : Layout) (b : Block) : Option Func := l.bodies.owner? b

/-- The instruction after a given one in the same block. -/
def nextInstruction? (l : Layout) (i : Instruction) : Option Instruction := l.contents.next? i

/-- The instruction before a given one in the same block. -/
def prevInstruction? (l : Layout) (i : Instruction) : Option Instruction := l.contents.prev? i

/-- The block after a given one in the same function. -/
def nextBlock? (l : Layout) (b : Block) : Option Block := l.bodies.next? b

/-! ## Changing instruction lists -/

/-- What goes wrong with the instructions of blocks. -/
def contentFaults : NestFaults Block Instruction :=
  ⟨.blockWithoutList, .instructionListed, .instructionDetached⟩

/-- Carries out a request on the instructions of blocks. -/
def onContents {α : Type} (m : Run (Nest Block Instruction) α) : Run Layout α :=
  Run.on (·.contents) (fun l contents => { l with contents }) m

/-- Gives a block an empty list. -/
def addBlock (l : Layout) (b : Block) : Layout := { l with contents := l.contents.add b }

/-- Forgets the list of a block. -/
def dropBlock (l : Layout) (b : Block) : Layout := { l with contents := l.contents.drop b }

/-- Puts a detached instruction at the end of a block. -/
def appendInstruction (b : Block) (i : Instruction) : Run Layout Unit :=
  onContents (Nest.append contentFaults b i)

/-- Puts a detached instruction immediately before another. -/
def insertInstruction (anchor i : Instruction) : Run Layout Unit :=
  onContents (Nest.insert contentFaults anchor i)

/-- Takes an instruction out of its block, and returns the block. -/
def removeInstruction (i : Instruction) : Run Layout (Option Block) :=
  onContents (Nest.remove contentFaults i)

/-! ## Changing block lists -/

/-- What goes wrong with the blocks of functions. -/
def bodyFaults : NestFaults Func Block := ⟨.functionWithoutList, .blockListed, .blockDetached⟩

/-- Carries out a request on the blocks of functions. -/
def onBodies {α : Type} (m : Run (Nest Func Block) α) : Run Layout α :=
  Run.on (·.bodies) (fun l bodies => { l with bodies }) m

/-- Gives a function an empty list. -/
def addFunction (l : Layout) (f : Func) : Layout := { l with bodies := l.bodies.add f }

/-- Forgets the list of a function. -/
def dropFunction (l : Layout) (f : Func) : Layout := { l with bodies := l.bodies.drop f }

/-- Puts a detached block at the end of a function. -/
def appendBlock (f : Func) (b : Block) : Run Layout Unit := onBodies (Nest.append bodyFaults f b)

/-- Puts a detached block immediately before another. -/
def insertBlock (anchor b : Block) : Run Layout Unit := onBodies (Nest.insert bodyFaults anchor b)

/-- Takes a block out of its function, and returns the function. -/
def removeBlock (b : Block) : Run Layout (Option Func) := onBodies (Nest.remove bodyFaults b)

end Layout

end SsaGraph
