/-!
# Handles

Types, values and uses are referred to by handles. A type or value handle carries the number of the
context that made it, so that a handle passed to another context is recognised. A use handle
carries the generation of its slot instead, so that a handle kept past the removal of its use is
recognised. A typed handle is a value handle together with the class it is claimed to belong to;
nothing in the handle itself says that the claim is true.

Contexts, types and values are numbered by natural numbers. Where the numbers are words of 32 bits,
a program agrees as long as it makes fewer than 2^32 of each.

The `text` functions give the forms in which handles appear in messages.
-/

namespace SsaGraph

/-- The number of a context, from 1. -/
structure ContextId where
  /-- The number itself. -/
  num : Nat
deriving DecidableEq

/-- A handle of a type: an index into the type table of a context. -/
structure Ty where
  /-- The context that owns the type. -/
  ctx : ContextId
  /-- The index in that context's table, in creation order. -/
  index : Nat
deriving DecidableEq

/-- A handle of a value: a position in the value table of a context. -/
structure Value where
  /-- The context that owns the value. -/
  ctx : ContextId
  /-- The position in that context's table, in creation order. -/
  index : Nat
deriving DecidableEq

/-- A handle of a use edge: a slot of the use arena and the generation of that slot. -/
structure Use where
  /-- The slot. -/
  index : Nat
  /-- The generation of the slot when the edge was made. -/
  gen : Nat
deriving DecidableEq

/-- The number by which a value is known: values are counted from 1 in creation order. -/
def Value.id (v : Value) : Nat := v.index + 1

/-- The form of a context number in messages. -/
def ContextId.text (c : ContextId) : String :=
  s!"ContextId({c.num})"

/-- The form of a value handle in messages. -/
def Value.text (v : Value) : String :=
  s!"Value \x7b ctx: {v.ctx.text}, id: {v.id} \x7d"

/-- The form of a use handle in messages. -/
def Use.text (u : Use) : String :=
  s!"Use \x7b index: {u.index}, gen: {u.gen} \x7d"

/-! ## Classes and typed handles -/

/-- The classes of values that a handle can be narrowed to. -/
inductive Class where
  | value
  | user
  | constant
  | intConstant
  | floatConstant
  | nullConstant
  | undef
  | argument
  | block
  | function
  | instruction
  | terminator
  | binary
  | cast
  | comparison
  | intComparison
  | floatComparison
  | ret
  | branch
  | switch
  | unreachable
  | alloca
  | load
  | store
  | elementPtr
  | phi
  | call
  | select
deriving DecidableEq

namespace Class

/-- All classes, the general ones before their special cases. -/
def all : List Class :=
  [value, user, constant, intConstant, floatConstant, nullConstant, undef, argument, block,
    function, instruction, terminator, binary, cast, comparison, intComparison, floatComparison,
    ret, branch, switch, unreachable, alloca, load, store, elementPtr, phi, call, select]

/-- The name of a class in messages. -/
def name : Class → String
  | value => "Value"
  | user => "User"
  | constant => "Constant"
  | intConstant => "ConstantInt"
  | floatConstant => "ConstantFp"
  | nullConstant => "ConstantPointerNull"
  | undef => "UndefValue"
  | argument => "Argument"
  | block => "BasicBlock"
  | function => "Function"
  | instruction => "Instruction"
  | terminator => "TerminatorInst"
  | binary => "BinaryOperator"
  | cast => "CastInst"
  | comparison => "CmpInst"
  | intComparison => "ICmpInst"
  | floatComparison => "FCmpInst"
  | ret => "ReturnInst"
  | branch => "BranchInst"
  | switch => "SwitchInst"
  | unreachable => "UnreachableInst"
  | alloca => "AllocaInst"
  | load => "LoadInst"
  | store => "StoreInst"
  | elementPtr => "GetElementPtrInst"
  | phi => "PhiNode"
  | call => "CallInst"
  | select => "SelectInst"

/-- The class of a given name. -/
def ofName? (s : String) : Option Class := all.find? (·.name == s)

/-- The qualified name of a class in the message of a failed narrowing. -/
def path (c : Class) : String := "llir::ir::classes::" ++ c.name

end Class

/-- A value handle claimed to be of the class `c`. -/
@[ext] structure Handle (c : Class) where
  /-- The underlying value. -/
  value : Value
deriving DecidableEq

/-- The form of a typed handle in messages: the class around the value. -/
def Handle.text {c : Class} (h : Handle c) : String :=
  s!"{c.name}({h.value.text})"

/-- Handles of functions. -/
abbrev Func := Handle .function

/-- Handles of basic blocks. -/
abbrev Block := Handle .block

/-- Handles of instructions. -/
abbrev Instruction := Handle .instruction

/-- Handles of function arguments. -/
abbrev Argument := Handle .argument

/-- An instruction handle of any narrower class, seen as an instruction handle. -/
def Handle.toInstruction {c : Class} (h : Handle c) : Instruction := ⟨h.value⟩

end SsaGraph
