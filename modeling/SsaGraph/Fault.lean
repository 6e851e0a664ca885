import SsaGraph.Handle

/-!
# Faults

A fault ends the run: it reports a broken promise of the caller (an erased value, a handle of the
wrong class, a value erased while it is used) or of the library's own records. As with errors, a
fault is the cause itself, and its wording is given once.
-/

namespace SsaGraph

/-- The causes for which a run ends. -/
inductive Fault where
  /-- A fault reported by the caller in its own words. -/
  | reported (reason : String)
  -- types
  | foreignType (index : Nat)
  | missingType (index : Nat)
  | notStruct (index : Nat)
  -- values and uses
  | foreignValue (v : Value)
  | erasedValue (v : Value)
  | missingValue (v : Value)
  | missingUse (u : Use)
  | stillUsed (v : Value) (uses : Nat)
  | classMismatch (v : Value) (c : Class)
  -- layout
  | blockWithoutList (b : Block)
  | functionWithoutList (f : Func)
  | instructionListed (i : Instruction) (b : Block)
  | blockListed (b : Block) (f : Func)
  | instructionDetached (i : Instruction)
  | blockDetached (b : Block)
  -- data that a handle of the right class would have
  | notInstruction (i : Instruction)
  | noArgumentData
  | noFunctionData
  | noIntegerData
  | noFloatData
  | noAllocatedType
  | noSourceType
  | noIntPredicate
  | noFloatPredicate
  | noCalleeType
  | noTailMarker
  | noCallingConv
  | noParameters
  /-- Fewer operands than the counted part of the instruction. -/
  | tooFewOperands
  -- use lists that disagree with the operand slots
  | wrongTarget (u : Use) (v : Value)
  | brokenLink (u : Use)
  | ownerErased (u : Use) (v : Value)
  | listLength (v : Value) (listed counted : Nat)
  | slotOwner (index : Nat) (v : Value)
  | useCount (attached listed : Nat)
deriving DecidableEq

/-- The wording of a fault. -/
def Fault.message (f : Fault) : String :=
  match f with
  | .tooFewOperands => "attempt to subtract with overflow"
  | .reported reason => fatal reason
  | .foreignType index => fatal s!"type #{index} belongs to another context"
  | .missingType index => fatal s!"type #{index} does not exist"
  | .notStruct index => fatal s!"type #{index} is not a struct"
  | .foreignValue v => fatal s!"value {v.text} belongs to another context"
  | .erasedValue v => fatal s!"value {v.text} has been erased"
  | .missingValue v => fatal s!"value {v.text} does not exist"
  | .missingUse u => fatal s!"use {u.text} does not exist"
  | .stillUsed v uses => fatal s!"value {v.text} is still used by {uses} uses"
  | .classMismatch v c => fatal s!"can not cast {v.text} to `{c.path}`"
  | .blockWithoutList b => fatal s!"basic block {b.text} has no instruction list"
  | .functionWithoutList g => fatal s!"function {g.text} has no basic block list"
  | .instructionListed i b => fatal s!"instruction {i.text} is already in {b.text}"
  | .blockListed b g => fatal s!"basic block {b.text} is already in {g.text}"
  | .instructionDetached i => fatal s!"instruction {i.text} is detached"
  | .blockDetached b => fatal s!"basic block {b.text} is detached"
  | .notInstruction i => fatal s!"value {i.text} is not an instruction"
  | .noArgumentData => fatal "argument without argument data"
  | .noFunctionData => fatal "function without function data"
  | .noIntegerData => fatal "integer constant without integer data"
  | .noFloatData => fatal "floating point constant without data"
  | .noAllocatedType => fatal "alloca without allocated type"
  | .noSourceType => fatal "getelementptr without source element type"
  | .noIntPredicate => fatal "icmp without predicate"
  | .noFloatPredicate => fatal "fcmp without predicate"
  | .noCalleeType => fatal "call without function type"
  | .noTailMarker => fatal "call without tail call marker"
  | .noCallingConv => fatal "call without calling convention"
  | .noParameters => fatal "function type without parameters"
  | .wrongTarget u v => fatal s!"use {u.text} in the list of {v.text} has another target"
  | .brokenLink u => fatal s!"broken back link of use {u.text}"
  | .ownerErased u v => fatal s!"use {u.text} of {v.text} is owned by an erased user"
  | .listLength v listed counted =>
    fatal s!"value {v.text} has {listed} uses in its list but counts {counted}"
  | .slotOwner index v => fatal s!"operand {index} of {v.text} is owned by another slot"
  | .useCount attached listed =>
    fatal s!"{attached} attached operand slots but {listed} uses in use lists"
where
  /-- The common beginning of the wordings. -/
  fatal (reason : String) : String := "fatal error: " ++ reason

end SsaGraph
