import SsaGraph.Handle
import SsaGraph.Opcode

/-!
# Errors

A request that cannot be carried out for a reason the caller can mend is rejected with an error.
An error is the cause itself; its wording is given once, by `Error.detail`, and its kind by
`Error.kind`. Where the wording shows a type, the cause carries the type's display text.
-/

namespace SsaGraph

/-- The three kinds of errors. -/
inductive ErrorKind where
  /-- An argument is out of range or of an unfitting type. -/
  | invalidArgument
  /-- A type or value of another context was passed. -/
  | crossContext
  /-- The request is not supported. -/
  | unsupported
deriving DecidableEq

/-- The wording of an error of this kind, given its detail. -/
def ErrorKind.message (k : ErrorKind) (detail : String) : String :=
  match k with
  | .invalidArgument => "invalid argument: " ++ detail
  | .crossContext => "cross-context violation: " ++ detail
  | .unsupported => "unsupported operation: " ++ detail

/-- The causes for which a request is rejected. -/
inductive Error where
  -- types
  | foreignType (index : Nat)
  | widthTooSmall (bits : Nat)
  | widthTooLarge (bits : Nat)
  | badReturnType (shown : String)
  | badParameterType (shown : String)
  | badPointee (shown : String)
  | badArrayElement (shown : String)
  | noLanes
  | badVectorElement (shown : String)
  | badField (shown : String)
  | bodyAlreadySet
  | notIdentified (shown : String)
  | layoutOfNonStruct
  | indexIntoBodyless
  | fieldOutOfRange (index : Nat)
  | notIndexable (shown : String)
  | notVector (shown : String)
  | zeroWidthElement
  | oddElementWidth
  | oddLaneCount
  | tooManyLanes
  -- constants
  | notIntegerType (shown : String)
  | notFloatType (shown : String)
  | notPointerType (shown : String)
  | notFirstClass (shown : String)
  | vectorConstant
  | wideConstant (bits : Nat)
  | halfConstant
  -- values and their operands
  | foreignValue (v : Value)
  | notUser (v : Value)
  | operandOutOfRange (index count : Nat)
  | fixedOperands (v : Value)
  | replacementType (v : Value)
  | voidValueName
  | caseType
  | incomingType
  -- functions and layout
  | notFunctionType (shown : String)
  | functionExists (name : String)
  | unnamedFunction
  | blockAttached (b : Block)
  | blockDetached (b : Block)
  | instructionAttached (i : Instruction)
  | anchorDetached (i : Instruction)
  | moveBeforeItself
  | eraseArgument
  | eraseConstant (v : Value)
  -- building instructions
  | voidInstructionName
  | badReturnValue (shown : String)
  | branchCondition
  | switchCondition
  | selectCondition
  | notBinary (op : Opcode)
  | notCast (op : Opcode)
  | operandTypesDiffer (op : Opcode)
  | floatOperandsRequired (op : Opcode)
  | intOperandsRequired (op : Opcode)
  | intOrPointerOperandsRequired
  | arraySize
  | badAllocation (shown : String)
  | pointerRequired (op : Opcode)
  | badLoad (shown : String)
  | storeTypes (stored pointee : String)
  | badStore (shown : String)
  | noIndices
  | indexNotInteger
  | structIndexNotConstant
  | badCast (op : Opcode) (source target : String)
  | typeNotAllowed (op : Opcode) (shown : String)
  | calleeNotPointer
  | calleeNotFunction
  | argumentCount (expected found : Nat)
  | argumentType (index : Nat) (found expected : String)
deriving DecidableEq

namespace Error

/-- The kind of an error. -/
def kind : Error → ErrorKind
  | foreignType _ | foreignValue _ => .crossContext
  | vectorConstant | wideConstant _ | halfConstant => .unsupported
  | _ => .invalidArgument

/-- The wording of an error, without its kind. -/
def detail : Error → String
  | foreignType index => s!"type #{index} belongs to another context"
  | widthTooSmall bits => s!"bitwidth {bits} too small"
  | widthTooLarge bits => s!"bitwidth {bits} too large"
  | badReturnType shown => s!"invalid return type `{shown}` for function"
  | badParameterType shown => s!"`{shown}` is not a valid type for function argument"
  | badPointee shown => s!"invalid type `{shown}` for pointer element"
  | badArrayElement shown => s!"invalid array element type `{shown}`"
  | noLanes => "vector must have at least one element"
  | badVectorElement shown => s!"invalid vector element type `{shown}`"
  | badField shown => s!"invalid struct element type `{shown}`"
  | bodyAlreadySet => "body of struct has already been set"
  | notIdentified shown => s!"`{shown}` is not an identified struct"
  | layoutOfNonStruct => "layout comparison requires two struct types"
  | indexIntoBodyless => "can not index into an opaque struct"
  | fieldOutOfRange index => s!"struct index {index} out of range"
  | notIndexable shown => s!"`{shown}` is not an aggregate or vector type"
  | notVector shown => s!"`{shown}` is not a vector type"
  | zeroWidthElement => "element size must be of a non-zero size"
  | oddElementWidth => "can not truncate vector element with odd bit-width"
  | oddLaneCount => "can not halve vector with odd number of elements"
  | tooManyLanes => "too many vector elements"
  | notIntegerType shown => s!"`{shown}` is not an integer type"
  | notFloatType shown => s!"`{shown}` is not a floating point type"
  | notPointerType shown => s!"`{shown}` is not a pointer type"
  | notFirstClass shown => s!"`{shown}` is not a first-class type"
  | vectorConstant => "vector constants"
  | wideConstant bits => s!"integer constants wider than 64 bits (`i{bits}`)"
  | halfConstant => "`half` constants"
  | foreignValue v => s!"value {v.text} belongs to another context"
  | notUser v => s!"value {v.text} is not a user"
  | operandOutOfRange index count =>
    s!"operand index {index} out of range, user has {count} operands"
  | fixedOperands v => s!"value {v.text} has no variadic operands"
  | replacementType v => s!"can not replace {v.text} with a value of another type"
  | voidValueName => "can not name a value of type `void`"
  | caseType => "case value type mismatch"
  | incomingType => "incoming value type mismatch"
  | notFunctionType shown => s!"`{shown}` is not a function type"
  | functionExists name => s!"function `{name}` already exists"
  | unnamedFunction => "functions must be named"
  | blockAttached b => s!"basic block {b.text} is already in a function"
  | blockDetached b => s!"basic block {b.text} is detached"
  | instructionAttached i => s!"instruction {i.text} is already in a basic block"
  | anchorDetached i => s!"can not insert before detached instruction {i.text}"
  | moveBeforeItself => "can not move an instruction before itself"
  | eraseArgument => "arguments are erased with their function"
  | eraseConstant v => s!"constant {v.text} can not be erased"
  | voidInstructionName => "can not name an instruction of type `void`"
  | badReturnValue shown => s!"can not return a value of type `{shown}`"
  | branchCondition => "branch condition must be `i1`"
  | switchCondition => "switch condition must be an integer"
  | selectCondition => "select condition must be `i1`"
  | notBinary op => s!"`{op.mnemonic}` is not a binary operator"
  | notCast op => s!"`{op.mnemonic}` is not a cast operator"
  | operandTypesDiffer op => s!"operands of `{op.mnemonic}` have different types"
  | floatOperandsRequired op => s!"`{op.mnemonic}` requires floating point operands"
  | intOperandsRequired op => s!"`{op.mnemonic}` requires integer operands"
  | intOrPointerOperandsRequired => "`icmp` requires integer or pointer operands"
  | arraySize => "array size must be an integer"
  | badAllocation shown => s!"can not allocate type `{shown}`"
  | pointerRequired op => s!"`{op.mnemonic}` requires a pointer"
  | badLoad shown => s!"can not load a value of type `{shown}`"
  | storeTypes stored pointee =>
    s!"can not store a value of type `{stored}` to a pointer to `{pointee}`"
  | badStore shown => s!"can not store a value of type `{shown}`"
  | noIndices => "`getelementptr` requires indices"
  | indexNotInteger => "`getelementptr` indices must be integers"
  | structIndexNotConstant => "struct indices must be integer constants"
  | badCast op source target => s!"invalid cast `{op.mnemonic}` from `{source}` to `{target}`"
  | typeNotAllowed op shown => s!"`{op.mnemonic}` of type `{shown}` is not allowed"
  | calleeNotPointer => "callee must be a pointer to a function"
  | calleeNotFunction => "callee is not a function"
  | argumentCount expected found => s!"expected {expected} arguments, found {found}"
  | argumentType index found expected =>
    s!"argument {index} has type `{found}`, expected `{expected}`"

/-- The full wording of an error. -/
def message (e : Error) : String := e.kind.message e.detail

end Error

end SsaGraph
