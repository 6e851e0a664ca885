import SsaGraph.Constant.Integer
import SsaGraph.Handle
import SsaGraph.Opcode
import SsaGraph.Predicate

/-!
# Values

What a value is: an argument, a basic block, a function, a constant or an instruction. The kind of
a value is fixed when it is created, and decides which classes the value belongs to. Operands are
not part of the kind; they live in the graph.
-/

namespace SsaGraph

/-- What a constant is, besides its type. -/
inductive Constant where
  | int (c : IntConstant)
  /-- A floating point number, as the pattern of a binary64 number. -/
  | float (bits : BitVec 64)
  | null
  | undef
deriving DecidableEq

/-- What an instruction does, besides its operands and its type: the opcode together with the data
that only instructions of that opcode have. Where the two are kept apart, an opcode may stand beside
the data of another; here they are one, and `Operation.opcode` reads the opcode off. -/
inductive Operation where
  | ret
  | br
  | switch
  | unreachable
  | binary (op : BinaryOpcode)
  | alloca (allocated : Ty)
  | load
  | store
  /-- An address computation from a pointer to `source`. -/
  | elementPtr (source : Ty) (inbounds : Bool)
  | cast (op : CastOpcode)
  | icmp (pred : IntPredicate)
  | fcmp (pred : FloatPredicate)
  | phi
  | call (fnType : Ty) (marker : TailCall) (conv : CallingConv)
  | select
deriving DecidableEq

/-- The opcode of an operation. -/
def Operation.opcode : Operation → Opcode
  | ret => .ret
  | br => .br
  | switch => .switch
  | unreachable => .unreachable
  | binary op => op.val
  | alloca _ => .alloca
  | load => .load
  | store => .store
  | elementPtr _ _ => .getelementptr
  | cast op => op.val
  | icmp _ => .icmp
  | fcmp _ => .fcmp
  | phi => .phi
  | call _ _ _ => .call
  | select => .select

/-- What a value is. -/
inductive ValueKind where
  /-- The argument number `index` of a function. -/
  | argument (parent : Func) (index : Nat)
  | block
  /-- A function, with its function type and one argument for each parameter. -/
  | function (fnType : Ty) (args : List Argument)
  | constant (c : Constant)
  | instruction (op : Operation)
deriving DecidableEq

namespace ValueKind

/-- The kind is a constant. -/
def isConstant : ValueKind → Bool
  | constant _ => true
  | _ => false

/-- Values of the kind have operands. -/
def isUser : ValueKind → Bool
  | instruction _ => true
  | _ => false

/-- The opcode of an instruction. -/
def opcode? : ValueKind → Option Opcode
  | instruction op => some op.opcode
  | _ => none

/-- Operands can be added to values of the kind. -/
def isVariadic (k : ValueKind) : Bool :=
  match k.opcode? with
  | some op => op.arity = .variadic
  | none => false

/-- The kind is an instruction whose opcode satisfies `p`. -/
def hasOpcode (p : Opcode → Bool) (k : ValueKind) : Bool := k.opcode?.any p

end ValueKind

/-- Values of the kind belong to the class. -/
def Class.contains (c : Class) (k : ValueKind) : Bool :=
  match c with
  | .value => true
  | .user => k.isUser
  | .constant => k.isConstant
  | .intConstant => (k matches .constant (.int _))
  | .floatConstant => (k matches .constant (.float _))
  | .nullConstant => (k matches .constant .null)
  | .undef => (k matches .constant .undef)
  | .argument => (k matches .argument _ _)
  | .block => (k matches .block)
  | .function => (k matches .function _ _)
  | .instruction => k.isUser
  | .terminator => k.hasOpcode (·.isTerminator)
  | .binary => k.hasOpcode (·.isBinary)
  | .cast => k.hasOpcode (·.isCast)
  | .comparison => k.hasOpcode fun op => op = .icmp || op = .fcmp
  | .intComparison => k.hasOpcode (· = .icmp)
  | .floatComparison => k.hasOpcode (· = .fcmp)
  | .ret => k.hasOpcode (· = .ret)
  | .branch => k.hasOpcode (· = .br)
  | .switch => k.hasOpcode (· = .switch)
  | .unreachable => k.hasOpcode (· = .unreachable)
  | .alloca => k.hasOpcode (· = .alloca)
  | .load => k.hasOpcode (· = .load)
  | .store => k.hasOpcode (· = .store)
  | .elementPtr => k.hasOpcode (· = .getelementptr)
  | .phi => k.hasOpcode (· = .phi)
  | .call => k.hasOpcode (· = .call)
  | .select => k.hasOpcode (· = .select)

end SsaGraph
