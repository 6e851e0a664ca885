import SsaGraph.Build.Arithmetic
import SsaGraph.Build.Cast
import SsaGraph.Build.Control
import SsaGraph.Build.Memory
import SsaGraph.Context.Erase
import SsaGraph.Context.Functions
import SsaGraph.Context.Operands

/-!
# Requests

Everything that can be asked of a context and may change it, as one type, with `Request.run` to
carry a request out. A history of a context is a list of requests.
-/

namespace SsaGraph

/-- The vectors that can be derived from a vector. -/
inductive VectorDerivation where
  /-- Integers as wide as the elements. -/
  | integer
  /-- Integers twice as wide. -/
  | extended
  /-- Integers half as wide. -/
  | truncated
  /-- Half as many lanes. -/
  | halved
  /-- Twice as many lanes. -/
  | doubled
deriving DecidableEq

/-- What can be asked of a context. -/
inductive Request where
  -- types
  | integerType (bits : Nat)
  | functionType (ret : Ty) (params : List Ty) (varArg : Bool)
  | pointerType (pointee : Ty) (space : Nat)
  | arrayType (elem : Ty) (len : Nat)
  | vectorType (elem : Ty) (lanes : Nat)
  | literalStruct (fields : List Ty) (packed : Bool)
  | createStruct (name : Option String)
  | createStructWithBody (name : Option String) (fields : List Ty) (packed : Bool)
  | setStructBody (ty : Ty) (fields : List Ty) (packed : Bool)
  | setStructName (ty : Ty) (name : Option String)
  | deriveVector (how : VectorDerivation) (ty : Ty)
  -- constants
  | constInt (ty : Ty) (x : Nat)
  | constBool (b : Bool)
  | constFloat (ty : Ty) (bits : BitVec 64)
  | constNull (ty : Ty)
  | undef (ty : Ty)
  -- values and operands
  | setName (v : Value) (name : Option String)
  | setOperand (user : Value) (index : Nat) (target : Option Value)
  | replaceAllUses (old new : Value)
  | dropAllUses (v : Value)
  | dropAllReferences (user : Value)
  | addCase (i : Handle .switch) (value : Handle .intConstant) (dest : Block)
  | addIncoming (i : Handle .phi) (value : Value) (b : Block)
  | setTailCall (i : Handle .call) (marker : TailCall)
  | setCallingConv (i : Handle .call) (conv : CallingConv)
  -- functions, blocks and layout
  | newFunction (name : String) (ty : Ty)
  | newBlock (name : Option String)
  | appendBlock (f : Func) (b : Block)
  | insertBlock (anchor b : Block)
  | removeBlock (b : Block)
  | removeInstruction (i : Instruction)
  | insertInstruction (i anchor : Instruction)
  | appendInstruction (i : Instruction) (b : Block)
  | moveBefore (i anchor : Instruction)
  | moveToEnd (i : Instruction) (b : Block)
  -- erasure
  | eraseInstruction (i : Instruction)
  | eraseBlock (b : Block)
  | eraseFunction (f : Func)
  | eraseValue (v : Value)
  -- instructions
  | ret (site : Site) (value : Option Value)
  | br (site : Site) (dest : Block)
  | condBr (site : Site) (cond : Value) (ifTrue ifFalse : Block)
  | switch (site : Site) (cond : Value) (dest : Block)
  | unreachable (site : Site)
  | binary (site : Site) (op : Opcode) (lhs rhs : Value)
  | alloca (site : Site) (ty : Ty) (size : Option Value)
  | load (site : Site) (ptr : Value)
  | store (site : Site) (value ptr : Value)
  | elementPtr (site : Site) (ptr : Value) (indices : List Value) (inbounds : Bool)
  | cast (site : Site) (op : Opcode) (value : Value) (ty : Ty)
  | icmp (site : Site) (pred : IntPredicate) (lhs rhs : Value)
  | fcmp (site : Site) (pred : FloatPredicate) (lhs rhs : Value)
  | phi (site : Site) (ty : Ty)
  | call (site : Site) (callee : Value) (args : List Value)
  | select (site : Site) (cond ifTrue ifFalse : Value)

/-- What a request that succeeds answers. -/
inductive Answer where
  /-- Nothing. -/
  | unit
  /-- A type. -/
  | type (ty : Ty)
  /-- A value. -/
  | value (v : Value)
  /-- The block or function that something was taken out of, if it was in one. -/
  | parent (v : Option Value)
deriving DecidableEq

/-- A request for the type table that derives a vector from a vector. -/
def VectorDerivation.run (ty : Ty) : VectorDerivation → Run TypeTable Ty
  | integer => TypeTable.vectorInteger ty
  | extended => TypeTable.vectorExtended ty
  | truncated => TypeTable.vectorTruncated ty
  | halved => TypeTable.vectorHalved ty
  | doubled => TypeTable.vectorDoubled ty

namespace Request

/-- A request for the type table that answers with a type. -/
def typed (m : Run TypeTable Ty) : Run Context Answer := return .type (← Context.onTypes m)

/-- A request that answers with a handle. -/
def valued {cls : Class} (m : Run Context (Handle cls)) : Run Context Answer :=
  return .value (← m).value

/-- A request that answers with nothing. -/
def silent (m : Run Context Unit) : Run Context Answer := do m; return .unit

/-- A request that answers with the old parent. -/
def parental {cls : Class} (m : Run Context (Option (Handle cls))) : Run Context Answer :=
  return .parent ((← m).map (·.value))

/-- Carries out a request. -/
def run : Request → Run Context Answer
  | integerType bits => typed (TypeTable.integerType bits)
  | functionType result params varArg => typed (TypeTable.functionType result params varArg)
  | pointerType pointee space => typed (TypeTable.pointerType pointee space)
  | arrayType elem len => typed (TypeTable.arrayType elem len)
  | vectorType elem lanes => typed (TypeTable.vectorType elem lanes)
  | literalStruct fields packed => typed (TypeTable.literalStruct fields packed)
  | createStruct name => typed (TypeTable.createStruct name)
  | createStructWithBody name fields packed =>
    typed (TypeTable.createStructWithBody name fields packed)
  | setStructBody ty fields packed =>
    silent (Context.onTypes (TypeTable.setStructBody ty fields packed))
  | setStructName ty name => silent (Context.onTypes (TypeTable.setStructName ty name))
  | deriveVector how ty => typed (how.run ty)
  | constInt ty x => valued (Context.constInt ty x)
  | constBool b => valued (Context.constBool b)
  | constFloat ty bits => valued (Context.constFloat ty bits)
  | constNull ty => valued (Context.constNull ty)
  | undef ty => valued (Context.undef ty)
  | setName v name => silent (Context.setName v name)
  | setOperand user index target => silent (Context.setOperand user index target)
  | replaceAllUses old new => silent (Context.replaceAllUses old new)
  | dropAllUses v => silent (Context.dropAllUses v)
  | dropAllReferences user => silent (Context.dropAllReferences user)
  | addCase i value dest => silent (Context.addCase i value dest)
  | addIncoming i value b => silent (Context.addIncoming i value b)
  | setTailCall i marker => silent (Context.setTailCall i marker)
  | setCallingConv i conv => silent (Context.setCallingConv i conv)
  | newFunction name ty => valued (Context.newFunction name ty)
  | newBlock name => valued (Context.newBlock name)
  | appendBlock f b => silent (Context.appendBlock f b)
  | insertBlock anchor b => silent (Context.insertBlock anchor b)
  | removeBlock b => parental (Context.removeBlock b)
  | removeInstruction i => parental (Context.removeInstruction i)
  | insertInstruction i anchor => silent (Context.insertInstruction i anchor)
  | appendInstruction i b => silent (Context.appendInstruction i b)
  | moveBefore i anchor => silent (Context.moveBefore i anchor)
  | moveToEnd i b => silent (Context.moveToEnd i b)
  | eraseInstruction i => silent (Context.eraseInstruction i)
  | eraseBlock b => silent (Context.eraseBlock b)
  | eraseFunction f => silent (Context.eraseFunction f)
  | eraseValue v => silent (Context.eraseValue v)
  | ret site value => valued (Context.buildRet site value)
  | br site dest => valued (Context.buildBr site dest)
  | condBr site cond ifTrue ifFalse => valued (Context.buildCondBr site cond ifTrue ifFalse)
  | switch site cond dest => valued (Context.buildSwitch site cond dest)
  | unreachable site => valued (Context.buildUnreachable site)
  | binary site op lhs rhs => valued (Context.buildBinary site op lhs rhs)
  | alloca site ty size => valued (Context.buildAlloca site ty size)
  | load site ptr => valued (Context.buildLoad site ptr)
  | store site value ptr => valued (Context.buildStore site value ptr)
  | elementPtr site ptr indices inbounds =>
    valued (Context.buildElementPtr site ptr indices inbounds)
  | cast site op value ty => valued (Context.buildCast site op value ty)
  | icmp site pred lhs rhs => valued (Context.buildIcmp site pred lhs rhs)
  | fcmp site pred lhs rhs => valued (Context.buildFcmp site pred lhs rhs)
  | phi site ty => valued (Context.buildPhi site ty)
  | call site callee args => valued (Context.buildCall site callee args)
  | select site cond ifTrue ifFalse => valued (Context.buildSelect site cond ifTrue ifFalse)

end Request

end SsaGraph
