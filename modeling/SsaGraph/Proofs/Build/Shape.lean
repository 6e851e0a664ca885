import SsaGraph.Proofs.Graph.Change
import SsaGraph.Proofs.Type.Growth

/-!
# Shapes of instructions

How many operands the instructions of an operation have. Most operations fix the number, through
their opcode. A `ret` has one operand or none, a branch one or three, a switch a condition, a
default destination and then pairs, a phi pairs, an address computation a pointer and at least one
index, and a call one operand for each parameter, perhaps more, and the callee.

What a shape says of a type never changes, so an instruction keeps its shape when the table grows;
and the marks of a call have no part in it.

`Carries` says what there is to an operation besides its opcode. For most opcodes there is nothing:
the opcode tells the operation.
-/

namespace SsaGraph

namespace Operation

/-- An instruction of the operation may have `n` operands. -/
def Shaped (t : TypeTable) (n : Nat) : Operation → Prop
  | ret => n ≤ 1
  | br => n = 1 ∨ n = 3
  | switch => 2 ≤ n ∧ n % 2 = 0
  | phi => n % 2 = 0
  | elementPtr _ _ => 2 ≤ n
  | call fnType _ _ => ∃ ret params varArg, t.data? fnType = some (.function ret params varArg) ∧
    params.length + 1 ≤ n ∧ (varArg = false → n = params.length + 1)
  | op => op.opcode.arity = .fixed n

/-- A shape of an operation is kept when the table grows. -/
theorem Shaped.grow {t t' : TypeTable} {n : Nat} {op : Operation} (h : op.Shaped t n)
    (grows : t.GrowsTo t') : op.Shaped t' n := by
  cases op with
  | call fnType marker conv =>
    obtain ⟨ret, params, varArg, hd, least, exact⟩ := h
    exact ⟨ret, params, varArg, grows.structural hd rfl, least, exact⟩
  | _ => exact h

/-- Operations of the same kind have the same shapes. -/
theorem Shaped.alike {t : TypeTable} {n : Nat} {op op' : Operation} (h : op.Shaped t n)
    (alike : (ValueKind.instruction op).Alike (.instruction op')) : op'.Shaped t n := by
  cases alike with
  | refl => exact h
  | call => exact h

/-- The operation carries what operations of the opcode do; for most opcodes that is nothing, and
the opcode tells the operation. -/
def Carries (op : Operation) : Opcode → Prop
  | .alloca => ∃ allocated, op = alloca allocated
  | .getelementptr => ∃ source inbounds, op = elementPtr source inbounds
  | .icmp => ∃ pred, op = icmp pred
  | .fcmp => ∃ pred, op = fcmp pred
  | .call => ∃ fnType marker conv, op = call fnType marker conv
  | o => ∀ op' : Operation, op'.opcode = o → op' = op

end Operation

/-- The operation that an opcode tells. -/
def Opcode.operation? : Opcode → Option Operation
  | ret => some .ret
  | br => some .br
  | switch => some .switch
  | unreachable => some .unreachable
  | load => some .load
  | store => some .store
  | phi => some .phi
  | select => some .select
  | op =>
    if h : op.isBinary = true then some (.binary ⟨op, h⟩)
    else if h : op.isCast = true then some (.cast ⟨op, h⟩)
    else none

/-- The operation of a binary opcode. -/
theorem Opcode.operation?_of_isBinary {op : Opcode} (h : op.isBinary = true) :
    op.operation? = some (.binary ⟨op, h⟩) := by
  cases op <;> first | rfl | cases h

/-- The operation of a cast's opcode. -/
theorem Opcode.operation?_of_isCast {op : Opcode} (h : op.isCast = true) :
    op.operation? = some (.cast ⟨op, h⟩) := by
  cases op <;> first | rfl | cases h

namespace Operation

/-- An operation whose opcode says which it is, is that one. -/
theorem eq_of_operation? {op op' : Operation} (h : op.opcode.operation? = some op') : op = op' := by
  cases op with
  | binary b =>
    rw [opcode, Opcode.operation?_of_isBinary b.property] at h
    exact Option.some.inj h
  | cast b =>
    rw [opcode, Opcode.operation?_of_isCast b.property] at h
    exact Option.some.inj h
  | _ => cases h <;> rfl

/-- The operation of an opcode carries this opcode. -/
theorem carries_of_operation? {op : Operation} {o : Opcode} (h : o.operation? = some op) :
    op.Carries o := by
  have told : ∀ op' : Operation, op'.opcode = o → op' = op := by
    rintro op' rfl
    exact eq_of_operation? h
  cases o with
  | alloca | getelementptr | icmp | fcmp | call => cases h
  | _ => exact told

/-- Every operation carries what its opcode asks for. -/
theorem carries (op : Operation) : op.Carries op.opcode := by
  cases op with
  | alloca allocated => exact ⟨allocated, rfl⟩
  | elementPtr source inbounds => exact ⟨source, inbounds, rfl⟩
  | icmp pred => exact ⟨pred, rfl⟩
  | fcmp pred => exact ⟨pred, rfl⟩
  | call fnType marker conv => exact ⟨fnType, marker, conv, rfl⟩
  | binary b => exact carries_of_operation? (Opcode.operation?_of_isBinary b.property)
  | cast b => exact carries_of_operation? (Opcode.operation?_of_isCast b.property)
  | _ => exact carries_of_operation? rfl

end Operation

/-- Binary operators have two operands. -/
theorem Opcode.arity_of_isBinary {op : Opcode} (h : op.isBinary = true) : op.arity = .fixed 2 := by
  revert h
  cases op <;> decide

/-- Casts have one operand. -/
theorem Opcode.arity_of_isCast {op : Opcode} (h : op.isCast = true) : op.arity = .fixed 1 := by
  revert h
  cases op <;> decide

/-- What an instruction needs to be of a class: its operation is of the class, and it has as many
operands as its operation takes. -/
structure Class.Takes (cls : Class) (t : TypeTable) (op : Operation) (n : Nat) : Prop where
  /-- The operation is of the class. -/
  kind : cls.contains (.instruction op) = true
  /-- The number of operands fits the operation. -/
  shape : op.Shaped t n

end SsaGraph
