import SsaGraph.Graph.Basic

/-!
# Editing the graph

The operations keep operand slots and use lists in step: whenever an operand slot is pointed
elsewhere, its use leaves the list of the old target and enters the list of the new one at the
head, and both counts follow.
-/

namespace SsaGraph

namespace Graph

/-- Changes the edge of a use, which must not be stale. -/
def patchEdge (u : Use) (f : LinkedEdge → LinkedEdge) : Run Graph Unit := do
  let _ ← (← get).linked u
  modify (·.modifyEdge u f)

/-- Changes the data of a value, which must be alive. -/
def patchValue (v : Value) (f : ValueData → ValueData) : Run Graph Unit := do
  let _ ← (← get).value v
  modify (·.modifyValue v f)

/-- Sets what comes after a use in the list of `v`, or what comes first if there is no such use. -/
def setNext (v : Value) (u next : Option Use) : Run Graph Unit :=
  match u with
  | some u => patchEdge u ({ · with next })
  | none => patchValue v ({ · with firstUse := next })

/-- Sets what comes before a use in its list, if there is such a use. -/
def setPrev (u prev : Option Use) : Run Graph Unit :=
  match u with
  | some u => patchEdge u ({ · with prev })
  | none => pure ()

/-- Points an empty use to a value, and puts it at the head of the value's list. -/
def attach (u : Use) (target : Value) : Run Graph Unit := do
  let head := (← (← get).value target).firstUse
  patchValue target fun d => { d with firstUse := some u, numUses := d.numUses + 1 }
  setPrev head (some u)
  patchEdge u ({ · with target := some target, prev := none, next := head })

/-- Empties a use, and takes it out of the list of its target; an empty one stays as it is. -/
def detach (u : Use) : Run Graph Unit := do
  let l ← (← get).linked u
  match l.target with
  | none => pure ()
  | some target =>
    patchEdge u ({ · with target := none, prev := none, next := none })
    setNext target l.prev l.next
    setPrev l.next l.prev
    patchValue target fun d => { d with numUses := d.numUses - 1 }

/-- Creates a value without operands. -/
def newValue (ty : Ty) (kind : ValueKind) (name : Option String) : Run Graph Value :=
  modifyGet (·.push ⟨ty, name, kind, [], none, 0⟩)

/-- Points the uses to the operands, in order; an operand that is missing leaves its use empty. -/
def attachAll (pairs : List (Use × Option Value)) : Run Graph Unit :=
  pairs.forM fun (u, operand) =>
    match operand with
    | some v => attach u v
    | none => pure ()

/-- Creates an instruction with the given operands, attached in order. -/
def newUser (ty : Ty) (op : Operation) (name : Option String) (operands : List (Option Value)) :
    Run Graph Value := do
  let user := ⟨(← get).ctx, (← get).values.size⟩
  let uses ← modifyGet (allocateMany user 0 operands.length)
  modify fun g => (g.push ⟨ty, name, .instruction op, uses, none, 0⟩).2
  attachAll (uses.zip operands)
  return user

/-- Points an operand slot to a value, or empties it. -/
def setOperand (user : Value) (index : Nat) (target : Option Value) : Run Graph Unit := do
  let d ← (← get).value user
  unless d.kind.isUser do reject (.notUser user)
  match d.operands[index]? with
  | none => reject (.operandOutOfRange index d.operands.length)
  | some u =>
    detach u
    match target with
    | some v => attach u v
    | none => pure ()

/-- Adds an operand slot that points to a value. -/
def pushOperand (user target : Value) : Run Graph Unit := do
  let d ← (← get).value user
  unless d.kind.isVariadic do reject (.fixedOperands user)
  let u ← modifyGet (·.allocate user d.operands.length)
  modify (·.modifyValue user fun d => { d with operands := d.operands ++ [u] })
  attach u target

/-- Acts on the first use of a value as long as there is one, for `bound` rounds at most. Each round
is to take the use out of the value's list, so that the number of uses is bound enough. -/
def whileUsed (v : Value) (round : Use → Run Graph Unit) : Nat → Run Graph Unit
  | 0 => pure ()
  | bound + 1 => do
    match (← (← get).value v).firstUse with
    | none => pure ()
    | some u =>
      round u
      whileUsed v round bound

/-- Points every use of `old` to `new`, one by one from the head of the list of `old`. -/
def replaceAllUses (old new : Value) : Run Graph Unit := do
  unless old = new do
    let d ← (← get).value old
    unless d.ty = (← (← get).value new).ty do reject (.replacementType old)
    whileUsed old (fun u => do detach u; attach u new) d.numUses

/-- Empties every use of a value. -/
def dropAllUses (v : Value) : Run Graph Unit := do
  whileUsed v detach (← (← get).value v).numUses

/-- Empties every operand slot of a value. -/
def dropAllReferences (user : Value) : Run Graph Unit := do
  let d ← (← get).value user
  d.operands.forM detach

/-- A value must have no uses. -/
def ensureUnused (g : Graph) (v : Value) : Except Fault Unit := do
  let d ← g.value v
  if d.numUses = 0 then return ()
  else throw (.stillUsed v d.numUses)

/-- Empties an operand slot and removes its edge. -/
def freeUse (u : Use) : Run Graph Unit := do
  detach u
  modify (·.release u)

/-- Removes a value that has no uses, with its operand slots. -/
def removeValue (v : Value) : Run Graph Unit := do
  let g ← get
  g.ensureUnused v
  (← g.value v).operands.forM freeUse
  modify (·.drop v)

end Graph

end SsaGraph
