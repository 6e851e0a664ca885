import SsaGraph.Type.Request

/-!
# Identified structs

Each creation makes a new struct. Names are unique: a struct that asks for a name held by another
gets the name with a number appended, and the numbers come from a counter of the whole table. The
body is given once, at creation or later, which is how a struct comes to contain pointers to itself.
-/

namespace SsaGraph

namespace TypeTable

/-- Some struct has the name. -/
def isTaken (t : TypeTable) (name : String) : Bool := (t.structByName? name).isSome

/-- A name with a number appended. -/
def numbered (name : String) (k : Nat) : String := s!"{name}.{k}"

/-- The first number from `k` on whose numbered name is free, looking at `tries` numbers. -/
def freeNumber (t : TypeTable) (name : String) : Nat → Nat → Nat
  | 0, k => k
  | tries + 1, k => if t.isTaken (numbered name k) then t.freeNumber name tries (k + 1) else k

/-- The name a struct gets when it asks for `name`, and the counter afterwards. If `n` names are
taken, one of `n + 1` numbered names is free. -/
def uniqueName (t : TypeTable) (name : String) : String × Nat :=
  if t.isTaken name then
    let k := t.freeNumber name t.names.entries.length (t.suffix + 1)
    (numbered name k, k)
  else (name, t.suffix)

/-- Replaces the description of a type. -/
def setData (t : TypeTable) (ty : Ty) (d : TypeData) : TypeTable :=
  { t with types := t.types.setIfInBounds ty.index d }

/-- Frees a name. -/
def releaseName (t : TypeTable) (name : Option String) : TypeTable :=
  match name with
  | some name => { t with names := t.names.erase name }
  | none => t

/-- Gives the struct `ty` a unique name made from the one asked for; a missing or empty name gives
none. The name that the struct had must be free. -/
def assignName (t : TypeTable) (ty : Ty) (name : Option String) (body : Option StructBody) :
    TypeTable :=
  match name.filter (· ≠ "") with
  | none => t.setData ty (.identified none body)
  | some name =>
    let (unique, suffix) := t.uniqueName name
    { t.setData ty (.identified (some unique) body) with
      names := t.names.insert unique ty, suffix }

/-- Creates an identified struct without a body. -/
def createStruct (name : Option String) : Run TypeTable Ty :=
  modifyGet fun t =>
    let (ty, t) := t.push (.identified none none)
    (ty, t.assignName ty name none)

/-- Gives an identified struct its body. -/
def setStructBody (ty : Ty) (fields : List Ty) (packed : Bool) : Run TypeTable Unit := do
  let t ← get
  t.check ty
  match ← t.data ty with
  | .identified _ (some _) => reject .bodyAlreadySet
  | .identified name none =>
    t.checkFields fields
    set (t.setData ty (.identified name (some ⟨fields, packed⟩)))
  | _ => reject (.notIdentified (t.display ty))

/-- Creates an identified struct with a body. -/
def createStructWithBody (name : Option String) (fields : List Ty) (packed : Bool) :
    Run TypeTable Ty := do
  (← get).checkFields fields
  let ty ← createStruct name
  setStructBody ty fields packed
  return ty

/-- Renames an identified struct; no name, or an empty one, removes the name it has. -/
def setStructName (ty : Ty) (name : Option String) : Run TypeTable Unit := do
  let t ← get
  t.check ty
  match ← t.data ty with
  | .identified old body =>
    unless old = name do
      set ((t.releaseName old).assignName ty name body)
  | _ => reject (.notIdentified (t.display ty))

end TypeTable

end SsaGraph
