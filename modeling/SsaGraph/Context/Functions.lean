import SsaGraph.Context.Basic

/-!
# Functions and names

A function is known by a name that no other function of the context has. Its value is a pointer to
its function type, and it has one argument for each parameter.
-/

namespace SsaGraph

namespace Context

/-- Creates the arguments of a function from number `index` on. -/
def newArguments (f : Func) : Nat → List Ty → Run Context (List Argument)
  | _, [] => return []
  | index, param :: params => do
    let arg ← onGraph (Graph.newValue param (.argument f index) none)
    return ⟨arg⟩ :: (← newArguments f (index + 1) params)

/-- Creates a function. -/
def newFunction (name : String) (ty : Ty) : Run Context Func := do
  let c ← get
  c.types.check ty
  unless (← c.types.kind ty) = .function do reject (.notFunctionType (c.types.display ty))
  if c.names.contains name then reject (.functionExists name)
  let pointer ← onTypes (TypeTable.pointerType ty 0)
  match ← c.types.data ty with
  | .function _ params _ =>
    let v ← onGraph (Graph.newValue pointer (.function ty []) (some name))
    let args ← newArguments ⟨v⟩ 0 params
    onGraph (modify (·.modifyValue v fun d => { d with kind := .function ty args }))
    modify fun c =>
      { c with
        names := c.names.insert name ⟨v⟩
        functions := c.functions ++ [⟨v⟩]
        layout := c.layout.addFunction ⟨v⟩ }
    return ⟨v⟩
  | _ => fault .noParameters

/-- The function of a given name. -/
def getFunction? (c : Context) (name : String) : Option Func := c.names.get? name

/-- Moves a function's entry in the registry of names from its present name to a new one. A function
cannot go without a name, nor take the name of another. -/
def registerName (f : Func) (name : Option String) : Run Context Unit := do
  match name with
  | none => reject .unnamedFunction
  | some name =>
    let c ← get
    match c.names.get? name with
    | some g => unless g = f do reject (.functionExists name)
    | none =>
      let names :=
        match ← c.nameOf f.value with
        | some old => c.names.erase old
        | none => c.names
      set { c with names := names.insert name f }

/-- Names a value, or takes its name away. -/
def setName (v : Value) (name : Option String) : Run Context Unit := do
  let c ← get
  c.check v
  unless name.isNone ∨ (← c.typeOf v) ≠ c.types.void do reject .voidValueName
  if let some f ← c.narrow? .function v then registerName f name
  onGraph (modify (·.modifyValue v ({ · with name })))

end Context

end SsaGraph
