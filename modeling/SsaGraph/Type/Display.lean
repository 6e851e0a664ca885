import SsaGraph.Type.Table

/-!
# Display of types

The text of a type. An identified struct is shown by its name, or by its index if it has none, and
never by its fields, so that the text of a type involves types of smaller index only. The display
recursion runs on that index.
-/

namespace SsaGraph

namespace TypeTable

/-- The text of a type, given the texts of the types it is made of. -/
def render (text : Ty → String) (ty : Ty) : TypeData → String
  | .void => "void"
  | .half => "half"
  | .float => "float"
  | .double => "double"
  | .label => "label"
  | .metadata => "metadata"
  | .integer bits => s!"i{bits}"
  | .function ret params varArg =>
    let shown := params.map text ++ if varArg then ["..."] else []
    text ret ++ " (" ++ ", ".intercalate shown ++ ")"
  | .literal body =>
    let fields :=
      if body.fields.isEmpty then "\x7b\x7d"
      else "\x7b " ++ ", ".intercalate (body.fields.map text) ++ " \x7d"
    if body.packed then "<" ++ fields ++ ">" else fields
  | .identified (some name) _ => "%" ++ name
  | .identified none _ => s!"%{ty.index}"
  | .array elem len => s!"[{len} x {text elem}]"
  | .vector elem lanes => s!"<{lanes} x {text elem}>"
  | .pointer pointee 0 => text pointee ++ "*"
  | .pointer pointee space => s!"{text pointee} addrspace({space})*"

/-- The text of a type that nests at most `depth` deep. -/
def displayWithin (t : TypeTable) : Nat → Ty → String
  | 0, _ => ""
  | depth + 1, ty =>
    match t.data? ty with
    | some d => render (t.displayWithin depth) ty d
    | none => s!"<foreign type #{ty.index}>"

/-- The text of a type. A type nests at most as deep as its index is large. -/
def display (t : TypeTable) (ty : Ty) : String := t.displayWithin (ty.index + 1) ty

end TypeTable

end SsaGraph
