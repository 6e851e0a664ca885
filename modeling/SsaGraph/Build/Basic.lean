import SsaGraph.Context.Arrange

/-!
# Building instructions

A new instruction is built for a site: the point where it is placed and the name it gets, if any.
Every factory checks its operands first, then the site, and only then changes the context.
-/

namespace SsaGraph

/-- Where a new instruction goes and what it is called. -/
structure Site where
  /-- The place. -/
  point : InsertPoint := .detached
  /-- The name. -/
  name : Option String := none

namespace Context

/-- Creates an instruction whose operands have been checked, and places it. -/
def emit {cls : Class} (site : Site) (ty : Ty) (op : Operation) (operands : List (Option Value)) :
    Run Context (Handle cls) := do
  let c ← get
  c.checkPoint site.point
  unless site.name.isNone ∨ ty ≠ c.types.void do reject .voidInstructionName
  let v ← onGraph (Graph.newUser ty op site.name operands)
  place ⟨v⟩ site.point
  return ⟨v⟩

end Context

end SsaGraph
