import SsaGraph.Graph.Basic

/-!
# Checking the graph

A walk over the whole graph that compares operand slots and use lists.
-/

namespace SsaGraph

namespace Graph

/-- Every use in the rest of the list of `v` points to `v`, knows the use before it, and is owned by
a live value. -/
def checkLinks (g : Graph) (v : Value) : Option Use → List Use → Except Fault Unit
  | _, [] => return ()
  | prev, u :: us => do
    let l ← g.linked u
    unless l.target = some v do throw (.wrongTarget u v)
    unless l.prev = prev do throw (.brokenLink u)
    unless g.contains l.user do throw (.ownerErased u v)
    g.checkLinks v (some u) us

/-- The list of a value is well linked, and as long as the count says. -/
def checkUses (g : Graph) (v : Value) (d : ValueData) : Except Fault Unit := do
  let us ← g.uses v
  g.checkLinks v none us
  unless us.length = d.numUses do throw (.listLength v us.length d.numUses)

/-- Every operand slot of a value is recorded as such by its edge. -/
def checkSlots (g : Graph) (v : Value) (d : ValueData) : Except Fault Unit :=
  d.operands.zipIdx.forM fun (u, index) => do
    let e ← g.edge u
    unless e.user = v ∧ e.operandNo = index do throw (.slotOwner index v)

/-- The number of operand slots of a value that are not empty. -/
def attachedSlots (g : Graph) (d : ValueData) : Nat :=
  d.operands.countP fun u => ((g.edge? u).bind (·.target)).isSome

/-- Operand slots and use lists of the whole graph agree. -/
def checkUseLists (g : Graph) : Except Fault Unit := do
  let data := g.live.filterMap fun v => (g.value? v).map (v, ·)
  data.forM fun (v, d) => do
    g.checkUses v d
    g.checkSlots v d
  let attached : Nat := data.foldl (fun n (_, d) => n + g.attachedSlots d) 0
  let listed : Nat := data.foldl (fun n (_, d) => n + d.numUses) 0
  unless attached = listed do throw (.useCount attached listed)

end Graph

end SsaGraph
