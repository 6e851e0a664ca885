import SsaGraph.Run
import SsaGraph.Value

/-!
# The use-def graph

The graph holds the values of a context and the use edges between them. Each operand slot of an
instruction owns one use edge for as long as the instruction lives; the edge records the
instruction, the slot's number, and the value the slot points to, if any. The uses that point to a
value form a list, the one attached last coming first: the value knows the first of them and their
number, and each edge knows its two neighbours.

Values are never renumbered: an erased value leaves its position empty. Edges live in an arena of
slots that are used again. When an edge is removed the generation of its slot is raised, so that
handles of the removed edge no longer resolve.
-/

namespace SsaGraph

/-- A use edge. -/
structure Edge where
  /-- The instruction that owns the operand slot. -/
  user : Value
  /-- The number of the operand slot. -/
  operandNo : Nat
  /-- What the operand slot points to; nothing if it is empty. -/
  target : Option Value
deriving DecidableEq

/-- A use edge with its neighbours in the list of the value that it points to. -/
structure LinkedEdge extends Edge where
  /-- The use before it. -/
  prev : Option Use
  /-- The use after it. -/
  next : Option Use
deriving DecidableEq

/-- Generations are counted modulo this number, which is 2^32. -/
def genLimit : Nat := 4294967296

/-- A slot of the arena of use edges. -/
structure UseSlot where
  /-- How often the slot has been given up, modulo `genLimit`. -/
  gen : Nat
  /-- The edge that occupies the slot. -/
  edge : Option LinkedEdge
deriving DecidableEq

/-- What is known of a value. -/
structure ValueData where
  /-- The type. -/
  ty : Ty
  /-- The name, if the value has one. -/
  name : Option String
  /-- What the value is. -/
  kind : ValueKind
  /-- The operand slots; only instructions have any. -/
  operands : List Use
  /-- The first of the uses that point to the value. -/
  firstUse : Option Use
  /-- How many uses point to the value. -/
  numUses : Nat
deriving DecidableEq

/-- The values of a context and the use edges between them. -/
structure Graph where
  /-- The context the graph belongs to. -/
  ctx : ContextId
  /-- The values in creation order; erased ones leave their position empty. -/
  values : Array (Option ValueData)
  /-- The arena of use edges. -/
  slots : Array UseSlot
  /-- The vacant slots, the one to be used next coming first. -/
  free : List Nat

namespace Graph

/-- The graph of a new context. -/
def initial (ctx : ContextId) : Graph := ⟨ctx, #[], #[], []⟩

/-! ## Looking up -/

/-- The data of a live value of this graph. -/
def value? (g : Graph) (v : Value) : Option ValueData :=
  if v.ctx = g.ctx then g.values[v.index]?.join else none

/-- The value is alive in this graph. -/
def contains (g : Graph) (v : Value) : Bool := (g.value? v).isSome

/-- The data of a value, which must be alive. -/
def value (g : Graph) (v : Value) : Except Fault ValueData :=
  match g.value? v with
  | some d => .ok d
  | none => .error (.missingValue v)

/-- The edge of a use handle with its neighbours, if the handle is not stale. -/
def linked? (g : Graph) (u : Use) : Option LinkedEdge :=
  match g.slots[u.index]? with
  | some slot => if slot.gen = u.gen then slot.edge else none
  | none => none

/-- The edge of a use handle with its neighbours; the handle must not be stale. -/
def linked (g : Graph) (u : Use) : Except Fault LinkedEdge :=
  match g.linked? u with
  | some l => .ok l
  | none => .error (.missingUse u)

/-- The edge of a use handle, if the handle is not stale. -/
def edge? (g : Graph) (u : Use) : Option Edge := (g.linked? u).map (·.toEdge)

/-- The edge of a use handle, which must not be stale. -/
def edge (g : Graph) (u : Use) : Except Fault Edge := return (← g.linked u).toEdge

/-- Follows a use list from one of its uses on, for `bound` uses at most. -/
def follow (g : Graph) : Nat → Option Use → Except Fault (List Use)
  | 0, _ => return []
  | _ + 1, none => return []
  | bound + 1, some u => return u :: (← g.follow bound (← g.linked u).next)

/-- The uses of a value, the one attached last coming first. The walk is given as many steps as the
arena has slots. In a graph whose use lists are in order a list is no longer than that, so the walk
ends where the list does and not at the bound (`CoherentFor.uses_end`). -/
def uses (g : Graph) (v : Value) : Except Fault (List Use) := do
  g.follow g.slots.size (← g.value v).firstUse

/-- Rejects a value of another context; a value of this one must be alive. -/
def check (g : Graph) (v : Value) : Except Failure Unit :=
  if v.ctx ≠ g.ctx then reject (.foreignValue v)
  else if g.contains v then pure ()
  else fault (.erasedValue v)

/-- The number of live values. -/
def numValues (g : Graph) : Nat := g.values.countP Option.isSome

/-- The number of use edges. -/
def numEdges (g : Graph) : Nat := g.slots.size - g.free.length

/-- The live values in creation order. -/
def live (g : Graph) : List Value :=
  ((List.range g.values.size).map (⟨g.ctx, ·⟩)).filter g.contains

/-- What an operand slot points to; nothing if the slot is empty or there is no such slot. -/
def operand (g : Graph) (user : Value) (index : Nat) : Except Fault (Option Value) := do
  match (← g.value user).operands[index]? with
  | some u => return (← g.edge u).target
  | none => return none

/-! ## Elementary changes -/

/-- Changes the data of a value. -/
def modifyValue (g : Graph) (v : Value) (f : ValueData → ValueData) : Graph :=
  if v.ctx = g.ctx then { g with values := g.values.modify v.index (Option.map f) } else g

/-- Changes the edge of a use. -/
def modifyEdge (g : Graph) (u : Use) (f : LinkedEdge → LinkedEdge) : Graph :=
  { g with slots := g.slots.modify u.index fun s => { s with edge := s.edge.map f } }

/-- Adds a value at the end. Positions are counted without a bound; a program that counts in words
of 32 bits agrees as long as fewer than 2^32 values are created in a context, and stops there. -/
def push (g : Graph) (d : ValueData) : Value × Graph :=
  (⟨g.ctx, g.values.size⟩, { g with values := g.values.push (some d) })

/-- Removes a value. -/
def drop (g : Graph) (v : Value) : Graph :=
  if v.ctx = g.ctx then { g with values := g.values.setIfInBounds v.index none } else g

/-- Makes an empty edge for an operand slot, in the vacant slot given up last if there is one. Slots
and operands are counted without a bound; a program that counts in words of 32 bits agrees as long
as there are fewer than 2^32 of them. -/
def allocate (g : Graph) (user : Value) (operandNo : Nat) : Use × Graph :=
  let edge : LinkedEdge := { user, operandNo, target := none, prev := none, next := none }
  match g.free with
  | index :: free =>
    let gen := (g.slots[index]?.map (·.gen)).getD 0
    (⟨index, gen⟩,
      { g with slots := g.slots.modify index ({ · with edge := some edge }), free })
  | [] => (⟨g.slots.size, 0⟩, { g with slots := g.slots.push ⟨0, some edge⟩ })

/-- Makes empty edges for `count` operand slots from number `first` on. -/
def allocateMany (user : Value) (first : Nat) : Nat → Graph → List Use × Graph
  | 0, g => ([], g)
  | count + 1, g =>
    let (u, g) := g.allocate user first
    let (us, g) := allocateMany user (first + 1) count g
    (u :: us, g)

/-- Gives up the slot of an edge and raises its generation. -/
def release (g : Graph) (u : Use) : Graph :=
  { g with
    slots := g.slots.modify u.index fun s => ⟨(s.gen + 1) % genLimit, none⟩
    free := u.index :: g.free }

/-! ## Reading back -/

/-- A change of one value's data is seen at that value only. -/
theorem value?_modifyValue (g : Graph) (v w : Value) (f : ValueData → ValueData) :
    (g.modifyValue v f).value? w = if w = v then (g.value? v).map f else g.value? w := by
  obtain ⟨c, i⟩ := v
  obtain ⟨c', j⟩ := w
  simp only [modifyValue, value?, Value.mk.injEq]
  by_cases hc : c = g.ctx
  · by_cases hj : j = i
    · subst hj
      by_cases hc' : c' = g.ctx
      · simp [hc, hc', Array.getElem?_modify, Option.join_map_eq_map_join]
      · simp [hc, hc']
    · simp [hc, hj, Ne.symm hj, Array.getElem?_modify]
  · by_cases hc' : c' = c <;> simp [hc, hc']

/-- A change of a value's data leaves the edges as they were. -/
@[simp] theorem linked?_modifyValue (g : Graph) (v : Value) (f : ValueData → ValueData) (u : Use) :
    (g.modifyValue v f).linked? u = g.linked? u := by
  unfold modifyValue
  split <;> rfl

/-- A change of a live edge is seen at that edge only. -/
theorem linked?_modifyEdge {g : Graph} {u : Use} {l : LinkedEdge} (h : g.linked? u = some l)
    (f : LinkedEdge → LinkedEdge) (w : Use) :
    (g.modifyEdge u f).linked? w = if w = u then some (f l) else g.linked? w := by
  obtain ⟨i, n⟩ := u
  obtain ⟨j, m⟩ := w
  simp only [modifyEdge, linked?, Array.getElem?_modify, Use.mk.injEq] at h ⊢
  -- A use is the edge only if both its place and its generation are those of the slot.
  by_cases hj : i = j
  · subst hj
    cases hs : g.slots[i]? with
    | none => simp [hs] at h
    | some s =>
      have hn : s.gen = n := by
        by_cases hn : s.gen = n
        · exact hn
        · simp [hs, hn] at h
      have he : s.edge = some l := by simpa [hs, hn] using h
      by_cases hm : m = n
      · simp [hn, hm, he]
      · simp [hn, hm, Ne.symm hm]
  · simp [hj, Ne.symm hj]

/-- A change of an edge leaves the values as they were. -/
@[simp] theorem value?_modifyEdge (g : Graph) (u : Use) (f : LinkedEdge → LinkedEdge) (v : Value) :
    (g.modifyEdge u f).value? v = g.value? v := rfl

/-- A new value has its data, and the other values keep theirs. -/
theorem value?_push (g : Graph) (d : ValueData) (v : Value) :
    (g.push d).2.value? v = if v = (g.push d).1 then some d else g.value? v := by
  obtain ⟨c, i⟩ := v
  simp only [push, value?, Array.getElem?_push, Value.mk.injEq]
  by_cases hc : c = g.ctx
  · by_cases hi : i = g.values.size <;> simp [hc, hi]
  · simp [hc]

/-- A removed value has no data, and the other values keep theirs. -/
theorem value?_drop (g : Graph) (v w : Value) :
    (g.drop v).value? w = if w = v then none else g.value? w := by
  obtain ⟨c, i⟩ := v
  obtain ⟨c', j⟩ := w
  simp only [drop, value?, Value.mk.injEq]
  by_cases hc : c = g.ctx
  · by_cases hj : j = i
    · subst hj
      by_cases hc' : c' = g.ctx
      · by_cases hlt : j < g.values.size <;> simp [hc, hc', hlt]
      · simp [hc, hc']
    · simp [hc, hj, Ne.symm hj]
  · by_cases hc' : c' = c <;> simp [hc, hc']

end Graph

end SsaGraph
