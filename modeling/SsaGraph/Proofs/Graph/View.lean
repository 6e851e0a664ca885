import SsaGraph.Proofs.Graph.Coherent

/-!
# What is seen of a value

A `Node` is a value as its operands see it: its type, name and kind, and what its operand slots
point to. Use handles do not appear in it, so that each change of the graph has a short description:
a slot is pointed elsewhere, a slot is added, a value comes or goes. `node?_retarget` gives the
first of these for any change of one edge; the others are read off the data.
-/

namespace SsaGraph

/-- A value with the targets of its operand slots. -/
structure Node where
  /-- The type. -/
  ty : Ty
  /-- The name, if the value has one. -/
  name : Option String
  /-- What the value is. -/
  kind : ValueKind
  /-- What the operand slots point to. -/
  operands : List (Option Value)

/-- The data of a value apart from its uses. -/
def ValueData.bare (d : ValueData) : ValueData := { d with firstUse := none, numUses := 0 }

namespace Graph

/-- The data of a live value apart from its uses. -/
def bare? (g : Graph) (v : Value) : Option ValueData := (g.value? v).map (·.bare)

/-- What a use points to. -/
def target? (g : Graph) (u : Use) : Option Value := (g.edge? u).bind (·.target)

/-- A live value with the targets of its operand slots. -/
def node? (g : Graph) (v : Value) : Option Node :=
  (g.bare? v).map fun d => ⟨d.ty, d.name, d.kind, d.operands.map g.target?⟩

/-- An operand slot is told by the data apart from the uses. -/
theorem slot?_eq (g : Graph) (p : Value × Nat) :
    g.slot? p = (g.bare? p.1).bind (·.operands[p.2]?) := by
  unfold slot? bare?
  cases g.value? p.1 <;> rfl

/-- What has no data is not alive, and the converse. -/
theorem bare?_eq_none_iff {g : Graph} {v : Value} : g.bare? v = none ↔ g.value? v = none :=
  Option.map_eq_none_iff

/-- What has no node is not alive, and the converse. -/
theorem node?_eq_none_iff {g : Graph} {v : Value} : g.node? v = none ↔ g.value? v = none := by
  rw [node?, Option.map_eq_none_iff, bare?_eq_none_iff]

/-- The node of a live value. -/
theorem node?_of_value? {g : Graph} {v : Value} {d : ValueData} (h : g.value? v = some d) :
    g.node? v = some ⟨d.ty, d.name, d.kind, d.operands.map g.target?⟩ := by
  simp [node?, bare?, h, ValueData.bare]

/-- What has a node is alive. -/
theorem value?_of_node? {g : Graph} {v : Value} {n : Node} (h : g.node? v = some n) :
    ∃ d, g.value? v = some d ∧ n = ⟨d.ty, d.name, d.kind, d.operands.map g.target?⟩ := by
  cases hv : g.value? v with
  | none => simp [node?_eq_none_iff.2 hv] at h
  | some d =>
    rw [node?_of_value? hv] at h
    exact ⟨d, rfl, (Option.some.inj h).symm⟩

/-- What keeps the data of a value keeps it alive. -/
theorem alive_congr {g g' : Graph} {v : Value} (h : g'.bare? v = g.bare? v) :
    (∃ d, g'.value? v = some d) ↔ ∃ d, g.value? v = some d := by
  rw [← Option.isSome_iff_exists, ← Option.isSome_iff_exists]
  have := congrArg Option.isSome h
  simpa [bare?] using this

/-! ## Changes that only concern uses -/

/-- The data apart from the uses after a value has been changed. -/
theorem bare?_modifyValue (g : Graph) (v w : Value) (f : ValueData → ValueData) :
    (g.modifyValue v f).bare? w = if w = v then (g.value? v).map (f · |>.bare) else g.bare? w := by
  unfold bare?
  rw [value?_modifyValue]
  split
  · rw [Option.map_map]
    rfl
  · rfl

/-- Attaching a use keeps the data apart from the uses. -/
@[simp] theorem bare?_link (g : Graph) (u : Use) (v w : Value) :
    (g.link u v).bare? w = g.bare? w := by
  unfold bare?
  rw [value?_link]
  split
  · subst w
    cases g.value? v <;> rfl
  · rfl

/-- Taking a use out of its list keeps the data apart from the uses. -/
@[simp] theorem bare?_unlink (g : Graph) (u : Use) (v : Value) (prev next : Option Use)
    (w : Value) : (g.unlink u v prev next).bare? w = g.bare? w := by
  unfold bare?
  rw [value?_unlink]
  split
  · subst w
    cases g.value? v <;> rfl
  · rfl

/-- Allocating an edge keeps the data apart from the uses. -/
@[simp] theorem bare?_allocate (g : Graph) (user : Value) (n : Nat) (w : Value) :
    (g.allocate user n).2.bare? w = g.bare? w := by
  simp [bare?]

/-- Giving up an edge keeps the data apart from the uses. -/
@[simp] theorem bare?_release (g : Graph) (u : Use) (w : Value) :
    (g.release u).bare? w = g.bare? w := rfl

/-- The data apart from the uses after a value has been created. -/
theorem bare?_push (g : Graph) (d : ValueData) (w : Value) :
    (g.push d).2.bare? w = if w = (g.push d).1 then some d.bare else g.bare? w := by
  unfold bare?
  rw [value?_push]
  split <;> rfl

/-- The data apart from the uses after a value has been removed. -/
theorem bare?_drop (g : Graph) (v w : Value) :
    (g.drop v).bare? w = if w = v then none else g.bare? w := by
  unfold bare?
  rw [value?_drop]
  split <;> rfl

/-- Slots are part of the data, so they stay when the data stays. -/
theorem slot?_congr {g g' : Graph} (h : ∀ w, g'.bare? w = g.bare? w) : g'.slot? = g.slot? := by
  funext p
  rw [slot?_eq, slot?_eq, h]

/-! ## Changes of edges -/

/-- A value keeps its node if its data stays and the edges of its operand slots do. -/
theorem node?_congr {g g' : Graph} {w : Value} (hb : g'.bare? w = g.bare? w)
    (he : ∀ i u, g.slot? (w, i) = some u → g'.edge? u = g.edge? u) : g'.node? w = g.node? w := by
  unfold node?
  rw [hb]
  cases hw : g.bare? w with
  | none => rfl
  | some d =>
    have hmap : d.operands.map g'.target? = d.operands.map g.target? := by
      refine List.map_congr_left fun u hu => ?_
      obtain ⟨i, hi⟩ := List.mem_iff_getElem?.1 hu
      rw [target?, target?, he i u (by rw [slot?_eq, hw]; exact hi)]
    simp [hmap]

/-- Changing the target of one edge sets the operand slot that owns the edge, and nothing else. -/
theorem Coherent.node?_retarget {g g' : Graph} (h : g.Coherent) {u : Use} {e : Edge}
    {t : Option Value} (hu : g.edge? u = some e) (hb : ∀ w, g'.bare? w = g.bare? w)
    (he : ∀ x, g'.edge? x = if x = u then some { e with target := t } else g.edge? x) (w : Value) :
    g'.node? w =
      if w = e.user then
        (g.node? w).map fun n => { n with operands := n.operands.set e.operandNo t }
      else g.node? w := by
  obtain ⟨v, n, s⟩ := e
  have hslot : g.slot? (v, n) = some u := h.owner hu
  simp only at he ⊢
  split
  · subst w
    rw [slot?_eq] at hslot
    obtain ⟨d, hd, hop⟩ := Option.bind_eq_some_iff.1 hslot
    simp only at hd hop
    -- Of the operands of the user just this one is read from the edge that has changed.
    have hmap : d.operands.map g'.target? = (d.operands.map g.target?).set n t := by
      refine List.ext_getElem? fun j => ?_
      rw [List.getElem?_map, List.getElem?_set, List.getElem?_map]
      by_cases hj : n = j
      · subst hj
        have hlt : n < (d.operands.map g.target?).length := by
          simpa using (List.getElem?_eq_some_iff.1 hop).1
        rw [hop, if_pos rfl, if_pos hlt]
        simp [target?, he]
      · cases hx : d.operands[j]? with
        | none => simp [hj]
        | some x =>
          -- Another slot of the same instruction has another edge.
          have hxu : x ≠ u := by
            rintro rfl
            obtain ⟨s', hs⟩ := h.owned (v := v) (i := j) (by rw [slot?_eq, hd]; exact hx)
            rw [hu] at hs
            cases hs
            exact hj rfl
          simp [hj, target?, he, hxu]
    simp [node?, hb, hd, hmap]
  · -- Another instruction has none of its operands at this edge.
    rename_i hw
    refine node?_congr (hb w) fun i x hx => ?_
    rw [he, if_neg]
    rintro rfl
    obtain ⟨s', hs⟩ := h.owned hx
    rw [hu] at hs
    cases hs
    exact hw rfl

/-- The nodes after a use has been attached. -/
theorem Coherent.node?_link {g : Graph} (h : g.Coherent) {u : Use} {e : Edge}
    (hu : g.edge? u = some e) (v w : Value) :
    (g.link u v).node? w =
      if w = e.user then
        (g.node? w).map fun n => { n with operands := n.operands.set e.operandNo (some v) }
      else g.node? w :=
  h.node?_retarget hu (bare?_link g u v) (edge?_link v · hu) w

/-! ## Coherence at rest -/

/-- Attaching an empty use to a live value keeps the graph coherent. -/
theorem Coherent.link {g : Graph} (h : g.Coherent) {u : Use} {e : Edge} {v : Value} {d : ValueData}
    (hu : g.edge? u = some e) (he : e.target = none) (hv : g.value? v = some d) :
    (g.link u v).Coherent := by
  rw [Coherent, slot?_congr (bare?_link g u v)]
  exact CoherentFor.link h hu he hv

end Graph

end SsaGraph
