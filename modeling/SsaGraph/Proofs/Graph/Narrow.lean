import SsaGraph.Proofs.Build.Rule
import SsaGraph.Proofs.Graph.Change

/-!
# Changes that narrow the graph

A tame change narrows the graph: what is left of the values has the types it had, and operand slots
hold what they held before, or something of the same type, or nothing. This is all that the type
rules need to know of it.
-/

namespace SsaGraph

namespace Graph

variable {g g' : Graph}

/-! ## Types of operand slots -/

/-- The type at a value is that of its node. -/
theorem typeAt?_eq_node? (g : Graph) (v : Value) : g.typeAt? v = (g.node? v).map (·.ty) := by
  unfold typeAt? node? bare?
  cases g.value? v <;> rfl

/-- A value with a node has its type. -/
theorem typeAt?_of_node? {v : Value} {n : Node} (h : g.node? v = some n) :
    g.typeAt? v = some n.ty := by
  rw [typeAt?_eq_node?, h]
  rfl

/-- What an operand slot holds is alive. -/
theorem Coherent.operand_alive (hc : g.Coherent) {u v : Value} {n : Node}
    (hn : g.node? u = some n) (hv : some v ∈ n.operands) : ∃ d, g.value? v = some d := by
  obtain ⟨d, hd, rfl⟩ := value?_of_node? hn
  obtain ⟨x, -, hx⟩ := List.mem_map.1 hv
  obtain ⟨e, he, ht⟩ := Option.bind_eq_some_iff.1 hx
  exact hc.alive he ht

/-- An edge is seen in the operand slot that it belongs to. -/
theorem Coherent.operands_getElem? (hc : g.Coherent) {u : Use} {e : Edge} {n : Node}
    (he : g.edge? u = some e) (hn : g.node? e.user = some n) :
    n.operands[e.operandNo]? = some e.target := by
  obtain ⟨d, hd, rfl⟩ := value?_of_node? hn
  have hu := hc.owner he
  simp only [slot?, hd, Option.bind_some] at hu
  simp [hu, target?, he]

/-- Operand slots whose contents keep their types. -/
theorem slotTypes_congr {operands : List (Option Value)}
    (h : ∀ v, some v ∈ operands → g'.typeAt? v = g.typeAt? v) :
    g'.slotTypes operands = g.slotTypes operands := by
  refine List.map_congr_left fun operand hmem => ?_
  cases operand with
  | none => rfl
  | some v => exact h v hmem

/-- Operand slots whose contents keep their types or go. -/
theorem slotTypes_under (h : ∀ {v ty}, g'.typeAt? v = some ty → g.typeAt? v = some ty)
    (operands : List (Option Value)) :
    List.Forall₂ Under (g'.slotTypes operands) (g.slotTypes operands) := by
  induction operands with
  | nil => exact .nil
  | cons operand operands ih =>
    refine .cons (fun ty hty => ?_) ih
    cases operand with
    | none => cases hty
    | some v => exact h hty

end Graph

namespace ValueKind.Alike

/-- What is like a block is a block. -/
theorem eq_block {k : ValueKind} (h : k.Alike .block) : k = .block := by
  cases h
  rfl

/-- The marks of a call aside, an instruction does what it did. -/
theorem eq_instruction {k : ValueKind} {op : Operation} (h : k.Alike (.instruction op)) :
    ∃ op', k = .instruction op' ∧
      ∀ {t ty slots}, Operation.Fits t op' ty slots → op.Fits t ty slots := by
  cases h with
  | refl => exact ⟨op, rfl, fun fits => fits⟩
  | call => exact ⟨_, rfl, fun fits => fits.remark⟩

end ValueKind.Alike

/-- A slot that is emptied or keeps its type. -/
theorem forall₂_under_set {slots : List (Option Ty)} {i : Nat} {slot : Option Ty}
    (h : ∀ old, slots[i]? = some old → Under slot old) :
    List.Forall₂ Under (slots.set i slot) slots := by
  induction slots generalizing i with
  | nil => exact .nil
  | cons old slots ih =>
    cases i with
    | zero => exact .cons (h old rfl) (Under.all_refl slots)
    | succ i => exact .cons (.refl old) (ih fun old' hold => h old' (by simpa using hold))

namespace Graph

variable {g g' : Graph}

/-! ## Narrowing -/

/-- What is left of the values has the types it had, and so have the operand slots. -/
structure Narrows (g g' : Graph) : Prop where
  /-- Nothing is created in the place of a value. -/
  size : g.values.size ≤ g'.values.size
  /-- A value that is there was there before. -/
  node : ∀ {v n'}, g'.node? v = some n' → ∃ n, g.node? v = some n ∧ n'.ty = n.ty ∧
    n.kind.Alike n'.kind ∧ List.Forall₂ Under (g'.slotTypes n'.operands) (g.slotTypes n.operands)

/-- A value that is still there has the type it had. -/
theorem Narrows.typeAt? (h : g.Narrows g') {v : Value} {ty : Ty} (hv : g'.typeAt? v = some ty) :
    g.typeAt? v = some ty := by
  rw [typeAt?_eq_node?] at hv
  obtain ⟨n', hn', rfl⟩ := Option.map_eq_some_iff.1 hv
  obtain ⟨n, hn, hty, -⟩ := h.node hn'
  rw [typeAt?_of_node? hn, hty]

/-- One operand slot is set to something of its old type, or to nothing. -/
theorem narrows_of_set {user : Value} {i : Nat} {t : Option Value}
    (size : g.values.size ≤ g'.values.size) (types : ∀ v, g'.typeAt? v = g.typeAt? v)
    (node : ∀ w, g'.node? w =
      if w = user then (g.node? w).map fun n => { n with operands := n.operands.set i t }
      else g.node? w)
    (under : ∀ n, g.node? user = some n → ∀ old, n.operands[i]? = some old →
      Under (t.bind g.typeAt?) (old.bind g.typeAt?)) : g.Narrows g' := by
  have slots : ∀ operands, g'.slotTypes operands = g.slotTypes operands := fun operands =>
    slotTypes_congr fun v _ => types v
  refine ⟨size, fun {v n'} hn' => ?_⟩
  rw [node] at hn'
  split at hn'
  · -- The slot that was set has a type under the old one; the others have the same.
    subst v
    obtain ⟨n, hn, rfl⟩ := Option.map_eq_some_iff.1 hn'
    refine ⟨n, hn, rfl, .refl _, ?_⟩
    rw [slots, slotTypes, List.map_set]
    refine forall₂_under_set fun old hold => ?_
    rw [List.getElem?_map] at hold
    obtain ⟨o, ho, rfl⟩ := Option.map_eq_some_iff.1 hold
    exact under n hn o ho
  · refine ⟨n', hn', rfl, .refl _, ?_⟩
    rw [slots]
    exact Under.all_refl _

/-- The data of a value is changed apart from its type and its operands. -/
theorem narrows_modifyValue {v : Value} {f : ValueData → ValueData}
    (keep : ∀ d, g.value? v = some d →
      (f d).ty = d.ty ∧ d.kind.Alike (f d).kind ∧ (f d).operands = d.operands) :
    g.Narrows (g.modifyValue v f) := by
  have types : ∀ w, (g.modifyValue v f).typeAt? w = g.typeAt? w := by
    intro w
    unfold typeAt?
    rw [value?_modifyValue]
    split
    · subst w
      cases hd : g.value? v with
      | none => rfl
      | some d => simp [(keep d hd).1]
    · rfl
  -- The operands are as before, so every slot is under itself.
  refine ⟨by simp, fun {w n'} hn' => ?_⟩
  rw [slotTypes_congr fun x _ => types x]
  rw [node?_modifyValue] at hn'
  split at hn'
  · subst w
    obtain ⟨d, hd, rfl⟩ := Option.map_eq_some_iff.1 hn'
    obtain ⟨hty, alike, hoperands⟩ := keep d hd
    refine ⟨_, node?_of_value? hd, hty, alike, ?_⟩
    rw [hoperands]
    exact Under.all_refl _
  · exact ⟨n', hn', rfl, .refl _, Under.all_refl _⟩

/-- A tame change narrows the graph. -/
theorem Tame.narrows (hc : g.Coherent) (h : g.Tame g') : g.Narrows g' := by
  cases h with
  | clear edge =>
    refine narrows_of_set (by simp) (fun v => typeAt?_congr (bare?_clear ..))
      (hc.node?_clear edge) fun n hn old hold => .none _
  | @swap u e v w ty edge target old new =>
    refine narrows_of_set (by simp) (fun v => typeAt?_congr (bare?_retarget ..))
      (hc.node?_retargeted edge v) fun n hn o ho => ?_
    -- The slot held the old value, and the new one has its type.
    rw [hc.operands_getElem? edge hn, target] at ho
    cases ho
    simp only [Option.bind_some, old, new]
    exact .refl _
  | rename v name => exact narrows_modifyValue fun d _ => ⟨rfl, .refl _, rfl⟩
  | touch data alike =>
    refine narrows_modifyValue fun d hd => ⟨rfl, ?_, rfl⟩
    rw [data] at hd
    cases hd
    exact alike
  | remove run =>
    obtain ⟨-, -, -, node⟩ := removeValue_ok hc run
    -- What a removed value leaves behind are empty slots at most.
    have same : ∀ {w n}, g'.node? w = some n → g.node? w = some n := by
      intro w n hn
      rw [node] at hn
      split at hn
      · cases hn
      · exact hn
    refine ⟨Nat.le_of_eq (Tame.remove run).size_eq.symm, fun {w n} hn => ⟨n, same hn, rfl, .refl _, ?_⟩⟩
    refine slotTypes_under (fun {v ty} hv => ?_) _
    rw [typeAt?_eq_node?] at hv
    obtain ⟨n, hn, rfl⟩ := Option.map_eq_some_iff.1 hv
    exact typeAt?_of_node? (same hn)

end Graph

end SsaGraph
