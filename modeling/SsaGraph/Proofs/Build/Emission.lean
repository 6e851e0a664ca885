import SsaGraph.Proofs.Arrangement
import SsaGraph.Proofs.Build.Calm
import SsaGraph.Proofs.Context.Tidy

/-!
# Emitting at a valid point

Every factory ends with `emit`, which creates the instruction and places it. `InsertPoint.Valid` are
the points that it can be given: a live block has an end, and there is a place before an instruction
that is in a block. After any history, and whatever the classes of the handles in it, `emit`
succeeds at such a point, and wherever else there is a place (`OpenAt`), if its operands are alive
and the name is allowed (`emit_answered`, `emit_at`); and what it answers with is an instruction of
the given type, operation and operands (`emit_data`). What is left to a factory is to say when it
gets as far as that.
-/

namespace SsaGraph

/-- A place for a new instruction: in no block, before an instruction that is in a block, or at the
end of a block. -/
def InsertPoint.Valid (c : Context) : InsertPoint → Prop
  | detached => True
  | before i => i.value ∈ c.graph.live ∧ ∃ b, c.layout.parentBlock? i = some b
  | atEnd b => c.isa .block b.value = .ok true

namespace Context

variable {c c' : Context} {cls : Class} {site : Site} {ty : Ty} {op : Operation}
  {operands : List (Option Value)}

/-- A valid insertion point passes the factories' check of their place. -/
theorem checkPoint_of_valid (hs : c.Sound) {point : InsertPoint} (valid : point.Valid c) :
    c.checkPoint point = .ok () := by
  cases point with
  | detached => rfl
  | before i =>
    obtain ⟨alive, b, hb⟩ := valid
    simp only [checkPoint, Question.bind_eq_ok_iff, Question.guard_last_eq_ok_iff]
    exact ⟨(), check_of_live alive, by simp [hb], rfl⟩
  | atEnd b =>
    obtain ⟨d, hd⟩ := ((isa_eq_true_iff hs).1 valid).value?
    exact check_eq_ok_iff.2 ⟨d, hd⟩

/-- The layout has room at a valid insertion point. -/
theorem offers_of_valid (hs : c.Sound) (ht : c.Tidy) {point : InsertPoint}
    (valid : point.Valid c) : c.layout.Offers point := by
  cases point with
  | detached => exact trivial
  | before i => exact valid.2
  | atEnd b => exact ht.listed ((isa_eq_true_iff hs).1 valid)

/-- Types have no part in it. -/
theorem valid_withTypes {types : TypeTable} {point : InsertPoint} (valid : point.Valid c) :
    point.Valid { c with types } := by
  cases point with
  | detached => exact trivial
  | before i => exact valid
  | atEnd b => exact valid

/-- An instruction can be placed at the point. -/
structure OpenAt (c : Context) (point : InsertPoint) : Prop where
  /-- It passes the check. -/
  checked : c.checkPoint point = .ok ()
  /-- The layout has it. -/
  offers : c.layout.Offers point

/-- The list that a valid insertion point stands for can take an instruction. -/
theorem openAt_of_valid (hs : c.Sound) (ht : c.Tidy) {point : InsertPoint} (valid : point.Valid c) :
    c.OpenAt point :=
  ⟨checkPoint_of_valid hs valid, offers_of_valid hs ht valid⟩

/-- An instruction is emitted where it can be placed. -/
theorem emit_at (hs : c.Sound) (ht : c.Tidy) (h : c.OpenAt site.point)
    (named : site.name = none ∨ ty ≠ c.types.void)
    (alive : ∀ o ∈ operands, ∀ v ∈ o, ∃ d, c.graph.value? v = some d) :
    ∃ (i : Handle cls) (c' : Context), emit site ty op operands c = .ok i c' := by
  obtain ⟨v, graph, built⟩ : ∃ v graph,
      Graph.newUser ty op site.name operands c.graph = .ok v graph :=
    Run.ok_of_avoids Graph.newUser_firm (Graph.newUser_calm hs.graph alive)
  -- The new instruction is in no list, and the place is there.
  obtain ⟨-, -, hv, -⟩ := Graph.newUser_ok hs.graph built
  have detached : c.layout.parentBlock? ⟨v⟩ = none :=
    ht.parentBlock?_eq_none (Nat.le_of_eq (by rw [hv]))
  obtain ⟨_, c', placed⟩ := Run.ok_of_avoids place_firm
    (place_calm (c := { c with graph }) ht.contents h.offers detached)
  refine ⟨⟨v⟩, c', ?_⟩
  simp only [emit, Run.bind_eq_ok_iff, Run.get_apply, Run.question_eq_ok_iff, Run.guard_eq_ok_iff]
  exact ⟨c, c, rfl, (), c, ⟨h.checked, rfl⟩, by simpa using named, v,
    { c with graph }, Run.on_eq_ok_iff.2 ⟨graph, built, rfl⟩, (), c', placed, rfl⟩

/-- An instruction is emitted at every valid point. -/
theorem emit_answered (hs : c.Sound) (ht : c.Tidy) (valid : site.point.Valid c)
    (named : site.name = none ∨ ty ≠ c.types.void)
    (alive : ∀ o ∈ operands, ∀ v ∈ o, ∃ d, c.graph.value? v = some d) :
    ∃ (i : Handle cls) (c' : Context), emit site ty op operands c = .ok i c' :=
  emit_at hs ht (openAt_of_valid hs ht valid) named alive

/-- What is emitted has the type, the operation and the operands that were given. -/
theorem emit_data {i : Handle cls} (hs : c.Sound) (hs' : c'.Sound)
    (run : emit site ty op operands c = .ok i c') :
    c'.types = c.types ∧ c'.typeOf i.value = .ok ty ∧
      c'.kindOf i.value = .ok (.instruction op) ∧ c'.operands i.value = .ok operands := by
  obtain ⟨graph, _, built, rfl, placed⟩ := emit_ok run
  obtain ⟨layout, rfl⟩ := place_ok placed
  obtain ⟨-, -, -, node⟩ := Graph.newUser_ok hs.graph built
  obtain ⟨d, hd, hn⟩ := Graph.value?_of_node? ((node i.value).trans (if_pos rfl))
  have data := (valueData_eq_ok_iff hs').2 hd
  injection hn with hty hname hkind hoperands
  refine ⟨rfl, ?_, ?_, ?_⟩
  · rw [typeOf, data, hty]
    rfl
  · rw [kindOf, data, hkind]
    rfl
  · rw [operands_eq_ok hs' hd, hoperands]

end Context

end SsaGraph
