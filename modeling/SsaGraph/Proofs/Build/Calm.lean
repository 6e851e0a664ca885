import SsaGraph.Proofs.Build.Factory
import SsaGraph.Proofs.Context.Calm

/-!
# Factories cause no faults

A factory that is given live operands, types of the table and a place that is there is answered or
rejected. It asks about its operands first, and all it asks about are live values and types that
such values lead to: the type of a value, what a pointer points to, the fields that an address
computation steps through. What it makes available, a type or a constant, leaves everything else as
it was, so that the place and the operands are still there when the instruction is emitted.
-/

namespace SsaGraph

open Run (Calm)

/-- Supplying types and constants keeps the context's number. -/
theorem Context.ctx_of_supplies {c c' : Context}
    (chain : Relation.ReflTransGen Context.Supply c c') : c'.graph.ctx = c.graph.ctx := by
  induction chain with
  | refl => rfl
  | tail _ step ih =>
    cases step with
    | types step => exact ih
    | constant typed new => exact ih

/-- What is made available takes nothing away. -/
theorem Graph.Has.supplies {c c' : Context} {cls : Class} {v : Value} (h : c.graph.Has cls v)
    (chain : Relation.ReflTransGen Context.Supply c c') : c'.graph.Has cls v := by
  induction chain with
  | refl => exact h
  | tail _ step ih =>
    cases step with
    | types step => exact ih
    | constant typed new => exact (Graph.gains_push ..).has_iff.2 (.inl ih)

namespace Context

/-- A context knows what it knew when types and constants have been supplied. -/
theorem Knows.supplies {c c' : Context} {cls : Class} {v : Value} (h : c.Knows cls v)
    (chain : Relation.ReflTransGen Supply c c') : c'.Knows cls v := by
  intro hv
  refine (h ?_).supplies chain
  rw [hv, ctx_of_supplies chain]

variable {cls : Class} {c : Context} {site : Site} {ty : Ty} {op : Operation}
  {operands : List (Option Value)}

/-! ## What factories ask -/

/-- Reading the function type of a callee does not end the run. -/
theorem calleeType_calm {callee : Value} (hs : c.Sound) (hi : c.Intact)
    (hc : c.graph.Has .value callee) : Question.Calm (c.calleeType callee) := by
  refine .answered (hc.typeOf hs) fun ty hty => .answered (has_of_typeOf hi hty).data fun d hd => ?_
  rw [TypeTable.data_eq_ok_iff] at hd
  split
  · exact .answered (hs.types.admits hd).has.kind fun _ _ => .guard_last fun _ => .pure
  · exact .reject

/-- Reading the parts of a pointer does not end the run. -/
theorem pointerParts_calm {opcode : Opcode} {ptr : Value} (hs : c.Sound) (hi : c.Intact)
    (hp : c.graph.Has .value ptr) : Question.Calm (c.pointerParts opcode ptr) := by
  refine .answered (hp.typeOf hs) fun ty hty => .answered (has_of_typeOf hi hty).data fun d _ => ?_
  split
  · exact .pure
  · exact .reject

/-- Checking the indices does not end the run when each of them is a value. -/
theorem checkIndices_calm {indices : List Value} (hs : c.Sound) (hi : c.Intact)
    (h : ∀ v ∈ indices, c.graph.Has .value v) : Question.Calm (c.checkIndices indices) := by
  refine .forM fun index hindex => .answered ((h index hindex).typeOf hs) fun ty hty => ?_
  exact .answered (has_of_typeOf hi hty).kind fun _ _ => .guard_last fun _ => .pure

/-- Checking the arguments does not end the run when each of them is a value. -/
theorem checkArguments_calm {index : Nat} {args : List Value} {params : List Ty} (hs : c.Sound)
    (h : ∀ v ∈ args, c.graph.Has .value v) :
    Question.Calm (c.checkArguments index args params) := by
  induction args generalizing index params with
  | nil => exact .pure
  | cons arg args ih =>
    rw [List.forall_mem_cons] at h
    cases params with
    | nil => exact .pure
    | cons param params => exact .answered (h.1.typeOf hs) fun _ _ => .guard fun _ => ih h.2

/-- Reading an index as a field number does not end the run. -/
theorem fieldIndex_calm {index : Value} (hs : c.Sound) (h : c.graph.Has .value index) :
    Question.Calm (c.fieldIndex index) := by
  obtain ⟨k, hk, -⟩ := h.kindOf hs
  refine .answered ⟨k, hk⟩ fun k _ => ?_
  split
  · exact .pure
  · exact .reject

/-- Each step of an address computation goes from a type of the table to another. -/
theorem walk_calm {indices : List Value} (hs : c.Sound) (ht : c.types.Has ty)
    (h : ∀ v ∈ indices, c.graph.Has .value v) : Question.Calm (c.walk ty indices) := by
  induction indices generalizing ty with
  | nil => exact .pure
  | cons index indices ih =>
    rw [List.forall_mem_cons] at h
    have step : ∀ field, Question.Calm (do c.walk (← c.types.typeAtIndex ty field) indices) := by
      intro field
      refine .bind (TypeTable.typeAtIndex_calm ht) fun part hpart => ?_
      exact ih (TypeTable.has_of_typeAtIndex hs.types hpart) h.2
    refine .answered ht.kind fun k _ => ?_
    split
    · exact .bind (fieldIndex_calm hs h.1) fun field _ => step field
    · exact step 0

/-- The type a walk leads to is in the table. -/
theorem has_of_walk {indices : List Value} {target : Ty} (hs : c.Sound) (ht : c.types.Has ty)
    (h : c.walk ty indices = .ok target) : c.types.Has target := by
  -- On the indices: a step goes from a type of the table to one of its parts.
  induction indices generalizing ty with
  | nil =>
    cases h
    exact ht
  | cons index indices ih =>
    have step : ∀ field, (do c.walk (← c.types.typeAtIndex ty field) indices) = .ok target →
        c.types.Has target := by
      intro field h
      obtain ⟨part, hpart, h⟩ := Question.bind_eq_ok_iff.1 h
      exact ih (TypeTable.has_of_typeAtIndex hs.types hpart) h
    obtain ⟨k, -, h⟩ := Question.bind_eq_ok_iff.1 h
    split at h
    · obtain ⟨field, -, h⟩ := Question.bind_eq_ok_iff.1 h
      exact step field h
    · exact step 0 h

/-- The function type of a callee is in the table. -/
theorem has_of_calleeType {callee : Value} {fnType : Ty} (hs : c.Sound)
    (h : c.calleeType callee = .ok fnType) : c.types.Has fnType := by
  obtain ⟨ty, -, h⟩ := Question.bind_eq_ok_iff.1 h
  obtain ⟨d, hd, h⟩ := Question.bind_eq_ok_iff.1 h
  rw [Question.lift_eq_ok_iff, TypeTable.data_eq_ok_iff] at hd
  split at h
  · obtain ⟨k, -, h⟩ := Question.bind_eq_ok_iff.1 h
    obtain ⟨-, h⟩ := Question.guard_last_eq_ok_iff.1 h
    cases h
    exact (hs.types.admits hd).has
  · cases h

/-- Whether a type of the table can be stored is always answered. -/
theorem isStorable_answered (h : c.types.Has ty) : ∃ b, c.isStorable ty = .ok b := by
  obtain ⟨k, hk⟩ := h.kind
  obtain ⟨b, hb⟩ := h.isSized
  exact ⟨_, Question.bind_eq_ok_iff.2 ⟨k, hk, Question.bind_eq_ok_iff.2 ⟨b, hb, rfl⟩⟩⟩

/-! ## What factories make available -/

/-- Asking for the type of a comparison does not end the run. -/
theorem boolLike_calm (hs : c.Sound) (h : c.types.Has ty) : Calm (boolLike ty) c := by
  obtain ⟨s, hshape, -⟩ := h.shape hs.types
  refine .get_bind (.answered ⟨s, hshape⟩ fun s _ => ?_)
  split
  · exact .on (TypeTable.vectorType_calm (hs.types.has_primitive (by decide)))
  · exact .pure

/-- A constant that was asked for is alive, whether it was in the pool or not. -/
theorem constInt_alive {x : Nat} {h : Handle .intConstant} {c' : Context} (hi : c.Intact)
    (run : constInt ty x c = .ok h c') : c'.graph.Has .value h.value := by
  obtain ⟨width, -, -, hk⟩ := constInt_ok run
  rcases constant_cases hk with ⟨hv, rfl⟩ | ⟨-, hv, rfl⟩
  · obtain ⟨name, hface⟩ := hi.pool.entry.1 hv
    exact ⟨_, hface, rfl⟩
  · rw [hv]
    exact (Graph.gains_push ..).has_iff.2 (.inr ⟨_, ⟨rfl, rfl⟩, rfl⟩)

/-! ## Emitting -/

/-- Emitting an instruction does not end the run when its place is known and its operands are
alive. -/
theorem emit_calm (hs : c.Sound) (hi : c.Intact)
    (point : ∀ m ∈ site.point.mentions, c.Knows m.1 m.2)
    (alive : ∀ {v}, some v ∈ operands → ∃ d, c.graph.value? v = some d) :
    Calm (emit site ty op operands : Run Context (Handle cls)) c := by
  refine .get_bind (.ask (checkPoint_calm point) fun _ hp => .guard fun _ => ?_)
  have offers := offers_of_checkPoint hi point hp
  have targets : ∀ o ∈ operands, ∀ v ∈ o, ∃ d, c.graph.value? v = some d := by
    rintro o ho v rfl
    exact alive ho
  refine .bind (.on (Graph.newUser_calm hs.graph targets)) fun v c' run => ?_
  obtain ⟨graph, hg, rfl⟩ := onGraph_ok run
  -- The new instruction is in no block, and the place is still there: the layout has not changed.
  have detached := hi.layout.detached_of_gains (Graph.newUser_gains hs.graph hg)
  exact .bind (place_calm (c := { c with graph }) hi.layout.contents offers detached)
    fun _ _ _ => .pure

/-- After the type of a comparison is made, the comparison is emitted. -/
theorem emitComparison_calm {operand : Ty} (hs : c.Sound) (hi : c.Intact)
    (point : ∀ m ∈ site.point.mentions, c.Knows m.1 m.2) (has : c.types.Has operand)
    (alive : ∀ {v}, some v ∈ operands → ∃ d, c.graph.value? v = some d) :
    Calm (do emit site (← boolLike operand) op operands : Run Context (Handle cls)) c := by
  refine .bind (boolLike_calm hs has) fun result c' hb => ?_
  have chain := boolLike_supply result c' hb
  obtain ⟨types, rfl, -⟩ := boolLike_ok hs hb
  exact emit_calm (hs.supplies chain) (hi.supplies chain) point alive

/-! ## Factories -/

section

variable (hs : c.Sound) (hi : c.Intact) (point : ∀ m ∈ site.point.mentions, c.Knows m.1 m.2)

include hs hi point

/-- Building a return does not end the run. -/
theorem buildRet_calm {value : Option Value} (hv : ∀ v ∈ value, c.graph.Has .value v) :
    Calm (buildRet site value) c := by
  refine .get_bind ?_
  cases value with
  | none => exact emit_calm hs hi point (by simp)
  | some v =>
    have hv := hv v rfl
    refine .ask (check_calm hv) fun _ h => .answered (hv.typeOf hs) fun ty hty => ?_
    refine .answered (has_of_typeOf hi hty).kind fun _ _ => .guard fun _ => ?_
    exact emit_calm hs hi point (alive_of_check h)

/-- Building a branch does not end the run. -/
theorem buildBr_calm {dest : Block} (hd : c.graph.Has .block dest.value) :
    Calm (buildBr site dest) c :=
  .get_bind (.ask (check_calm hd) fun _ h => emit_calm hs hi point (alive_of_check h))

/-- Building a conditional branch does not end the run. -/
theorem buildCondBr_calm {cond : Value} {ifTrue ifFalse : Block} (hc : c.graph.Has .value cond)
    (ht : c.graph.Has .block ifTrue.value) (hf : c.graph.Has .block ifFalse.value) :
    Calm (buildCondBr site cond ifTrue ifFalse) c := by
  refine .get_bind (.ask (checkAll_calm ?_) fun _ h => .answered (hc.isBool hs) fun _ _ => ?_)
  · simp [hc, ht.alive, hf.alive]
  · exact .guard fun _ => emit_calm hs hi point (alive_of_checkAll h)

/-- Building a switch does not end the run. -/
theorem buildSwitch_calm {cond : Value} {dest : Block} (hc : c.graph.Has .value cond)
    (hd : c.graph.Has .block dest.value) : Calm (buildSwitch site cond dest) c := by
  refine .get_bind (.ask (checkAll_calm ?_) fun _ h => .answered (hc.typeOf hs) fun ty hty => ?_)
  · simp [hc, hd.alive]
  · refine .answered (has_of_typeOf hi hty).kind fun _ _ => .guard fun _ => ?_
    exact emit_calm hs hi point (alive_of_checkAll h)

/-- Building an unreachable does not end the run. -/
theorem buildUnreachable_calm : Calm (buildUnreachable site) c :=
  .get_bind (emit_calm hs hi point (by simp))

/-- Building a phi does not end the run. -/
theorem buildPhi_calm (ht : c.types.Has ty) : Calm (buildPhi site ty) c :=
  .get_bind (.ask TypeTable.check_calm fun _ _ => .answered ht.kind fun _ _ => .guard fun _ =>
    emit_calm hs hi point (by simp))

/-- Building a call does not end the run. -/
theorem buildCall_calm {callee : Value} {args : List Value} (hc : c.graph.Has .value callee)
    (ha : ∀ v ∈ args, c.graph.Has .value v) : Calm (buildCall site callee args) c := by
  refine .get_bind (.ask (checkAll_calm (List.forall_mem_cons.2 ⟨hc, ha⟩)) fun _ h => ?_)
  refine .ask (calleeType_calm hs hi hc) fun fnType hfn => ?_
  refine .answered (has_of_calleeType hs hfn).data fun d _ => ?_
  split
  · refine .guard fun _ => .ask (checkArguments_calm hs ha) fun _ _ => emit_calm hs hi point ?_
    exact fun hmem => alive_of_checkAll h (by simpa [or_comm] using hmem)
  · exact .reject

/-- Building a binary operation does not end the run. -/
theorem buildBinary_calm {opcode : Opcode} {lhs rhs : Value} (hl : c.graph.Has .value lhs)
    (hr : c.graph.Has .value rhs) : Calm (buildBinary site opcode lhs rhs) c := by
  unfold buildBinary
  split
  · refine .get_bind (.ask (checkAll_calm (by simp [hl, hr])) fun _ h => ?_)
    refine .answered (hl.typeOf hs) fun ty hty => .answered (hr.typeOf hs) fun _ _ => ?_
    have has := has_of_typeOf hi hty
    refine .guard fun _ => ?_
    split
    · exact .answered (has.isFloatOrFloatVector hs.types) fun _ _ => .guard fun _ =>
        emit_calm hs hi point (alive_of_checkAll h)
    · exact .answered (has.isIntOrIntVector hs.types) fun _ _ => .guard fun _ =>
        emit_calm hs hi point (alive_of_checkAll h)
  · exact .reject

/-- Building an integer comparison does not end the run. -/
theorem buildIcmp_calm {pred : IntPredicate} {lhs rhs : Value} (hl : c.graph.Has .value lhs)
    (hr : c.graph.Has .value rhs) : Calm (buildIcmp site pred lhs rhs) c := by
  refine .get_bind (.ask (checkAll_calm (by simp [hl, hr])) fun _ h => ?_)
  refine .answered (hl.typeOf hs) fun ty hty => .answered (hr.typeOf hs) fun _ _ => ?_
  have has := has_of_typeOf hi hty
  refine .guard fun _ => .answered (has.scalarKind hs.types) fun _ _ => .guard fun _ => ?_
  exact .ask (checkPoint_calm point) fun _ _ =>
    emitComparison_calm hs hi point has (alive_of_checkAll h)

/-- Building a float comparison does not end the run. -/
theorem buildFcmp_calm {pred : FloatPredicate} {lhs rhs : Value} (hl : c.graph.Has .value lhs)
    (hr : c.graph.Has .value rhs) : Calm (buildFcmp site pred lhs rhs) c := by
  refine .get_bind (.ask (checkAll_calm (by simp [hl, hr])) fun _ h => ?_)
  refine .answered (hl.typeOf hs) fun ty hty => .answered (hr.typeOf hs) fun _ _ => ?_
  have has := has_of_typeOf hi hty
  refine .guard fun _ => .answered (has.isFloatOrFloatVector hs.types) fun _ _ => .guard fun _ => ?_
  exact .ask (checkPoint_calm point) fun _ _ =>
    emitComparison_calm hs hi point has (alive_of_checkAll h)

/-- Building a select does not end the run. -/
theorem buildSelect_calm {cond ifTrue ifFalse : Value} (hc : c.graph.Has .value cond)
    (ht : c.graph.Has .value ifTrue) (hf : c.graph.Has .value ifFalse) :
    Calm (buildSelect site cond ifTrue ifFalse) c := by
  refine .get_bind (.ask (checkAll_calm (by simp [hc, ht, hf])) fun _ h => ?_)
  refine .answered (hc.isBool hs) fun _ _ => .guard fun _ => ?_
  refine .answered (ht.typeOf hs) fun ty hty => .answered (hf.typeOf hs) fun _ _ => ?_
  refine .guard fun _ => .answered (has_of_typeOf hi hty).kind fun _ _ => .guard fun _ => ?_
  exact emit_calm hs hi point (alive_of_checkAll h)

/-- Building a cast does not end the run. -/
theorem buildCast_calm {opcode : Opcode} {value : Value} (hv : c.graph.Has .value value)
    (ht : c.types.Has ty) : Calm (buildCast site opcode value ty) c := by
  unfold buildCast
  split
  · refine .get_bind (.ask (check_calm hv) fun _ h => .ask TypeTable.check_calm fun _ _ => ?_)
    refine .answered (hv.typeOf hs) fun source hsource => ?_
    refine .answered ((has_of_typeOf hi hsource).isValidCast hs.types opcode ht) fun _ _ => ?_
    exact .guard fun _ => emit_calm hs hi point (alive_of_check h)
  · exact .reject

/-- Building a load does not end the run. -/
theorem buildLoad_calm {ptr : Value} (hp : c.graph.Has .value ptr) :
    Calm (buildLoad site ptr) c := by
  refine .get_bind (.ask (check_calm hp) fun _ h => .ask (pointerParts_calm hs hi hp) fun x hx => ?_)
  obtain ⟨pointee, space⟩ := x
  refine .answered (isStorable_answered (has_of_pointerParts hs hx)) fun _ _ => .guard fun _ => ?_
  exact emit_calm hs hi point (alive_of_check h)

/-- Building a store does not end the run. -/
theorem buildStore_calm {value ptr : Value} (hv : c.graph.Has .value value)
    (hp : c.graph.Has .value ptr) : Calm (buildStore site value ptr) c := by
  refine .get_bind (.ask (checkAll_calm (by simp [hv, hp])) fun _ h => ?_)
  refine .ask (pointerParts_calm hs hi hp) fun x hx => ?_
  obtain ⟨pointee, space⟩ := x
  refine .answered (hv.typeOf hs) fun _ _ => .guard fun _ => ?_
  refine .answered (has_of_pointerParts hs hx).kind fun _ _ => .guard fun _ => ?_
  exact emit_calm hs hi point (alive_of_checkAll h)

/-- Building an element pointer does not end the run. -/
theorem buildElementPtr_calm {ptr : Value} {indices : List Value} {inbounds : Bool}
    (hp : c.graph.Has .value ptr) (hindices : ∀ v ∈ indices, c.graph.Has .value v) :
    Calm (buildElementPtr site ptr indices inbounds) c := by
  refine .get_bind (.ask (checkAll_calm (List.forall_mem_cons.2 ⟨hp, hindices⟩)) fun _ h => ?_)
  refine .ask (pointerParts_calm hs hi hp) fun x hx => ?_
  obtain ⟨source, space⟩ := x
  have has := has_of_pointerParts hs hx
  have rest : ∀ v ∈ indices.tail, c.graph.Has .value v :=
    fun v hv => hindices v (List.mem_of_mem_tail hv)
  dsimp only
  split
  · exact .reject_bind
  · refine .ask (checkIndices_calm hs hi hindices) fun _ _ => .ask (walk_calm hs has rest) ?_
    intro target htarget
    refine .ask (checkPoint_calm point) fun _ _ => ?_
    refine .bind (.on (TypeTable.pointerType_calm (has_of_walk hs has htarget))) fun ty c' run => ?_
    -- The pointer type is new, so the place and the operands are carried over the supply.
    have chain := pointerType_supply ty c' run
    obtain ⟨types, -, rfl⟩ := onTypes_ok run
    exact emit_calm (hs.supplies chain) (hi.supplies chain) point (alive_of_checkAll h)

/-- The size of an allocation is given, or is a constant of a type that every table has. -/
theorem buildAlloca_calm {size : Option Value} (ht : c.types.Has ty)
    (hn : ∀ v ∈ size, c.graph.Has .value v) : Calm (buildAlloca site ty size) c := by
  refine .get_bind (.ask TypeTable.check_calm fun _ _ => ?_)
  -- Without a size the constant 1 is made here, and it is the operand whose life is to be shown.
  cases size with
  | some n =>
    have hn := hn n rfl
    refine .ask (check_calm hn) fun _ h => .answered (hn.typeOf hs) fun nty hnty => ?_
    refine .answered (has_of_typeOf hi hnty).kind fun _ _ => .guard fun _ => ?_
    refine .answered (isStorable_answered ht) fun _ _ => .guard fun _ => ?_
    refine .ask (checkPoint_calm point) fun _ _ => ?_
    refine .bind (.on (TypeTable.pointerType_calm ht)) fun ptr c' run => ?_
    have chain := pointerType_supply ptr c' run
    obtain ⟨types, -, rfl⟩ := onTypes_ok run
    exact emit_calm (hs.supplies chain) (hi.supplies chain) point (alive_of_check h)
  | none =>
    refine .answered (isStorable_answered ht) fun _ _ => .guard fun _ => ?_
    refine .ask (checkPoint_calm point) fun _ _ => ?_
    refine .bind (.on (TypeTable.pointerType_calm ht)) fun ptr c₁ run₁ => ?_
    -- Each supply is followed, since the place and the operands are to be valid after both.
    have chain₁ := pointerType_supply ptr c₁ run₁
    obtain ⟨types, ht₁, rfl⟩ := onTypes_ok run₁
    have int32 : types.Has c.types.int32 :=
      ((TypeTable.pointerType_gets ty 0).growsTo ht₁).has (hs.types.has_primitive (by decide))
    refine .bind (constInt_calm (c := { c with types }) int32) fun one c₂ run₂ => ?_
    have chain₂ := constInt_pools.mono (fun _ _ => Pools.supply) one c₂ run₂
    have chain := chain₁.trans chain₂
    have alive := constInt_alive (hi.supplies chain₁) run₂
    have point' := fun m hm => (point m hm).supplies chain
    refine emit_calm (hs.supplies chain) (hi.supplies chain) point' fun hmem => ?_
    cases List.mem_singleton.1 hmem
    exact alive.value?

end

end Context

end SsaGraph
