import SsaGraph.Proofs.Build.Factory
import SsaGraph.Proofs.Context.Rejection

/-!
# Rejected factories change nothing

A factory that makes no type checks its operands and then emits, and what `emit` refuses it refuses
before it changes anything. The factories of comparisons, allocations and address computations make
the type of their instruction first, so they ask for the insertion point themselves before that;
when `emit` asks again, the answer is the same. Nor does `emit` refuse the name: a type that has
just been made is not `void`.
-/

namespace SsaGraph

open Run (Firm Atomic)

namespace Context

variable {cls : Class} {c c' : Context} {site : Site} {ty : Ty} {op : Operation}
  {operands : List (Option Value)}

/-! ## Emitting -/

/-- A rejected emission leaves the context as it was. -/
theorem emit_atomic : Atomic (emit site ty op operands : Run Context (Handle cls)) c :=
  .get_bind (.ask fun _ _ => .guard fun _ => .of_firm
    (.bind (onGraph_firm Graph.newUser_firm) fun _ _ _ => .bind place_firm fun _ _ _ => .pure))

/-- A point that was accepted is accepted as long as the layout stays. -/
theorem checkPoint_not_rejected {point : InsertPoint} {a : Unit} (h : c.checkPoint point = .ok a)
    (graph : c'.graph.ctx = c.graph.ctx) (layout : c'.layout = c.layout) :
    Question.Avoids Failure.IsRejection (c'.checkPoint point) := by
  cases point with
  | detached => exact .pure
  | atEnd b => exact Graph.check_not_rejected ((ctx_of_check (v := b.value) h).trans graph.symm)
  | before i =>
    simp only [checkPoint, Question.bind_eq_ok_iff, Question.guard_last_eq_ok_iff] at h ⊢
    obtain ⟨_, hi, hp, -⟩ := h
    rw [layout, if_pos hp]
    exact .bind (Graph.check_not_rejected ((ctx_of_check hi).trans graph.symm)) fun _ _ => .pure

/-- An emission at a checked place is not rejected, if it needs no name for a void result. -/
theorem emit_firm {a : Unit} (point : c.checkPoint site.point = .ok a)
    (graph : c'.graph.ctx = c.graph.ctx) (layout : c'.layout = c.layout)
    (type : ty ≠ c'.types.void) : Firm (emit site ty op operands : Run Context (Handle cls)) c' := by
  refine .get_bind (.ask (checkPoint_not_rejected point graph layout) fun _ _ => ?_)
  rw [if_pos (.inr type)]
  exact .bind (onGraph_firm Graph.newUser_firm) fun _ _ _ => .bind place_firm fun _ _ _ => .pure

/-- A type that is not described as `void` is not `void`. -/
theorem ne_void {t : TypeTable} (hw : t.WellFormed) {d : TypeData} (h : t.data? ty = some d)
    (hd : d.kind ≠ .void) : ty ≠ t.void := by
  rintro rfl
  have : t.data? t.void = some .void := hw.primitive rfl
  rw [this] at h
  cases h
  exact hd rfl

/-! ## Control flow -/

/-- A rejected return leaves the context as it was. -/
theorem buildRet_atomic {value : Option Value} : Atomic (buildRet site value) c := by
  refine .get_bind ?_
  cases value with
  | none => exact emit_atomic
  | some v =>
    exact .ask fun _ _ => .ask_fault fun _ _ => .ask_fault fun _ _ => .guard fun _ => emit_atomic

/-- A rejected branch leaves the context as it was. -/
theorem buildBr_atomic {dest : Block} : Atomic (buildBr site dest) c :=
  .get_bind (.ask fun _ _ => emit_atomic)

/-- A rejected conditional branch leaves the context as it was. -/
theorem buildCondBr_atomic {cond : Value} {ifTrue ifFalse : Block} :
    Atomic (buildCondBr site cond ifTrue ifFalse) c :=
  .get_bind (.ask fun _ _ => .ask_fault fun _ _ => .guard fun _ => emit_atomic)

/-- A rejected switch leaves the context as it was. -/
theorem buildSwitch_atomic {cond : Value} {dest : Block} :
    Atomic (buildSwitch site cond dest) c :=
  .get_bind (.ask fun _ _ => .ask_fault fun _ _ => .ask_fault fun _ _ => .guard fun _ =>
    emit_atomic)

/-- A rejected unreachable leaves the context as it was. -/
theorem buildUnreachable_atomic : Atomic (buildUnreachable site) c := .get_bind emit_atomic

/-- A rejected phi leaves the context as it was. -/
theorem buildPhi_atomic : Atomic (buildPhi site ty) c :=
  .get_bind (.ask fun _ _ => .ask_fault fun _ _ => .guard fun _ => emit_atomic)

/-- A rejected call leaves the context as it was. -/
theorem buildCall_atomic {callee : Value} {args : List Value} :
    Atomic (buildCall site callee args) c := by
  refine .get_bind (.ask fun _ _ => .ask fun _ _ => .ask_fault fun d _ => ?_)
  split
  · exact .guard fun _ => .ask fun _ _ => emit_atomic
  · exact .reject

/-! ## Arithmetic and casts -/

/-- A rejected binary operation leaves the context as it was. -/
theorem buildBinary_atomic {opcode : Opcode} {lhs rhs : Value} :
    Atomic (buildBinary site opcode lhs rhs) c := by
  unfold buildBinary
  split
  · refine .get_bind (.ask fun _ _ => .ask_fault fun _ _ => .ask_fault fun _ _ => .guard fun _ => ?_)
    split
    · exact .ask_fault fun _ _ => .guard fun _ => emit_atomic
    · exact .ask_fault fun _ _ => .guard fun _ => emit_atomic
  · exact .reject

/-- A rejected request for a comparison's type leaves the context as it was. -/
theorem boolLike_atomic : Atomic (boolLike ty) c := by
  refine .get_bind (.ask_fault fun s _ => ?_)
  split
  · exact onTypes_atomic (TypeTable.vectorType_atomic _ _ _)
  · exact .of_firm .pure

/-- After the type of a comparison is made, the comparison is emitted. -/
theorem emitComparison_atomic (hs : c.Sound) {operand : Ty} {a : Unit}
    (point : c.checkPoint site.point = .ok a) :
    Atomic (do emit site (← boolLike operand) op operands : Run Context (Handle cls)) c := by
  refine .bind boolLike_atomic fun result c' hb => ?_
  have hs' := hs.supplies (boolLike_supply result c' hb)
  obtain ⟨types, rfl, -, like⟩ := boolLike_ok hs hb
  refine emit_firm point rfl rfl ?_
  rcases like with ⟨elem, lanes, -, hr⟩ | ⟨d, -, -, rfl⟩
  · exact ne_void hs'.types hr nofun
  · nofun

/-- A rejected integer comparison leaves the context as it was. -/
theorem buildIcmp_atomic (hs : c.Sound) {pred : IntPredicate} {lhs rhs : Value} :
    Atomic (buildIcmp site pred lhs rhs) c :=
  .get_bind (.ask fun _ _ => .ask_fault fun _ _ => .ask_fault fun _ _ => .guard fun _ =>
    .ask_fault fun _ _ => .guard fun _ => .ask fun _ hp => emitComparison_atomic hs hp)

/-- A rejected float comparison leaves the context as it was. -/
theorem buildFcmp_atomic (hs : c.Sound) {pred : FloatPredicate} {lhs rhs : Value} :
    Atomic (buildFcmp site pred lhs rhs) c :=
  .get_bind (.ask fun _ _ => .ask_fault fun _ _ => .ask_fault fun _ _ => .guard fun _ =>
    .ask_fault fun _ _ => .guard fun _ => .ask fun _ hp => emitComparison_atomic hs hp)

/-- A rejected select leaves the context as it was. -/
theorem buildSelect_atomic {cond ifTrue ifFalse : Value} :
    Atomic (buildSelect site cond ifTrue ifFalse) c :=
  .get_bind (.ask fun _ _ => .ask_fault fun _ _ => .guard fun _ => .ask_fault fun _ _ =>
    .ask_fault fun _ _ => .guard fun _ => .ask_fault fun _ _ => .guard fun _ => emit_atomic)

/-- A rejected cast leaves the context as it was. -/
theorem buildCast_atomic {opcode : Opcode} {value : Value} :
    Atomic (buildCast site opcode value ty) c := by
  unfold buildCast
  split
  · exact .get_bind (.ask fun _ _ => .ask fun _ _ => .ask_fault fun _ _ => .ask_fault fun _ _ =>
      .guard fun _ => emit_atomic)
  · exact .reject

/-! ## Memory -/

/-- A rejected load leaves the context as it was. -/
theorem buildLoad_atomic {ptr : Value} : Atomic (buildLoad site ptr) c :=
  .get_bind (.ask fun _ _ => .ask fun _ _ => .ask_fault fun _ _ => .guard fun _ => emit_atomic)

/-- A rejected store leaves the context as it was. -/
theorem buildStore_atomic {value ptr : Value} : Atomic (buildStore site value ptr) c :=
  .get_bind (.ask fun _ _ => .ask fun _ _ => .ask_fault fun _ _ => .guard fun _ =>
    .ask_fault fun _ _ => .guard fun _ => emit_atomic)

/-- A pointer type that has just been made is not `void`. -/
theorem pointerType_ne_void (hs : c.Sound) {pointee ptr : Ty} {space : Nat} {types : TypeTable}
    (h : TypeTable.pointerType pointee space c.types = .ok ptr types) :
    types.WellFormed ∧ c.types.GrowsTo types ∧ ptr ≠ types.void := by
  have gets := TypeTable.pointerType_gets pointee space
  have wf : types.WellFormed := by
    have := TypeTable.Change.wellFormed (.enter rfl (gets.eq_ok_iff.1 h).1) hs.types
    rwa [(gets.eq_ok_iff.1 h).2] at this
  exact ⟨wf, gets.growsTo h, ne_void wf (gets.data? hs.types h) nofun⟩

/-- A rejected element pointer leaves the context as it was. -/
theorem buildElementPtr_atomic (hs : c.Sound) {ptr : Value} {indices : List Value}
    {inbounds : Bool} : Atomic (buildElementPtr site ptr indices inbounds) c := by
  refine .get_bind (.ask fun _ _ => .ask fun x _ => ?_)
  obtain ⟨source, space⟩ := x
  dsimp only
  split
  · exact .reject_bind
  · refine .ask fun _ _ => .ask fun target _ => .ask fun _ point => ?_
    refine .bind (onTypes_atomic (TypeTable.pointerType_atomic _ _ _)) fun _ c' h => ?_
    obtain ⟨types, ht, rfl⟩ := onTypes_ok h
    exact emit_firm point rfl rfl (pointerType_ne_void hs ht).2.2

/-- The constant one of type `i32` is not refused. -/
theorem constInt_firm {int : Ty} {x width : Nat} (h : c.types.data? int = some (.integer width))
    (hw : width ≤ 64) : Firm (constInt int x) c := by
  refine .get_bind (.ask ?_ fun _ _ => .ask_fault fun d hd => ?_)
  · intro e he
    have := (TypeTable.check_eq_ok_iff (a := ())).2 (TypeTable.ctx_of_data? h)
    rw [he] at this
    cases this
  · rw [TypeTable.data_eq_ok_iff, h] at hd
    cases hd
    dsimp only
    rw [if_pos hw]
    exact constantHandle_avoids

/-- A rejected alloca leaves the context as it was. -/
theorem buildAlloca_atomic (hs : c.Sound) {size : Option Value} :
    Atomic (buildAlloca site ty size) c := by
  refine .get_bind (.ask fun _ _ => ?_)
  cases size with
  | some n =>
    refine .ask fun _ _ => .ask_fault fun _ _ => .ask_fault fun _ _ => .guard fun _ => ?_
    refine .ask_fault fun _ _ => .guard fun _ => .ask fun _ point => ?_
    refine .bind (onTypes_atomic (TypeTable.pointerType_atomic _ _ _)) fun _ c' h => ?_
    obtain ⟨types, ht, rfl⟩ := onTypes_ok h
    exact emit_firm point rfl rfl (pointerType_ne_void hs ht).2.2
  | none =>
    refine .ask_fault fun _ _ => .guard fun _ => .ask fun _ point => ?_
    refine .bind (onTypes_atomic (TypeTable.pointerType_atomic _ _ _)) fun _ c' h => ?_
    obtain ⟨types, ht, rfl⟩ := onTypes_ok h
    -- Once the pointer type is made nothing may reject any more: the constant and the instruction
    -- are firm.
    obtain ⟨wf, grows, hne⟩ := pointerType_ne_void hs ht
    have int32 : types.data? c.types.int32 = some (.integer 32) :=
      grows.structural (hs.types.primitive rfl) rfl
    refine .bind (constInt_firm (c := { c with types }) int32 (by decide)) fun one c₂ hone => ?_
    obtain ⟨width, -, -, hk⟩ := constInt_ok hone
    obtain ⟨htypes, hlayout, hctx⟩ := constant_frame hk
    exact emit_firm point hctx hlayout (by rwa [htypes])

end Context

end SsaGraph
