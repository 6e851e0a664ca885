import SsaGraph.Proofs.Safety

/-!
# Handles of other contexts are refused

Each request checks its handles before it makes use of them, and a check rejects a handle of another
context. So a request that is made with handles of which at least one is foreign, while those that
are not are live, is rejected (`Request.run_refuses`). Two requests have a handle that they do not
check: `addCase` and `addIncoming` ask for the type of their instruction right away, which is a
fault if the instruction is foreign. These end the run (`Request.run_misdirected`), unless another
of their handles is foreign too.

A factory checks its operands first and its place last. If an operand is foreign, the factory is
rejected at once. If only the place is, the factory is as calm as with a place of its own, and it
cannot succeed, since it would have emitted its instruction there.
-/

namespace SsaGraph

open Run (Calm Refuses)

/-! ## Checks -/

namespace Run.Refuses

variable {σ β : Type} {c : Context} {s : σ} {f : Unit → Run σ β}

/-- The check of a foreign value. -/
theorem foreignValue {v : Value} (foreign : v.ctx ≠ c.graph.ctx) :
    Refuses (liftM (c.check v) >>= f) s := by
  have known : c.Knows .value v := fun own => absurd own foreign
  exact .ask known.check_calm fun _ h => absurd (Context.ctx_of_check h) foreign

/-- The check of a foreign type. -/
theorem foreignType {t : TypeTable} {ty : Ty} (foreign : ty.ctx ≠ t.ctx) :
    Refuses (liftM (t.check ty) >>= f) s :=
  .ask TypeTable.check_calm fun _ h => absurd (TypeTable.check_eq_ok_iff.1 h) foreign

/-- A check of values of which one is foreign. -/
theorem foreignValues {ms : List (Class × Value)} {vs : List Value} (same : ms.map Prod.snd = vs)
    (known : ∀ m ∈ ms, c.Knows m.1 m.2) (foreign : ¬ ∀ m ∈ ms, m.2.ctx = c.graph.ctx) :
    Refuses (liftM (c.checkAll vs) >>= f) s := by
  subst same
  refine .ask (.forM fun v hv => ?_) fun _ h => absurd (fun m hm => ?_) foreign
  · obtain ⟨m, hm, rfl⟩ := List.mem_map.1 hv
    exact (known m hm).check_calm
  · simp only [Context.checkAll, List.forM_eq_forM, Question.forM_eq_ok_iff] at h
    exact Context.ctx_of_check (h m.2 (List.mem_map_of_mem hm))

end Run.Refuses

/-! ## Types -/

namespace TypeTable

variable {t : TypeTable} {ty : Ty} {σ β : Type} {s : σ} {f : Unit → Run σ β}

/-- A part that fits belongs to the table. -/
theorem PartFits.ctx_eq {fits : TypeKind → Bool} (h : t.PartFits fits ty) : ty.ctx = t.ctx := by
  obtain ⟨d, hd, -⟩ := h
  exact ctx_of_data? hd

/-- A request that checks a foreign part first is rejected. -/
theorem checkPart_refuses {fits : TypeKind → Bool} {err : String → Error}
    (foreign : ty.ctx ≠ t.ctx) : Refuses (liftM (t.checkPart fits err ty) >>= f) s := by
  have known : t.Knows ty := fun own => absurd own foreign
  exact .ask (checkPart_calm known) fun _ h => absurd (checkPart_eq_ok_iff.1 h).ctx_eq foreign

/-- A request that checks fields first is rejected if one of them is foreign. -/
theorem checkFields_refuses {fields : List Ty} (known : ∀ ty ∈ fields, t.Knows ty)
    (foreign : ¬ ∀ ty ∈ fields, ty.ctx = t.ctx) :
    Refuses (liftM (t.checkFields fields) >>= f) s :=
  .ask (checkFields_calm known) fun _ h =>
    absurd (fun ty hty => (checkFields_eq_ok_iff.1 h ty hty).ctx_eq) foreign

/-- A function type with a foreign part is rejected. -/
theorem functionType_refuses {ret : Ty} {params : List Ty} {varArg : Bool}
    (known : ∀ ty ∈ ret :: params, t.Knows ty) (foreign : ¬ ∀ ty ∈ ret :: params, ty.ctx = t.ctx) :
    Refuses (functionType ret params varArg) t := by
  rw [List.forall_mem_cons] at known foreign
  refine .get_bind (.ask (checkPart_calm known.1) fun _ h => ?_)
  refine .ask (checkParts_calm known.2) fun _ h' => absurd ⟨?_, fun ty hty => ?_⟩ foreign
  · exact (checkPart_eq_ok_iff.1 h).ctx_eq
  · exact (checkParts_eq_ok_iff.1 h' ty hty).ctx_eq

/-- No vector is derived from a foreign type. -/
theorem deriveVector_refuses (how : VectorDerivation) (foreign : ty.ctx ≠ t.ctx) :
    Refuses (how.run ty) t := by
  have shape : ∀ {f : Ty × Nat × Nat → Run TypeTable Ty},
      Refuses (liftM (t.vectorShape ty) >>= f) t := by
    intro f
    refine .ask (.bind check_calm fun _ own => ?_) fun x h => ?_
    · exact absurd (check_eq_ok_iff.1 own) foreign
    · exact absurd (ctx_of_data? (vectorShape_ok h).1) foreign
  cases how <;> exact .get_bind shape

/-- The struct may be own while a field is foreign; then it is rejected as what it is, or for the
field. -/
theorem setStructBody_refuses {fields : List Ty} {packed : Bool}
    (known : ∀ ty' ∈ ty :: fields, t.Knows ty')
    (foreign : ¬ ∀ ty' ∈ ty :: fields, ty'.ctx = t.ctx) :
    Refuses (setStructBody ty fields packed) t := by
  rw [List.forall_mem_cons] at known foreign
  refine .get_bind (.ask check_calm fun _ own => ?_)
  have own := check_eq_ok_iff.1 own
  refine .answered (known.1 own).data fun d _ => ?_
  split
  · exact .reject
  · exact checkFields_refuses known.2 fun fields => foreign ⟨own, fields⟩
  · exact .reject

end TypeTable

/-! ## Values -/

namespace Context

variable {c : Context} {σ β : Type} {s : σ} {k : Unit → Run σ β}

/-- A place that passed the check is one of the context. -/
theorem ctx_of_checkPoint {point : InsertPoint} {a : Unit} (h : c.checkPoint point = .ok a) :
    ∀ m ∈ point.mentions, m.2.ctx = c.graph.ctx := by
  cases point with
  | detached => nofun
  | before anchor =>
    obtain ⟨_, h, -⟩ := Question.bind_eq_ok_iff.1 h
    exact List.forall_mem_singleton.2 (ctx_of_check h)
  | atEnd b => exact List.forall_mem_singleton.2 (ctx_of_check h)

/-- A place before a foreign instruction is rejected. -/
theorem checkPoint_refuses {anchor : Instruction} (foreign : anchor.value.ctx ≠ c.graph.ctx) :
    Refuses (liftM (c.checkPoint (.before anchor)) >>= k) s := by
  refine .ask (checkPoint_calm ?_) fun _ h => ?_
  · exact List.forall_mem_singleton.2 fun own => absurd own foreign
  · exact absurd (ctx_of_checkPoint h _ (.head _)) foreign

/-- A foreign block does not pass for a detached one. -/
theorem checkDetachedBlock_refuses {b : Block} (foreign : b.value.ctx ≠ c.graph.ctx) :
    Refuses (liftM (c.checkDetachedBlock b) >>= k) s := by
  have known : c.Knows .block b.value := fun own => absurd own foreign
  refine .ask (.bind known.check_calm fun _ h => ?_) fun _ h => ?_
  · exact absurd (ctx_of_check h) foreign
  · exact absurd (ctx_of_check (checkDetachedBlock_eq_ok h).1) foreign

/-- An instruction may be rejected because it is in a block. -/
theorem checkDetached_ask {i : Instruction} (known : c.Knows .instruction i.value)
    (rest : i.value.ctx = c.graph.ctx → Refuses (k ()) s) :
    Refuses (liftM (c.checkDetached i) >>= k) s := by
  refine .ask (.bind known.check_calm fun _ _ => .guard_last fun _ => .pure) fun _ h => ?_
  exact rest (ctx_of_check (checkDetached_eq_ok h).1)

/-- Setting an operand is rejected if the user or the target is foreign. -/
theorem setOperand_refuses {user : Value} {index : Nat} {target : Option Value}
    (known : ∀ m ∈ (Class.value, user) :: target.toList.map (Class.value, ·), c.Knows m.1 m.2)
    (foreign : ¬ ∀ m ∈ (Class.value, user) :: target.toList.map (Class.value, ·),
      m.2.ctx = c.graph.ctx) : Refuses (setOperand user index target) c := by
  rw [List.forall_mem_cons] at known foreign
  refine .get_bind (.ask known.1.check_calm fun _ h => ?_)
  refine .foreignValues ?_ known.2 fun targets => foreign ⟨ctx_of_check h, targets⟩
  simp [Function.comp_def]

/-- Two values are checked one after the other. -/
theorem checks_refuse {cls : Class} {v w : Value} (known : c.Knows cls v)
    (foreign : ¬ (v.ctx = c.graph.ctx ∧ w.ctx = c.graph.ctx)) :
    Refuses (do liftM (c.check v); liftM (c.check w) >>= k) s :=
  .ask known.check_calm fun _ h => .foreignValue fun own => foreign ⟨ctx_of_check h, own⟩

/-- A block is checked after a block or a function. -/
theorem blocks_refuse {cls : Class} {v : Value} {b : Block} (known : c.Knows cls v)
    (foreign : ¬ (v.ctx = c.graph.ctx ∧ b.value.ctx = c.graph.ctx)) :
    Refuses (do liftM (c.check v); liftM (c.checkDetachedBlock b) >>= k) s :=
  .ask known.check_calm fun _ h =>
    checkDetachedBlock_refuses fun own => foreign ⟨ctx_of_check h, own⟩

/-- Moving an instruction is rejected if it or its anchor is foreign. -/
theorem moveBefore_refuses {i anchor : Instruction} (known : c.Knows .instruction i.value)
    (foreign : ¬ (i.value.ctx = c.graph.ctx ∧ anchor.value.ctx = c.graph.ctx)) :
    Refuses (moveBefore i anchor) c := by
  refine .get_bind (.ask known.check_calm fun _ h => ?_)
  split
  · exact .bind .reject
  · exact checkPoint_refuses fun own => foreign ⟨ctx_of_check h, own⟩

/-! ## The handle that is not checked -/

/-- A foreign value has no data here. -/
theorem valueData_foreign (hs : c.Sound) {v : Value} (foreign : v.ctx ≠ c.graph.ctx) :
    c.valueData v = .error (.foreignValue v) := by
  rw [hs.graphCtx] at foreign
  exact if_pos foreign

/-- Adding a case to a foreign switch ends in a fatal error. -/
theorem addCase_foreign {i : Handle .switch} {value : Handle .intConstant} {dest : Block}
    {a b : Class} (hs : c.Sound) (hv : c.graph.Has a value.value) (hd : c.graph.Has b dest.value)
    (foreign : i.value.ctx ≠ c.graph.ctx) :
    addCase i value dest c = .error (.fatal (.foreignValue i.value)) c := by
  have asked : c.switchType i = .error (.foreignValue i.value) := by
    rw [switchType, switchCondition, operandAt, valueData_foreign hs foreign]
    rfl
  have checked : c.check value.value = .ok () := check_eq_ok_iff.2 hv.value?
  have checked' : c.check dest.value = .ok () := check_eq_ok_iff.2 hd.value?
  simp only [addCase, Run.bind_apply, Run.get_apply, Run.question_apply, Run.faulting_apply, checked,
    checked', asked]

/-- Adding an incoming edge to a foreign phi ends in a fatal error. -/
theorem addIncoming_foreign {p : Handle .phi} {value : Value} {dest : Block} {a b : Class}
    (hs : c.Sound) (hv : c.graph.Has a value) (hd : c.graph.Has b dest.value)
    (foreign : p.value.ctx ≠ c.graph.ctx) :
    addIncoming p value dest c = .error (.fatal (.foreignValue p.value)) c := by
  have asked : c.typeOf p.value = .error (.foreignValue p.value) := by
    rw [typeOf, valueData_foreign hs foreign]
    rfl
  obtain ⟨ty, hty⟩ := hv.typeOf hs
  have checked : c.check value = .ok () := check_eq_ok_iff.2 hv.value?
  have checked' : c.check dest.value = .ok () := check_eq_ok_iff.2 hd.value?
  simp only [addIncoming, Run.bind_apply, Run.get_apply, Run.question_apply, Run.faulting_apply,
    checked, checked', hty, asked]

/-! ## Factories -/

/-- What emits an instruction has accepted its place. -/
theorem checkPoint_of_emit {cls : Class} {site : Site} {ty : Ty} {op : Operation}
    {operands : List (Option Value)} {h : Handle cls} {c' : Context}
    (run : emit site ty op operands c = .ok h c') : ∃ a, c.checkPoint site.point = .ok a := by
  simp only [emit, Run.bind_eq_ok_iff, Run.get_apply, Run.question_eq_ok_iff] at run
  obtain ⟨_, _, h₀, a, _, ⟨checked, rfl⟩, -⟩ := run
  cases h₀
  exact ⟨a, checked⟩

/-- The handles of a factory: its operands and types are checked first, and its place last. -/
theorem Builds.refuses {cls : Class} {ok : Prop} {site : Site} {m : Run Context (Handle cls)}
    {operands : List (Class × Value)} {types : List Ty} (builds : Builds Supply ok site m c)
    (known : ∀ m ∈ site.point.mentions ++ operands, c.Knows m.1 m.2)
    (types_known : ∀ ty ∈ types, c.types.Knows ty)
    (foreign : ¬ ((∀ m ∈ site.point.mentions ++ operands, m.2.ctx = c.graph.ctx) ∧
      ∀ ty ∈ types, ty.ctx = c.types.ctx))
    (first : ¬ ((∀ m ∈ operands, m.2.ctx = c.graph.ctx) ∧ ∀ ty ∈ types, ty.ctx = c.types.ctx) →
      (∀ m ∈ operands, c.Knows m.1 m.2) → Refuses m c)
    (calm : (∀ m ∈ site.point.mentions, c.Knows m.1 m.2) → (∀ m ∈ operands, c.graph.Has m.1 m.2) →
      (∀ ty ∈ types, c.types.Has ty) → Calm m c) : Refuses m c := by
  obtain ⟨point, rest⟩ := List.forall_mem_append.1 known
  by_cases own : (∀ m ∈ operands, m.2.ctx = c.graph.ctx) ∧ ∀ ty ∈ types, ty.ctx = c.types.ctx
  · refine .of_calm (calm point (fun m hm => rest m hm (own.1 m hm))
      fun ty hty => types_known ty hty (own.2 ty hty)) fun h c' run => ?_
    -- What was emitted went to a place of the context, and then no handle is foreign.
    obtain ⟨c₁, ty, op, values, chain, -, -, -, emitted⟩ := builds h c' run
    obtain ⟨a, checked⟩ := checkPoint_of_emit emitted
    have place := ctx_of_checkPoint checked
    rw [ctx_of_supplies chain] at place
    exact foreign ⟨List.forall_mem_append.2 ⟨place, own.1⟩, own.2⟩
  · exact first own rest

end Context

/-! ## Single requests -/

namespace Request

open Context

variable {c : Context} {r : Request}

/-- A request for a type is rejected if its run is. -/
theorem typed_refuses {m : Run TypeTable Ty} (h : Refuses m c.types) : Refuses (typed m) c :=
  .bind (.on h)

/-- A request for a value is rejected if its run is. -/
theorem valued_refuses {cls : Class} {m : Run Context (Handle cls)} (h : Refuses m c) :
    Refuses (valued m) c :=
  .bind h

/-- A request without an answer is rejected if its run is. -/
theorem silent_refuses {m : Run Context Unit} (h : Refuses m c) : Refuses (silent m) c := .bind h

/-- A request that answers with a parent is rejected if its run is. -/
theorem parental_refuses {cls : Class} {m : Run Context (Option (Handle cls))} (h : Refuses m c) :
    Refuses (parental m) c :=
  .bind h

/-- A request for a type or a constant mentions no values. -/
theorem mentions_of_supply (hr : r.isSupply = true) : r.mentions = [] := by
  cases r <;> first | rfl | cases hr

section

variable (values : ∀ m ∈ r.mentions, c.Knows m.1 m.2) (types : ∀ ty ∈ r.types, c.types.Knows ty)
  (foreign : ¬ ((∀ m ∈ r.mentions, m.2.ctx = c.graph.ctx) ∧ ∀ ty ∈ r.types, ty.ctx = c.types.ctx))

include values types foreign

/-- An instruction is not made from foreign parts. -/
theorem factory_refuses (hs : c.Sound) (hi : c.Intact) (hr : r.isFactory = true) :
    Refuses r.run c := by
  -- If a type or the first operands are foreign, the request stops at them; otherwise the place is
  -- foreign, and what comes before it is calm.
  cases r with
  | ret site value =>
    refine valued_refuses ((buildRet_builds hs).toSupply.refuses values types foreign
      (fun first _ => ?_) fun point rest _ => ?_)
    · cases value with
      | none => simp [Request.types] at first
      | some v => exact .get_bind (.foreignValue (by simpa [Request.types] using first))
    · exact buildRet_calm hs hi point fun v hv => rest (.value, v) (by simpa using hv)
  | br site dest =>
    refine valued_refuses ((buildBr_builds hs).toSupply.refuses values types foreign
      (fun first _ => ?_) fun point rest _ => ?_)
    · exact .get_bind (.foreignValue (by simpa [Request.types] using first))
    · exact buildBr_calm hs hi point (rest (.block, dest.value) (by simp))
  | condBr site cond ifTrue ifFalse =>
    refine valued_refuses ((buildCondBr_builds hs).toSupply.refuses values types foreign
      (fun first known => ?_) fun point rest _ => ?_)
    · exact .get_bind (.foreignValues rfl known (by simpa [Request.types] using first))
    · exact buildCondBr_calm hs hi point (rest (.value, cond) (by simp))
        (rest (.block, ifTrue.value) (by simp)) (rest (.block, ifFalse.value) (by simp))
  | switch site cond dest =>
    refine valued_refuses ((buildSwitch_builds hs).toSupply.refuses values types foreign
      (fun first known => ?_) fun point rest _ => ?_)
    · exact .get_bind (.foreignValues rfl known (by simpa [Request.types] using first))
    · exact buildSwitch_calm hs hi point (rest (.value, cond) (by simp))
        (rest (.block, dest.value) (by simp))
  | unreachable site =>
    have values : ∀ m ∈ site.point.mentions ++ [], c.Knows m.1 m.2 := by
      simpa [Request.mentions] using values
    refine valued_refuses ((buildUnreachable_builds hs).toSupply.refuses values types
      (by simpa [Request.mentions] using foreign) (fun first _ => ?_) fun point _ _ => ?_)
    · simp [Request.types] at first
    · exact buildUnreachable_calm hs hi point
  | binary site op lhs rhs =>
    refine valued_refuses (buildBinary_builds.toSupply.refuses values types foreign
      (fun first known => ?_) fun point rest _ => ?_)
    · unfold buildBinary
      split
      · exact .get_bind (.foreignValues rfl known (by simpa [Request.types] using first))
      · exact .reject
    · exact buildBinary_calm hs hi point (rest (.value, lhs) (by simp))
        (rest (.value, rhs) (by simp))
  | alloca site ty size =>
    have builds : Builds Supply c.Pooled site (buildAlloca site ty size) c := by
      cases size with
      | none => exact (buildAlloca_builds hs).mono fun _ _ => Stocks.supply
      | some n => exact (buildAlloca_sized_builds hs).toSupply
    refine valued_refuses (builds.refuses values types foreign (fun first _ => ?_)
      fun point rest typed => ?_)
    · -- The type comes first, and then the size.
      refine .get_bind (.ask TypeTable.check_calm fun _ own => ?_)
      rw [TypeTable.check_eq_ok_iff] at own
      cases size with
      | none => simp [Request.types, own] at first
      | some n => exact .foreignValue (by simpa [Request.types, own] using first)
    · exact buildAlloca_calm hs hi point (typed _ (.head _))
        fun v hv => rest (.value, v) (by simpa using hv)
  | load site ptr =>
    refine valued_refuses (buildLoad_builds.toSupply.refuses values types foreign
      (fun first _ => ?_) fun point rest _ => ?_)
    · exact .get_bind (.foreignValue (by simpa [Request.types] using first))
    · exact buildLoad_calm hs hi point (rest (.value, ptr) (by simp))
  | store site value ptr =>
    refine valued_refuses ((buildStore_builds hs).toSupply.refuses values types foreign
      (fun first known => ?_) fun point rest _ => ?_)
    · exact .get_bind (.foreignValues rfl known (by simpa [Request.types] using first))
    · exact buildStore_calm hs hi point (rest (.value, value) (by simp))
        (rest (.value, ptr) (by simp))
  | elementPtr site ptr indices inbounds =>
    refine valued_refuses ((buildElementPtr_builds hs).toSupply.refuses values types foreign
      (fun first known => ?_) fun point rest _ => ?_)
    · refine .get_bind (.foreignValues ?_ known (by simpa [Request.types] using first))
      simp [Function.comp_def]
    · exact buildElementPtr_calm hs hi point (rest (.value, ptr) (by simp))
        fun v hv => rest (.value, v) (by simp [hv])
  | cast site op value ty =>
    refine valued_refuses (buildCast_builds.toSupply.refuses values types foreign
      (fun first known => ?_) fun point rest typed => ?_)
    · unfold buildCast
      split
      · -- The value is checked before the type, so a foreign type is met only after the value has
        -- passed.
        refine .get_bind (.ask (known _ (.head _)).check_calm fun _ h => .foreignType fun own => ?_)
        exact first (by simpa [Request.types, own] using ctx_of_check h)
      · exact .reject
    · exact buildCast_calm hs hi point (rest (.value, value) (by simp)) (typed _ (.head _))
  | icmp site pred lhs rhs =>
    refine valued_refuses ((buildIcmp_builds hs).toSupply.refuses values types foreign
      (fun first known => ?_) fun point rest _ => ?_)
    · exact .get_bind (.foreignValues rfl known (by simpa [Request.types] using first))
    · exact buildIcmp_calm hs hi point (rest (.value, lhs) (by simp)) (rest (.value, rhs) (by simp))
  | fcmp site pred lhs rhs =>
    refine valued_refuses ((buildFcmp_builds hs).toSupply.refuses values types foreign
      (fun first known => ?_) fun point rest _ => ?_)
    · exact .get_bind (.foreignValues rfl known (by simpa [Request.types] using first))
    · exact buildFcmp_calm hs hi point (rest (.value, lhs) (by simp)) (rest (.value, rhs) (by simp))
  | phi site ty =>
    have values : ∀ m ∈ site.point.mentions ++ [], c.Knows m.1 m.2 := by
      simpa [Request.mentions] using values
    refine valued_refuses (buildPhi_builds.toSupply.refuses values types
      (by simpa [Request.mentions] using foreign) (fun first _ => ?_) fun point _ typed => ?_)
    · exact .get_bind (.foreignType (by simpa [Request.types] using first))
    · exact buildPhi_calm hs hi point (typed _ (.head _))
  | call site callee args =>
    refine valued_refuses ((buildCall_builds hs).toSupply.refuses values types foreign
      (fun first known => ?_) fun point rest _ => ?_)
    · refine .get_bind (.foreignValues ?_ known (by simpa [Request.types] using first))
      simp [Function.comp_def]
    · exact buildCall_calm hs hi point (rest (.value, callee) (by simp))
        fun v hv => rest (.value, v) (by simp [hv])
  | select site cond ifTrue ifFalse =>
    refine valued_refuses (buildSelect_builds.toSupply.refuses values types foreign
      (fun first known => ?_) fun point rest _ => ?_)
    · exact .get_bind (.foreignValues rfl known (by simpa [Request.types] using first))
    · exact buildSelect_calm hs hi point (rest (.value, cond) (by simp))
        (rest (.value, ifTrue) (by simp)) (rest (.value, ifFalse) (by simp))
  | _ => cases hr

omit values in
/-- A request for a type or a constant is rejected if one of its types is foreign. -/
theorem supply_refuses (hr : r.isSupply = true) : Refuses r.run c := by
  -- Such a request mentions no values, so one of its types is foreign.
  rw [mentions_of_supply hr] at foreign
  have foreign : ¬ ∀ ty ∈ r.types, ty.ctx = c.types.ctx := fun own => foreign ⟨nofun, own⟩
  have single : ∀ {ty}, r.types = [ty] → ty.ctx ≠ c.types.ctx := by
    intro ty h own
    rw [h] at foreign
    exact foreign (List.forall_mem_singleton.2 own)
  cases r with
  | functionType ret params varArg =>
    exact typed_refuses (TypeTable.functionType_refuses types foreign)
  | pointerType pointee space =>
    exact typed_refuses (.get_bind (TypeTable.checkPart_refuses (single rfl)))
  | arrayType elem len =>
    exact typed_refuses (.get_bind (TypeTable.checkPart_refuses (single rfl)))
  | vectorType elem lanes => exact typed_refuses (.get_bind (.foreignType (single rfl)))
  | literalStruct fields packed =>
    exact typed_refuses (.get_bind (TypeTable.checkFields_refuses types foreign))
  | createStructWithBody name fields packed =>
    exact typed_refuses (.get_bind (TypeTable.checkFields_refuses types foreign))
  | setStructBody ty fields packed =>
    exact silent_refuses (.on (TypeTable.setStructBody_refuses types foreign))
  | setStructName ty name =>
    exact silent_refuses (.on (.get_bind (.foreignType (single rfl))))
  | deriveVector how ty => exact typed_refuses (TypeTable.deriveVector_refuses how (single rfl))
  | constInt ty x => exact valued_refuses (.get_bind (.foreignType (single rfl)))
  | constFloat ty bits => exact valued_refuses (.get_bind (.foreignType (single rfl)))
  | constNull ty => exact valued_refuses (.get_bind (.foreignType (single rfl)))
  | undef ty => exact valued_refuses (.get_bind (.foreignType (single rfl)))
  | integerType _ | createStruct _ | constBool _ => exact absurd nofun foreign
  | _ => cases hr

end

/-- The requests that can be rejected. Setting the marks of a call cannot: it finds the call or ends
the run. -/
def isFallible : Request → Bool
  | setTailCall _ _ | setCallingConv _ _ => false
  | _ => true

/-- The request adds operands of one context to an instruction of another. -/
inductive Misdirected (id : ContextId) : Request → Value → Prop
  | addCase {i : Handle .switch} {value : Handle .intConstant} {dest : Block}
    (receiver : i.value.ctx ≠ id) (value_own : value.value.ctx = id)
    (dest_own : dest.value.ctx = id) : Misdirected id (.addCase i value dest) i.value
  | addIncoming {i : Handle .phi} {value : Value} {b : Block} (receiver : i.value.ctx ≠ id)
    (value_own : value.ctx = id) (block_own : b.value.ctx = id) :
    Misdirected id (.addIncoming i value b) i.value

/-- A request with a foreign handle is rejected, unless it is one of the two that do not check the
handle. -/
theorem run_refuses (hs : c.Sound) (hi : c.Intact) (values : ∀ m ∈ r.mentions, c.Knows m.1 m.2)
    (types : ∀ ty ∈ r.types, c.types.Knows ty)
    (foreign : ¬ ((∀ m ∈ r.mentions, m.2.ctx = c.graph.ctx) ∧ ∀ ty ∈ r.types, ty.ctx = c.types.ctx))
    (fallible : r.isFallible = true) (directed : ∀ v, ¬ r.Misdirected c.graph.ctx v) :
    Refuses r.run c := by
  have untyped : r.types = [] → ¬ ∀ m ∈ r.mentions, m.2.ctx = c.graph.ctx := by
    intro h own
    rw [h] at foreign
    exact foreign ⟨own, List.forall_mem_nil _⟩
  have single : ∀ {m}, r.mentions = [m] → r.types = [] → m.2.ctx ≠ c.graph.ctx := by
    intro m h h' own
    refine untyped h' ?_
    rw [h]
    exact List.forall_mem_singleton.2 own
  have pair : ∀ {m m'}, r.mentions = [m, m'] → r.types = [] →
      ¬ (m.2.ctx = c.graph.ctx ∧ m'.2.ctx = c.graph.ctx) := by
    intro m m' h h' own
    refine untyped h' ?_
    rw [h]
    exact List.forall_mem_cons.2 ⟨own.1, List.forall_mem_singleton.2 own.2⟩
  -- Each request checks its handles in a fixed order, and the first foreign one ends it.
  cases hsupply : r.isSupply with
  | true => exact supply_refuses types foreign hsupply
  | false =>
    cases hfactory : r.isFactory with
    | true => exact factory_refuses values types foreign hs hi hfactory
    | false =>
      have other : (r.isFactory || r.isSupply) = false := by rw [hfactory, hsupply]; rfl
      cases r with
      | setName v name => exact silent_refuses (.get_bind (.foreignValue (single rfl rfl)))
      | setOperand user index target =>
        exact silent_refuses (setOperand_refuses values (untyped rfl))
      | replaceAllUses old new =>
        have known := values (.value, old) (by simp [mentions])
        exact silent_refuses (.get_bind (checks_refuse known (pair rfl rfl)))
      | dropAllUses v => exact silent_refuses (.get_bind (.foreignValue (single rfl rfl)))
      | dropAllReferences user => exact silent_refuses (.get_bind (.foreignValue (single rfl rfl)))
      | addCase i value dest =>
        have known := values (.intConstant, value.value) (by simp [mentions])
        refine silent_refuses (.get_bind (checks_refuse known fun own => ?_))
        -- Then the instruction is the only foreign handle.
        refine directed _ (.addCase (fun receiver => ?_) own.1 own.2)
        exact untyped rfl (by simp [mentions, receiver, own])
      | addIncoming i value b =>
        have known := values (.value, value) (by simp [mentions])
        refine silent_refuses (.get_bind (checks_refuse known fun own => ?_))
        refine directed _ (.addIncoming (fun receiver => ?_) own.1 own.2)
        exact untyped rfl (by simp [mentions, receiver, own])
      | newFunction name ty =>
        refine valued_refuses (.get_bind (.foreignType fun own => foreign ?_))
        exact ⟨List.forall_mem_nil _, List.forall_mem_singleton.2 own⟩
      | newBlock name => exact absurd (List.forall_mem_nil _) (untyped rfl)
      | appendBlock f b =>
        have known := values (.function, f.value) (by simp [mentions])
        exact silent_refuses (.get_bind (blocks_refuse known (pair rfl rfl)))
      | insertBlock anchor b =>
        have known := values (.block, anchor.value) (by simp [mentions])
        exact silent_refuses (.get_bind (blocks_refuse known (pair rfl rfl)))
      | removeBlock b => exact parental_refuses (.get_bind (.foreignValue (single rfl rfl)))
      | removeInstruction i => exact parental_refuses (.get_bind (.foreignValue (single rfl rfl)))
      | insertInstruction i anchor =>
        have known := values (.instruction, i.value) (by simp [mentions])
        refine silent_refuses (.get_bind (checkDetached_ask known fun own => ?_))
        exact checkPoint_refuses fun own' => pair rfl rfl ⟨own, own'⟩
      | appendInstruction i b =>
        have known := values (.instruction, i.value) (by simp [mentions])
        refine silent_refuses (.get_bind (checkDetached_ask known fun own => ?_))
        exact .foreignValue fun own' => pair rfl rfl ⟨own, own'⟩
      | moveBefore i anchor =>
        have known := values (.instruction, i.value) (by simp [mentions])
        exact silent_refuses (moveBefore_refuses known (pair rfl rfl))
      | moveToEnd i b =>
        have known := values (.instruction, i.value) (by simp [mentions])
        exact silent_refuses (.get_bind (checks_refuse known (pair rfl rfl)))
      -- Erasing checks its one handle before anything else.
      | eraseInstruction i => exact silent_refuses (.get_bind (.foreignValue (single rfl rfl)))
      | eraseBlock b => exact silent_refuses (.get_bind (.foreignValue (single rfl rfl)))
      | eraseFunction f => exact silent_refuses (.get_bind (.foreignValue (single rfl rfl)))
      | eraseValue v => exact silent_refuses (.get_bind (.foreignValue (single rfl rfl)))
      | setTailCall _ _ | setCallingConv _ _ => cases fallible
      | _ => cases other

/-- The two requests that do not check their instruction end the run if it is foreign. -/
theorem run_misdirected {v : Value} (hs : c.Sound)
    (values : ∀ m ∈ r.mentions, c.Knows m.1 m.2) (misdirected : r.Misdirected c.graph.ctx v) :
    r.run c = .error (.fatal (.foreignValue v)) c := by
  cases misdirected with
  | @addCase i value dest receiver value_own dest_own =>
    have hv := values (.intConstant, value.value) (by simp [mentions]) value_own
    have hd := values (.block, dest.value) (by simp [mentions]) dest_own
    simp only [Request.run, silent, Run.bind_apply, addCase_foreign hs hv hd receiver]
  | @addIncoming i value b receiver value_own block_own =>
    have hv := values (.value, value) (by simp [mentions]) value_own
    have hd := values (.block, b.value) (by simp [mentions]) block_own
    simp only [Request.run, silent, Run.bind_apply, addIncoming_foreign hs hv hd receiver]

end Request

end SsaGraph
