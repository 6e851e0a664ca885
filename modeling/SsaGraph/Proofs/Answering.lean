import SsaGraph.Proofs.Integrity
import SsaGraph.Proofs.Pool

/-!
# Handles that are answered

Typed handles come from requests that create something or take it out of something else, and from
questions. None of them is checked on its way out: that it is of its class is told by where it was
found, or by what was created. Here it is shown to be true at that time, of requests by
`Request.run_answers` and of questions by `Context.Yields.isa`.
-/

namespace SsaGraph

/-- The value whose handle is the answer. -/
def Answer.handle? : Answer → Option Value
  | value v => some v
  | parent v => v
  | _ => none

namespace Context

variable {c c' : Context}

/-- A checked request on the layout. -/
theorem checked_onLayout_ok {α : Type} {v : Value} {m : Run Layout α} {a : α}
    (h : (do (← get).check v; onLayout m : Run Context α) c = .ok a c') :
    ∃ layout, m c.layout = .ok a layout ∧ c' = { c with layout } := by
  simp only [Run.bind_eq_ok_iff, Run.get_apply, Run.question_eq_ok_iff] at h
  obtain ⟨_, _, h₀, _, _, ⟨-, rfl⟩, run⟩ := h
  cases h₀
  exact Run.on_eq_ok_iff.1 run

/-- A block that is taken out of a function was in it. -/
theorem removeBlock_ok {b : Block} {f : Option Func} (h : removeBlock b c = .ok f c') :
    c.layout.parentFunction? b = f ∧ ∃ layout, c' = { c with layout } := by
  obtain ⟨layout, removed, rfl⟩ := checked_onLayout_ok h
  obtain ⟨bodies, left, rfl⟩ := Layout.onBodies_eq_ok_iff.1 removed
  exact ⟨(Nest.remove_eq_ok_iff.1 left).1, _, rfl⟩

/-- An instruction that is taken out of a block was in it. -/
theorem removeInstruction_ok {i : Instruction} {b : Option Block}
    (h : removeInstruction i c = .ok b c') :
    c.layout.parentBlock? i = b ∧ ∃ layout, c' = { c with layout } := by
  obtain ⟨layout, removed, rfl⟩ := checked_onLayout_ok h
  obtain ⟨contents, left, rfl⟩ := Layout.onContents_eq_ok_iff.1 removed
  exact ⟨(Nest.remove_eq_ok_iff.1 left).1, _, rfl⟩

end Context

/-! ## Requests -/

namespace Request

open Context

variable {c c' : Context} {r : Request} {a : Answer} {v : Value}

/-- The instruction that a factory built is of the class. -/
theorem run_factory_has (hs : c.Sound) (hf : r.isFactory = true) (run : r.run c = .ok a c')
    (ha : a.handle? = some v) : c'.graph.Has r.answerClass v := by
  obtain ⟨i, site, c₁, ty, op, operands, rfl, -, supplies, takes, -, emitted⟩ := run_emits hs hf run
  cases ha
  obtain ⟨g, _, built, rfl, placed⟩ := emit_ok emitted
  obtain ⟨layout, rfl⟩ := place_ok placed
  have gains := Graph.newUser_gains (hs.supplies (chain_of_supplies supplies)).graph built
  exact gains.has_iff.2 (.inr ⟨_, ⟨rfl, rfl⟩, takes.kind⟩)

/-- The class a constant's request answers in contains the constant it asks for. -/
theorem contains_of_constant? {t : TypeTable} {w : Wanted} (h : r.constant? t = some w) :
    r.answerClass.contains (.constant (w.content t)) = true := by
  cases r with
  | constInt _ _ | constBool _ | constFloat _ _ | constNull _ | undef _ =>
    cases h
    rfl
  | _ => cases h

/-- The constant that was asked for is of the class. -/
theorem run_constant_has (hs : c.Sound) (hi' : c'.Intact) {w : Wanted}
    (h : r.constant? c.types = some w) (run : r.run c = .ok a c') (ha : a.handle? = some v) :
    c'.graph.Has r.answerClass v := by
  obtain ⟨-, _, rfl, made⟩ := run_constant hs h run
  cases ha
  obtain ⟨name, hv⟩ := hi'.pool.entry.1 (constant_fills made).2
  exact ⟨_, hv, contains_of_constant? h⟩

/-- A new function has the class of functions. -/
theorem newFunction_has {name : String} {ty : Ty} {f : Func}
    (made : Context.newFunction name ty c = .ok f c') : c'.graph.Has .function f.value := by
  obtain ⟨ptr, types, ret, params, varArg, args, graph, -, -, -, -, gains, -, rfl⟩ :=
    newFunction_ok made
  exact gains.has_iff.2 (.inr ⟨_, .inl ⟨rfl, rfl⟩, rfl⟩)

/-- A new block has the class of blocks. -/
theorem newBlock_has {name : Option String} {b : Block}
    (made : Context.newBlock name c = .ok b c') : c'.graph.Has .block b.value := by
  obtain ⟨hb, rfl⟩ := newBlock_ok made
  have gains := Graph.gains_push c.graph c.types.label name .block
  rw [← hb] at gains
  exact gains.has_iff.2 (.inr ⟨_, ⟨rfl, rfl⟩, rfl⟩)

/-- A request for a type answers with no handle of a value. -/
theorem handle?_of_typed {m : Run TypeTable Ty} (run : typed m c = .ok a c') :
    a.handle? = none := by
  simp only [typed, Run.bind_eq_ok_iff, Run.pure_apply] at run
  obtain ⟨ty, _, -, h⟩ := run
  cases h
  rfl

/-- A request that answers nothing answers with no handle. -/
theorem handle?_of_silent {m : Run Context Unit} (run : silent m c = .ok a c') :
    a.handle? = none := by
  simp only [silent, Run.bind_eq_ok_iff, Run.pure_apply] at run
  obtain ⟨_, _, -, h⟩ := run
  cases h
  rfl

/-- A request for a parent that answers a handle got it, in its class, from the operation. -/
theorem some_of_parental {cls : Class} {m : Run Context (Option (Handle cls))}
    (run : parental m c = .ok a c') (ha : a.handle? = some v) :
    ∃ h : Handle cls, h.value = v ∧ m c = .ok (some h) c' := by
  obtain ⟨o, rfl, removed⟩ := parental_eq_ok run
  obtain ⟨h, rfl, rfl⟩ := Option.map_eq_some_iff.1 ha
  exact ⟨h, rfl, removed⟩

/-- Other requests are answered without a handle. -/
theorem handle?_eq_none (hr : r.answerClass = .value) (run : r.run c = .ok a c') :
    a.handle? = none := by
  cases r with
  | integerType _ | functionType _ _ _ | pointerType _ _ | arrayType _ _ | vectorType _ _
  | literalStruct _ _ | createStruct _ | createStructWithBody _ _ _ | deriveVector _ _ =>
    exact handle?_of_typed run
  | setStructBody _ _ _ | setStructName _ _ | setName _ _ | setOperand _ _ _ | replaceAllUses _ _
  | dropAllUses _ | dropAllReferences _ | addCase _ _ _ | addIncoming _ _ _ | setTailCall _ _
  | setCallingConv _ _ | appendBlock _ _ | insertBlock _ _ | insertInstruction _ _
  | appendInstruction _ _ | moveBefore _ _ | moveToEnd _ _ | eraseInstruction _ | eraseBlock _
  | eraseFunction _ | eraseValue _ =>
    exact handle?_of_silent run
  | _ => cases hr

/-- A handle that a request is answered with is that of a live value of its class. -/
theorem run_answers (hc : Context.ClassChecked c) (hc' : Context.ClassChecked c')
    (run : r.run c = .ok a c') (ha : a.handle? = some v) : c'.isa r.answerClass v = .ok true := by
  have hs := hc.sound
  have hs' := hc'.sound
  -- Where the class of the answer is the class of all values, the request answers no handle at all.
  by_cases hr : r.answerClass = .value
  · rw [handle?_eq_none hr run] at ha
    cases ha
  cases hf : r.isFactory with
  | true => exact (isa_eq_true_iff hs').2 (run_factory_has hs hf run ha)
  | false =>
    have other : (r.isFactory || decide (r.answerClass = .value)) = false := by
      rw [hf, decide_eq_false hr]
      rfl
    cases r with
    | constInt _ _ | constBool _ | constFloat _ _ | constNull _ | undef _ =>
      exact (isa_eq_true_iff hs').2 (run_constant_has hs hc'.intact rfl run ha)
    | newFunction name ty =>
      obtain ⟨f, rfl, made⟩ := valued_eq_ok run
      cases ha
      exact (isa_eq_true_iff hs').2 (newFunction_has made)
    | newBlock name =>
      obtain ⟨b, rfl, made⟩ := valued_eq_ok run
      cases ha
      exact (isa_eq_true_iff hs').2 (newBlock_has made)
    | removeBlock b =>
      -- What the block was in is alive, and still is.
      obtain ⟨f, rfl, removed⟩ := some_of_parental run ha
      obtain ⟨parent, layout, rfl⟩ := removeBlock_ok removed
      exact (hc.closed.parentFunctions parent).2.2
    | removeInstruction i =>
      obtain ⟨b, rfl, removed⟩ := some_of_parental run ha
      obtain ⟨parent, layout, rfl⟩ := removeInstruction_ok removed
      exact (hc.closed.parentBlocks parent).2.2
    | _ => cases other

end Request

/-! ## Questions -/

namespace Context

variable {c : Context}

/-- A question about the context has the handle as its answer, or as one of its answers. -/
inductive Yields (c : Context) : {cls : Class} → Handle cls → Prop
  -- narrowing
  | narrow {cls : Class} {v : Value} {h : Handle cls} : c.narrow cls v = .ok h → Yields c h
  | narrow? {cls : Class} {v : Value} {h : Handle cls} :
    c.narrow? cls v = .ok (some h) → Yields c h
  -- functions and arguments
  | getFunction? {name : String} {f : Func} : c.getFunction? name = some f → Yields c f
  | functions {f : Func} : f ∈ c.functions → Yields c f
  | args {f : Func} {fnType : Ty} {args : List Argument} {x : Argument} :
    c.functionData f = .ok (fnType, args) → x ∈ args → Yields c x
  | parent {x : Argument} {f : Func} {index : Nat} :
    c.argumentData x = .ok (f, index) → Yields c f
  -- blocks
  | blocks {f : Func} {b : Block} : b ∈ c.layout.blocks f → Yields c b
  | detachedBlocks {b : Block} : b ∈ c.detachedBlocks → Yields c b
  | entryBlock? {f : Func} {b : Block} : c.entryBlock? f = some b → Yields c b
  | nextBlock? {b b' : Block} : c.layout.nextBlock? b = some b' → Yields c b'
  | parentFunction? {b : Block} {f : Func} : c.layout.parentFunction? b = some f → Yields c f
  -- instructions
  | instructions {b : Block} {i : Instruction} : i ∈ c.layout.instructions b → Yields c i
  | front? {b : Block} {i : Instruction} : c.front? b = some i → Yields c i
  | back? {b : Block} {i : Instruction} : c.back? b = some i → Yields c i
  | terminator {b : Block} {i : Handle .terminator} :
    c.terminator b = .ok (some i) → Yields c i
  | nextInstruction? {i j : Instruction} : c.layout.nextInstruction? i = some j → Yields c j
  | prevInstruction? {i j : Instruction} : c.layout.prevInstruction? i = some j → Yields c j
  | parentBlock? {i : Instruction} {b : Block} : c.layout.parentBlock? i = some b → Yields c b
  -- operands
  | successors {i : Handle .branch} {bs : List Block} {b : Block} :
    c.successors i = .ok bs → b ∈ bs → Yields c b
  | defaultDest {i : Handle .switch} {b : Block} : c.defaultDest i = .ok (some b) → Yields c b
  | caseValue {i : Handle .switch} {index : Nat} {k : Handle .intConstant} {b : Block} :
    c.case? i index = .ok (some (k, b)) → Yields c k
  | caseDest {i : Handle .switch} {index : Nat} {k : Handle .intConstant} {b : Block} :
    c.case? i index = .ok (some (k, b)) → Yields c b
  | incomingBlock {i : Handle .phi} {index : Nat} {b : Block} :
    c.incomingBlock i index = .ok (some b) → Yields c b
  | calledFunction {i : Handle .call} {f : Func} :
    c.calledFunction i = .ok (some f) → Yields c f

/-! ### Narrowing -/

variable {cls : Class} {h : Handle cls}

/-- A handle that has been narrowed has the class it was narrowed to. -/
theorem isa_of_narrow {v : Value} (q : c.narrow cls v = .ok h) :
    c.isa cls h.value = .ok true := by
  obtain ⟨rfl, isa⟩ := narrow_eq_ok q
  exact isa

/-- A handle that an optional narrowing gives has the class it was narrowed to. -/
theorem isa_of_narrow? {v : Value} (q : c.narrow? cls v = .ok (some h)) :
    c.isa cls h.value = .ok true := by
  simp only [narrow?, Question.bind_eq_ok_iff, Question.pure_eq_ok_iff] at q
  obtain ⟨b, hb, hh⟩ := q
  cases b with
  | true =>
    cases hh
    exact hb
  | false => cases hh

/-- An operand read in a class has this class. -/
theorem isa_of_operandAs {user : Value} {index : Nat}
    (q : c.operandAs cls user index = .ok (some h)) : c.isa cls h.value = .ok true := by
  simp only [operandAs, Question.bind_eq_ok_iff] at q
  obtain ⟨o, -, q⟩ := q
  cases o with
  | none => cases q
  | some v =>
    simp only [Option.mapM_some, Question.map_eq_ok_iff, Option.some.injEq] at q
    obtain ⟨_, narrowed, rfl⟩ := q
    exact isa_of_narrow narrowed

/-- A case of a switch is an integer constant and a block. -/
theorem isa_of_case? {i : Handle .switch} {index : Nat} {k : Handle .intConstant} {b : Block}
    (q : c.case? i index = .ok (some (k, b))) :
    c.isa .intConstant k.value = .ok true ∧ c.isa .block b.value = .ok true := by
  -- Both operands are there, and each has passed its own narrowing.
  simp only [case?, Question.bind_eq_ok_iff] at q
  obtain ⟨n, -, q⟩ := q
  split at q
  · cases q
  · simp only [Question.bind_eq_ok_iff] at q
    obtain ⟨value, -, q⟩ := q
    cases value with
    | none => cases q
    | some value =>
      simp only [Question.bind_eq_ok_iff] at q
      obtain ⟨dest, -, q⟩ := q
      cases dest with
      | none => cases q
      | some dest =>
        simp only [Question.bind_eq_ok_iff, Question.pure_eq_ok_iff, Option.some.injEq,
          Prod.mk.injEq] at q
        obtain ⟨_, value, _, dest, rfl, rfl⟩ := q
        exact ⟨isa_of_narrow value, isa_of_narrow dest⟩

/-- The data of an argument are its function and its position in it. -/
theorem argumentData_ok (hs : c.Sound) {x : Argument} {f : Func} {index : Nat}
    (q : c.argumentData x = .ok (f, index)) :
    ∃ d, c.graph.value? x.value = some d ∧ d.kind = .argument f index := by
  simp only [argumentData, kindOf, Question.bind_eq_ok_iff, valueData_eq_ok_iff hs,
    Question.pure_eq_ok_iff] at q
  obtain ⟨_, ⟨d, hd, rfl⟩, q⟩ := q
  refine ⟨d, hd, ?_⟩
  split at q
  · cases q
    assumption
  · cases q

/-- A detached block has the class of blocks. -/
theorem isa_of_detached (hs : c.Sound) {b : Block} (hb : b ∈ c.detachedBlocks) :
    c.isa .block b.value = .ok true := by
  obtain ⟨listed, -⟩ := List.mem_filter.1 hb
  obtain ⟨v, hv, rfl⟩ := List.mem_map.1 listed
  obtain ⟨-, hkind⟩ := List.mem_filter.1 hv
  obtain ⟨d, hd, hkind⟩ := (Option.any_eq_true ..).1 hkind
  refine (isa_eq_ok_iff hs).2 ⟨d, hd, ?_⟩
  rw [of_decide_eq_true hkind]
  rfl

/-- A handle that a question is answered with is that of a live value of its class. -/
theorem Yields.isa (hc : ClassChecked c) (q : c.Yields h) : c.isa cls h.value = .ok true := by
  have hs := hc.sound
  have closed := hc.closed
  have laid := hc.intact.layout
  -- A query that narrows checks the class itself; one that reads a list or a parent has it from the
  -- closed layout.
  cases q with
  | narrow q => exact isa_of_narrow q
  | narrow? q => exact isa_of_narrow? q
  | getFunction? q => exact (closed.names q).2
  | functions q => exact (closed.functions _ q).2
  | args q hx =>
    obtain ⟨d, hd, hkind⟩ := (functionData_eq_ok_iff hs).1 q
    exact (closed.arguments hd hkind _ hx).2
  | parent q =>
    obtain ⟨d, hd, hkind⟩ := argumentData_ok hs q
    exact (closed.parents hd hkind).2
  -- The lists of the layout hold handles of their classes, and so do the links along them.
  | blocks q => exact (closed.blocks _ q).2
  | detachedBlocks q => exact isa_of_detached hs q
  | entryBlock? q => exact (closed.blocks _ (List.mem_of_head? q)).2
  | nextBlock? q =>
    obtain ⟨f, before, after, listed⟩ := laid.bodies.next?_eq_some_iff.1 q
    exact (closed.blocks (f := f) _ (by simp [Layout.blocks, listed])).2
  | parentFunction? q => exact (closed.parentFunctions q).2.2
  | instructions q => exact (closed.instructions _ q).2
  | front? q => exact (closed.instructions _ (List.mem_of_head? q)).2
  | back? q => exact (closed.instructions _ (List.mem_of_getLast? q)).2
  | terminator q =>
    unfold Context.terminator at q
    split at q
    · exact isa_of_narrow? q
    · cases q
  | nextInstruction? q =>
    obtain ⟨b, before, after, listed⟩ := laid.contents.next?_eq_some_iff.1 q
    exact (closed.instructions (b := b) _ (by simp [Layout.instructions, listed])).2
  | prevInstruction? q =>
    obtain ⟨b, before, after, listed⟩ := laid.contents.prev?_eq_some_iff.1 q
    exact (closed.instructions (b := b) _ (by simp [Layout.instructions, listed])).2
  | parentBlock? q => exact (closed.parentBlocks q).2.2
  -- Successors and destinations are narrowed from operands.
  | successors q hb =>
    simp only [Context.successors, Question.bind_eq_ok_iff] at q
    obtain ⟨_, -, _, -, q⟩ := q
    obtain ⟨v, -, narrowed⟩ := Question.exists_of_mem_mapM q hb
    exact isa_of_narrow narrowed
  | defaultDest q => exact isa_of_operandAs q
  | caseValue q => exact (isa_of_case? q).1
  | caseDest q => exact (isa_of_case? q).2
  | incomingBlock q =>
    simp only [Context.incomingBlock, Question.bind_eq_ok_iff] at q
    obtain ⟨_, -, q⟩ := q
    split at q
    · exact isa_of_operandAs q
    · cases q
  | calledFunction q =>
    simp only [Context.calledFunction, Question.bind_eq_ok_iff] at q
    obtain ⟨callee, -, q⟩ := q
    split at q
    · exact isa_of_narrow? q
    · cases q

end Context

end SsaGraph
