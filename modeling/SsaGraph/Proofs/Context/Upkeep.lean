import SsaGraph.Proofs.Class
import SsaGraph.Proofs.Context.Intact

/-!
# Requests keep a context intact

For each request that erases nothing: what it leaves behind is intact if what it found was. The
requests that place blocks or instructions trust the class of the handle they were given, and so
need it to be right; the others find out for themselves.
-/

namespace SsaGraph

open Run (Steps)

namespace Context

variable {c c' : Context}

/-- A step that keeps a context intact. -/
def Upkeep (c c' : Context) : Prop := c.Intact → c'.Intact

/-- A context stays intact over a chain of changes that keep it so. -/
theorem Intact.of_chain (h : c.Intact) (chain : Relation.ReflTransGen Upkeep c c') : c'.Intact := by
  induction chain with
  | refl => exact h
  | tail _ step ih => exact step ih

/-! ## Requests on a part -/

/-- A run on the graph that changes no face keeps the context intact. -/
theorem onGraph_upkeep {m : Run Graph Unit} (h : Steps Graph.Still m c.graph) :
    Steps Upkeep (onGraph m) c := by
  intro a c' run
  obtain ⟨g, hg, rfl⟩ := onGraph_ok run
  exact .single fun intact => intact.resembles (Graph.still_of_chain (h a g hg)).resembles

/-- A run on the layout that keeps its fit keeps the context intact. -/
theorem onLayout_upkeep {α : Type} {m : Run Layout α}
    (h : ∀ {a l}, m c.layout = .ok a l → c.layout.Laid c.graph → l.Laid c.graph) :
    Steps Upkeep (onLayout m) c := by
  intro a c' run
  obtain ⟨l, hl, rfl⟩ := Run.on_eq_ok_iff.1 run
  exact .single fun intact => intact.arrange (h hl intact.layout)

/-- A value that passes the check has the class it is claimed to have. -/
theorem HasClass.has {cls : Class} {h : Handle cls} {a : Unit} (hh : c.HasClass h) (hs : c.Sound)
    (hv : c.check h.value = .ok a) : c.graph.Has cls h.value := by
  obtain ⟨d, hd⟩ := check_eq_ok_iff.1 hv
  exact Graph.has_iff.2 ⟨d, hd, hh _ ((isa_eq_ok_iff hs).2 ⟨d, hd, rfl⟩)⟩

/-! ## Operands -/

/-- Setting an operand keeps the context intact. -/
theorem setOperand_upkeep {user : Value} {index : Nat} {target : Option Value} :
    Steps Upkeep (setOperand user index target) c :=
  .get_bind (.ask fun _ _ => .ask fun _ _ => onGraph_upkeep (Graph.setOperand_still _ _ _ _))

/-- Replacing all uses keeps the context intact. -/
theorem replaceAllUses_upkeep {old new : Value} : Steps Upkeep (replaceAllUses old new) c :=
  .get_bind (.ask fun _ _ => .ask fun _ _ => onGraph_upkeep (Graph.replaceAllUses_still _ _ _))

/-- Dropping all uses keeps the context intact. -/
theorem dropAllUses_upkeep {v : Value} : Steps Upkeep (dropAllUses v) c :=
  .get_bind (.ask fun _ _ => onGraph_upkeep (Graph.dropAllUses_still _ _))

/-- Dropping the operands keeps the context intact. -/
theorem dropAllReferences_upkeep {user : Value} : Steps Upkeep (dropAllReferences user) c :=
  .get_bind (.ask fun _ _ => onGraph_upkeep (Graph.dropAllReferences_still _ _))

/-- Adding an operand keeps the context intact. -/
theorem pushOperand_upkeep {user target : Value} : Steps Upkeep (pushOperand user target) c :=
  .get_bind (.ask fun _ _ => .ask fun _ _ => onGraph_upkeep (Graph.pushOperand_still _ _ _))

/-- Adding a case keeps the context intact. -/
theorem addCase_upkeep {i : Handle .switch} {value : Handle .intConstant} {dest : Block} :
    Steps Upkeep (addCase i value dest) c :=
  .get_bind (.ask fun _ _ => .ask fun _ _ => .ask_fault fun _ _ => .ask_fault fun _ _ =>
    .guard fun _ => .bind pushOperand_upkeep fun _ _ _ => pushOperand_upkeep)

/-- Adding an incoming edge keeps the context intact. -/
theorem addIncoming_upkeep {p : Handle .phi} {value : Value} {b : Block} :
    Steps Upkeep (addIncoming p value b) c :=
  .get_bind (.ask fun _ _ => .ask fun _ _ => .ask_fault fun _ _ => .ask_fault fun _ _ =>
    .guard fun _ => .bind pushOperand_upkeep fun _ _ _ => pushOperand_upkeep)

/-- An instruction whose operation is read is alive with this operation. -/
theorem operation_eq_ok {i : Instruction} {op : Operation} (h : c.operation i = .ok op) :
    ∃ d, c.graph.value? i.value = some d ∧ d.kind = .instruction op := by
  simp only [operation, kindOf, Question.bind_eq_ok_iff] at h
  obtain ⟨k, ⟨d, hd, hk⟩, h⟩ := h
  cases hk
  refine ⟨d, valueData_eq_ok hd, ?_⟩
  cases hkind : d.kind <;> simp_all

/-- Setting the operation of a call to one of the same type keeps the context intact. -/
theorem setOperation_upkeep {i : Instruction} {fnType : Ty} {marker marker' : TailCall}
    {conv conv' : CallingConv} (h : c.operation i = .ok (.call fnType marker conv)) :
    Steps Upkeep (setOperation i (.call fnType marker' conv')) c := by
  intro a c' run
  obtain ⟨g, hg, rfl⟩ := onGraph_ok run
  cases hg
  refine .single fun intact => intact.resembles (Graph.resembles_modifyValue fun d hd => ?_)
  obtain ⟨d', hd', hkind⟩ := operation_eq_ok h
  rw [hd] at hd'
  cases hd'
  rw [hkind]
  exact .remark

/-- Setting the tail call marker keeps the context intact. -/
theorem setTailCall_upkeep {i : Handle .call} {marker : TailCall} :
    Steps Upkeep (setTailCall i marker) c := by
  refine .get_bind (.ask_fault fun op h => ?_)
  split
  · exact setOperation_upkeep h
  · exact .fault

/-- Setting the calling convention keeps the context intact. -/
theorem setCallingConv_upkeep {i : Handle .call} {conv : CallingConv} :
    Steps Upkeep (setCallingConv i conv) c := by
  refine .get_bind (.ask_fault fun op h => ?_)
  split
  · exact setOperation_upkeep h
  · exact .fault

/-! ## Blocks and instructions -/

/-- A new block comes without instructions. -/
theorem newBlock_ok {name : Option String} {b : Block} (run : newBlock name c = .ok b c') :
    b.value = ⟨c.graph.ctx, c.graph.values.size⟩ ∧
      c' = { c with
        graph := (c.graph.push ⟨c.types.label, name, .block, [], none, 0⟩).2
        layout := c.layout.addBlock b } := by
  simp only [newBlock, Run.bind_eq_ok_iff, Run.get_apply] at run
  obtain ⟨_, _, h₀, v, c₁, h₁, _, c₂, h₂, h₃⟩ := run
  cases h₀
  obtain ⟨rfl, rfl⟩ := newValue_ok h₁
  obtain ⟨l, hl, rfl⟩ := Run.on_eq_ok_iff.1 h₂
  cases hl
  cases h₃
  exact ⟨rfl, rfl⟩

/-- Making a block keeps the context intact. -/
theorem newBlock_upkeep (hs : c.Sound) {name : Option String} : Steps Upkeep (newBlock name) c := by
  intro b c' run
  obtain ⟨hb, rfl⟩ := newBlock_ok run
  have label : c.types.Has c.types.label := hs.types.has_primitive (by decide)
  have gains := Graph.gains_push c.graph c.types.label name .block
  rw [← hb] at gains
  exact .single fun intact => intact.block gains label

/-- A block that passed the check is of the context and detached. -/
theorem checkDetachedBlock_eq_ok {b : Block} {a : Unit} (h : c.checkDetachedBlock b = .ok a) :
    c.check b.value = .ok () ∧ c.layout.parentFunction? b = none := by
  simp only [checkDetachedBlock, Question.bind_eq_ok_iff] at h
  obtain ⟨_, hcheck, h⟩ := h
  exact ⟨hcheck, by simpa using h⟩

/-- An instruction that passed the check is of the context and detached. -/
theorem checkDetached_eq_ok {i : Instruction} {a : Unit} (h : c.checkDetached i = .ok a) :
    c.check i.value = .ok () ∧ c.layout.parentBlock? i = none := by
  simp only [checkDetached, Question.bind_eq_ok_iff] at h
  obtain ⟨_, hcheck, h⟩ := h
  exact ⟨hcheck, by simpa using h⟩

/-- Appending a block keeps the context intact. -/
theorem appendBlock_upkeep (hs : c.Sound) {f : Func} {b : Block} (hb : c.HasClass b) :
    Steps Upkeep (appendBlock f b) c := by
  refine .get_bind (.ask fun _ _ => .ask fun _ hcheck => onLayout_upkeep fun run laid => ?_)
  obtain ⟨hv, detached⟩ := checkDetachedBlock_eq_ok hcheck
  exact laid.appendBlock (hb.has hs hv) detached run

/-- Inserting a block keeps the context intact. -/
theorem insertBlock_upkeep (hs : c.Sound) {anchor b : Block} (hb : c.HasClass b) :
    Steps Upkeep (insertBlock anchor b) c := by
  refine .get_bind (.ask fun _ _ => .ask fun _ hcheck => .guard fun _ =>
    onLayout_upkeep fun run laid => ?_)
  obtain ⟨hv, detached⟩ := checkDetachedBlock_eq_ok hcheck
  exact laid.insertBlock (hb.has hs hv) detached run

/-- Removing a block keeps the context intact. -/
theorem removeBlock_upkeep {b : Block} : Steps Upkeep (removeBlock b) c :=
  .get_bind (.ask fun _ _ => onLayout_upkeep fun run laid => laid.removeBlock run)

/-- Placing an instruction that is in no block. -/
theorem place_upkeep {i : Instruction} (hi : c.graph.Has .instruction i.value)
    (detached : c.layout.parentBlock? i = none) (point : InsertPoint) :
    Steps Upkeep (place i point) c := by
  cases point with
  | detached => exact .pure
  | before anchor => exact onLayout_upkeep fun run laid => laid.insertInstruction hi detached run
  | atEnd b => exact onLayout_upkeep fun run laid => laid.appendInstruction hi detached run

/-- Taking an instruction out of the layout keeps the context intact. -/
theorem takeOut_upkeep {i : Instruction} : Steps Upkeep (onLayout (Layout.removeInstruction i)) c :=
  onLayout_upkeep fun run laid => (laid.removeInstruction run).1

/-- Removing an instruction keeps the context intact. -/
theorem removeInstruction_upkeep {i : Instruction} : Steps Upkeep (removeInstruction i) c :=
  .get_bind (.ask fun _ _ => takeOut_upkeep)

/-- Inserting an instruction keeps the context intact. -/
theorem insertInstruction_upkeep (hs : c.Sound) {i anchor : Instruction} (hi : c.HasClass i) :
    Steps Upkeep (insertInstruction i anchor) c := by
  refine .get_bind (.ask fun _ hcheck => .ask fun _ _ => ?_)
  obtain ⟨hv, detached⟩ := checkDetached_eq_ok hcheck
  exact place_upkeep (hi.has hs hv) detached _

/-- Appending an instruction keeps the context intact. -/
theorem appendInstruction_upkeep (hs : c.Sound) {i : Instruction} {b : Block} (hi : c.HasClass i) :
    Steps Upkeep (appendInstruction i b) c := by
  refine .get_bind (.ask fun _ hcheck => .ask fun _ _ => ?_)
  obtain ⟨hv, detached⟩ := checkDetached_eq_ok hcheck
  exact place_upkeep (hi.has hs hv) detached _

/-- Moving an instruction: after it was taken out it is in no block. -/
theorem move_upkeep {i : Instruction} (h : c.Intact) (hi : c.graph.Has .instruction i.value)
    (point : InsertPoint) :
    Steps Upkeep (do discard <| onLayout (Layout.removeInstruction i); place i point) c := by
  refine .bind (.map takeOut_upkeep) fun _ c' run => ?_
  obtain ⟨_, run, -⟩ := Run.map_eq_ok_iff.1 run
  obtain ⟨l, hl, rfl⟩ := Run.on_eq_ok_iff.1 run
  exact place_upkeep (c := { c with layout := l }) hi (h.layout.removeInstruction hl).2 point

/-- Moving an instruction before another keeps the context intact. -/
theorem moveBefore_upkeep (h : c.Intact) (hs : c.Sound) {i anchor : Instruction} (hi : c.HasClass i) :
    Steps Upkeep (moveBefore i anchor) c := by
  refine .get_bind (.ask fun _ hv => ?_)
  split
  · exact .reject_bind
  · exact .ask fun _ _ => move_upkeep h (hi.has hs hv) _

/-- Moving an instruction to the end of a block keeps the context intact. -/
theorem moveToEnd_upkeep (h : c.Intact) (hs : c.Sound) {i : Instruction} {b : Block}
    (hi : c.HasClass i) : Steps Upkeep (moveToEnd i b) c :=
  .get_bind (.ask fun _ hv => .ask fun _ _ => move_upkeep h (hi.has hs hv) _)

/-! ## Building instructions -/

/-- Emitting an instruction keeps the context intact. -/
theorem emit_upkeep {cls : Class} (hs : c.Sound) {site : Site} {ty : Ty} {op : Operation}
    {operands : List (Option Value)} (typed : ∀ ty' ∈ ty :: op.types, c.types.Has ty') :
    Steps Upkeep (emit site ty op operands : Run Context (Handle cls)) c := by
  intro i c' run
  obtain ⟨graph, _, hg, rfl, hp⟩ := emit_ok run
  have gains := Graph.newUser_gains hs.graph hg
  refine .single fun intact => ?_
  have detached := intact.layout.detached_of_gains gains
  have hi : graph.Has .instruction i.value := gains.has_iff.2 (.inr ⟨_, ⟨rfl, rfl⟩, rfl⟩)
  exact (intact.instruction gains typed).of_chain
    (place_upkeep (c := { c with graph }) hi detached _ _ _ hp)

/-- What builds an instruction keeps the context intact. -/
theorem Builds.upkeep {cls : Class} {ok : Prop} {site : Site} {m : Run Context (Handle cls)}
    (hb : Builds Supply ok site m c) (hs : c.Sound) : Steps Upkeep m c := by
  intro h c' run
  obtain ⟨c₁, ty, op, operands, chain, typed, -, -, he⟩ := hb h c' run
  have hs₁ := hs.supplies chain
  exact .single fun intact => (intact.supplies chain).of_chain (emit_upkeep hs₁ typed _ _ he)

/-! ## Functions -/

/-- The arguments of a function come with their numbers. -/
theorem newArguments_gains {f : Func} {index : Nat} {params : List Ty} {args : List Argument}
    (h : newArguments f index params c = .ok args c') :
    ∃ graph, c' = { c with graph } ∧
      c.graph.Gains graph (fun v x => ∃ i p, params[i]? = some p ∧ args[i]? = some ⟨v⟩ ∧
        x = ⟨p, none, .argument f (index + i)⟩) ∧
      args.length = params.length := by
  -- On the parameters, with the first index left free: the arguments are numbered from there.
  induction params generalizing index c args with
  | nil =>
    cases h
    exact ⟨_, rfl, (Graph.gains_nothing _).congr (by simp), rfl⟩
  | cons param params ih =>
    simp only [newArguments, Run.bind_eq_ok_iff] at h
    obtain ⟨v, c₁, h₁, args', c₂, h₂, h₃⟩ := h
    cases h₃
    obtain ⟨rfl, rfl⟩ := newValue_ok h₁
    obtain ⟨graph, rfl, gains, length⟩ := ih h₂
    refine ⟨graph, rfl, ((Graph.gains_push ..).trans gains).congr fun {w x} => ?_, by simp [length]⟩
    constructor
    · rintro ⟨i, p, hp, ha, rfl⟩
      cases i with
      | zero =>
        simp only [List.getElem?_cons_zero, Option.some.injEq] at hp ha
        subst hp
        exact .inl ⟨(congrArg Handle.value ha).symm, rfl⟩
      | succ i =>
        simp only [List.getElem?_cons_succ] at hp ha
        exact .inr ⟨i, p, hp, ha, by rw [Nat.add_assoc, Nat.add_comm 1 i]⟩
    · rintro (⟨rfl, rfl⟩ | ⟨i, p, hp, ha, rfl⟩)
      · exact ⟨0, param, rfl, rfl, rfl⟩
      · exact ⟨i + 1, p, hp, ha, by rw [Nat.add_assoc, Nat.add_comm 1 i]⟩

/-- A new function and its arguments come with these faces. -/
def Comes (f : Func) (name : String) (ptr ty : Ty) (params : List Ty) (args : List Argument)
    (v : Value) (x : Face) : Prop :=
  v = f.value ∧ x = ⟨ptr, some name, .function ty args⟩ ∨
    ∃ i p, params[i]? = some p ∧ args[i]? = some ⟨v⟩ ∧ x = ⟨p, none, .argument f i⟩

/-- A new function comes with its arguments, and is registered under its name. -/
theorem newFunction_ok {name : String} {ty : Ty} {f : Func} (h : newFunction name ty c = .ok f c') :
    ∃ ptr types ret params varArg args graph,
      TypeTable.pointerType ty 0 c.types = .ok ptr types ∧
      c.types.data? ty = some (.function ret params varArg) ∧ c.names.get? name = none ∧
      f.value = ⟨c.graph.ctx, c.graph.values.size⟩ ∧
      c.graph.Gains graph (Comes f name ptr ty params args) ∧ args.length = params.length ∧
      c' = { c with
        types, graph, names := c.names.insert name f, functions := c.functions ++ [f]
        layout := c.layout.addFunction f } := by
  -- The steps of the run, in order: the checks, the name, the pointer type, and then the values.
  simp only [newFunction, Run.bind_eq_ok_iff, Run.get_apply, Run.question_eq_ok_iff,
    Run.faulting_eq_ok_iff, Run.guard_eq_ok_iff] at h
  obtain ⟨_, _, h₀, _, _, ⟨-, rfl⟩, k, _, ⟨hk, rfl⟩, -, h⟩ := h
  cases h₀
  split at h
  · cases h
  · rename_i free
    simp only [Run.bind_eq_ok_iff, Run.faulting_eq_ok_iff] at h
    obtain ⟨ptr, _, hptr, d, _, ⟨hd, rfl⟩, h⟩ := h
    obtain ⟨types, htypes, rfl⟩ := onTypes_ok hptr
    rw [TypeTable.data_eq_ok_iff] at hd
    split at h
    · rename_i ret params varArg
      simp only [Run.bind_eq_ok_iff] at h
      obtain ⟨v, _, hv, args, _, hargs, _, _, hmod, _, _, hreg, hret⟩ := h
      obtain ⟨rfl, rfl⟩ := newValue_ok hv
      obtain ⟨g₂, rfl, rest, length⟩ := newArguments_gains hargs
      simp only [Nat.zero_add] at rest
      obtain ⟨g, hg, rfl⟩ := onGraph_ok hmod
      cases hg
      cases hreg
      cases hret
      -- The function is created before its arguments, and its list of them is filled in afterwards.
      have first := Graph.gains_push c.graph ptr (some name) (.function ty [])
      have hf := first.face.2 (.inr ⟨rfl, rfl⟩)
      refine ⟨ptr, types, ret, params, varArg, args, _, htypes, hd, ?_, rfl,
        (first.trans rest).amend (fun z hz => ?_) fun w => ?_, length, rfl⟩
      · simpa [Keyed.contains] using free
      · -- The arguments come after the function, and it is not one of them.
        rw [rest.new hz] at hf
        cases hf
      · obtain ⟨d, hd, hface⟩ := Graph.value?_of_face? (rest.keep hf)
        have hty : d.ty = ptr := (congrArg Face.ty hface).symm
        have hname : d.name = some name := (congrArg Face.name hface).symm
        rw [Graph.face?_modifyValue, hd, Option.map_some, hty, hname]
    · cases h

/-- Making a function keeps the context intact. -/
theorem newFunction_upkeep (hs : c.Sound) {name : String} {ty : Ty} :
    Steps Upkeep (newFunction name ty) c := by
  intro f c' run
  obtain ⟨ptr, types, ret, params, varArg, args, graph, hptr, hty, free, hf, gains, length, rfl⟩ :=
    newFunction_ok run
  have gets := TypeTable.pointerType_gets ty 0
  have grows := gets.growsTo hptr
  have admits := hs.types.admits hty
  have takes : c.types.Takes ty params := ⟨ret, varArg, hty⟩
  have last : c.graph.values.size ≤ f.value.index := by simp [hf]
  refine .single fun intact => (intact.grow grows).function gains (.inl ⟨rfl, rfl⟩) ?_ ?_ ?_
    (gets.data? hs.types hptr) (takes.grow grows) length free last
  · rintro v x (hf | ⟨i, p, hp, ha, rfl⟩)
    · exact .inl hf
    · exact .inr ⟨p, i, hp, ha, rfl⟩
  · intro i a ha
    -- There are as many arguments as parameters.
    have hi : i < params.length := length ▸ (List.getElem?_eq_some_iff.1 ha).1
    exact ⟨params[i], .inr ⟨i, _, List.getElem?_eq_getElem hi, ha, rfl⟩⟩
  · rintro v x (⟨-, rfl⟩ | ⟨i, p, hp, -, rfl⟩)
    · simp only [ValueKind.types, List.mem_cons, List.not_mem_nil, or_false, forall_eq_or_imp,
        forall_eq]
      exact ⟨⟨_, gets.data? hs.types hptr⟩, grows.has ⟨_, hty⟩⟩
    · simp only [ValueKind.types, List.mem_singleton, forall_eq]
      exact grows.has (admits.2 p (List.mem_of_getElem? hp)).has

/-! ## Names -/

/-- Narrowing answers the handle exactly if the kind is of the class. -/
theorem narrow?_eq_ok {cls : Class} {v : Value} {o : Option (Handle cls)}
    (h : c.narrow? cls v = .ok o) : ∃ d, c.graph.value? v = some d ∧
      o = if cls.contains d.kind then some ⟨v⟩ else none := by
  simp only [narrow?, isa, kindOf, Question.bind_eq_ok_iff] at h
  obtain ⟨_, ⟨_, ⟨d, hd, hk⟩, hb⟩, ho⟩ := h
  cases hk
  cases hb
  cases ho
  exact ⟨d, valueData_eq_ok hd, rfl⟩

/-- A function that is given a name has it already, or gives up the name it had. -/
theorem registerName_ok {f : Func} {name : Option String} {a : Unit}
    (h : registerName f name c = .ok a c') :
    ∃ new, name = some new ∧
      (c.names.get? new = some f ∧ c' = c ∨
        c.names.get? new = none ∧ ∃ d, c.graph.value? f.value = some d ∧
          c' = { c with names := ((d.name.map c.names.erase).getD c.names).insert new f }) := by
  cases name with
  | none => cases h
  | some new =>
    refine ⟨new, rfl, ?_⟩
    simp only [registerName, Run.bind_eq_ok_iff, Run.get_apply] at h
    obtain ⟨_, _, h₀, h⟩ := h
    cases h₀
    -- A name that is taken is accepted only from the function that has it.
    cases hnew : c.names.get? new with
    | some g =>
      rw [hnew] at h
      simp only at h
      split at h
      · rename_i heq
        cases h
        exact .inl ⟨by rw [heq], rfl⟩
      · cases h
    | none =>
      simp only [hnew, Run.bind_eq_ok_iff, Run.faulting_eq_ok_iff, nameOf,
        Question.bind_eq_ok_iff] at h
      obtain ⟨_, _, ⟨⟨d, hd, hname⟩, rfl⟩, h⟩ := h
      cases hname
      cases h
      refine .inr ⟨rfl, d, valueData_eq_ok hd, ?_⟩
      cases d.name <;> rfl

/-- A value that is no function is given any name. -/
theorem rename_upkeep {v : Value} {d : ValueData} (name : Option String)
    (hd : c.graph.value? v = some d) (hkind : Class.function.contains d.kind = false) :
    Steps Upkeep (onGraph (modify (·.modifyValue v ({ · with name })))) c := by
  intro a c' run
  obtain ⟨g, hg, rfl⟩ := onGraph_ok run
  cases hg
  refine .single fun intact => intact.resembles (Graph.resembles_modifyValue fun d' hd' => ?_)
  rw [hd] at hd'
  cases hd'
  exact .rename hkind

/-- A function is given a name and registered under it. -/
theorem renameFunction_upkeep {f : Func} {d : ValueData} (name : Option String)
    (hd : c.graph.value? f.value = some d) (hkind : Class.function.contains d.kind = true) :
    Steps Upkeep (do
      registerName f name
      onGraph (modify (·.modifyValue f.value ({ · with name })))) c := by
  intro a c' run
  obtain ⟨_, c₁, hreg, hmod⟩ := Run.bind_eq_ok_iff.1 run
  obtain ⟨g, hg, rfl⟩ := onGraph_ok hmod
  cases hg
  have hface := Graph.face?_of_value? hd
  refine .single fun intact => ?_
  obtain ⟨old, hold⟩ := intact.functions.named hface hkind
  simp only at hold
  obtain ⟨new, rfl, ⟨hnew, rfl⟩ | ⟨free, d', hd', rfl⟩⟩ := registerName_ok hreg
  · -- The function has the name already.
    obtain ⟨x, hx, -, hname⟩ := intact.functions.entry.1 hnew
    rw [hface] at hx
    cases hx
    simp only at hname
    refine intact.resembles (Graph.resembles_modifyValue fun d' hd' => ?_)
    rw [hd] at hd'
    cases hd'
    rw [hname]
    exact .refl _
  · -- The name was free: the old entry goes, the new one comes, and the face has the new name.
    rw [hd] at hd'
    cases hd'
    rw [hold]
    refine intact.rename hface hkind hold free fun w => ?_
    rw [Graph.face?_modifyValue, hd]
    rfl

/-- Renaming a value keeps the context intact. -/
theorem setName_upkeep {v : Value} {name : Option String} : Steps Upkeep (setName v name) c := by
  refine .get_bind (.ask fun _ _ => .ask_fault fun ty _ => .guard fun _ => .ask_fault fun o ho => ?_)
  obtain ⟨d, hd, rfl⟩ := narrow?_eq_ok ho
  cases hkind : Class.function.contains d.kind with
  | true => exact renameFunction_upkeep (f := ⟨v⟩) name hd hkind
  | false => exact rename_upkeep name hd hkind

end Context

end SsaGraph
