import SsaGraph.Proofs.Context.Steps

/-!
# Rejected requests change nothing

For each request on a sound context that builds no instruction: if it is rejected, the context is
left as it was (`Run.Atomic`). A request asks its questions before it changes anything, and most of
what follows can only end in a fault (`Run.Firm`). The exceptions are the requests that ask again
after the first change, and there the second answer is known from the first. The second operand of
an edge goes to an instruction that has just taken the first one. What is erased with a block or a
function is listed in the layout, which holds values of the context only.
-/

namespace SsaGraph

open Run (Firm Atomic)

/-! ## The graph -/

namespace Graph

variable {g : Graph}

/-- A value of the graph's context is not refused; if it is dead, that is a fault. -/
theorem check_not_rejected {v : Value} (h : v.ctx = g.ctx) :
    Question.Avoids Failure.IsRejection (g.check v) := by
  intro e he
  unfold check at he
  rw [if_neg (by simp [h])] at he
  split at he
  · cases he
  · cases he
    exact id

/-- Patching an edge is not rejected. -/
theorem patchEdge_firm {u : Use} {f : LinkedEdge → LinkedEdge} : Firm (patchEdge u f) g :=
  .get_bind (.ask_fault fun _ _ => .modify)

/-- Patching a value is not rejected. -/
theorem patchValue_firm {v : Value} {f : ValueData → ValueData} : Firm (patchValue v f) g :=
  .get_bind (.ask_fault fun _ _ => .modify)

/-- Linking an edge backward is not rejected. -/
theorem setPrev_firm {u prev : Option Use} : Firm (setPrev u prev) g := by
  cases u with
  | none => exact .pure
  | some u => exact patchEdge_firm

/-- Linking an edge forward is not rejected. -/
theorem setNext_firm {v : Value} {u next : Option Use} : Firm (setNext v u next) g := by
  cases u with
  | none => exact patchValue_firm
  | some u => exact patchEdge_firm

/-- Detaching an edge is not rejected. -/
theorem detach_firm {u : Use} : Firm (detach u) g := by
  refine .get_bind (.ask_fault fun l _ => ?_)
  split
  · exact .pure
  · exact .bind patchEdge_firm fun _ _ _ => .bind setNext_firm fun _ _ _ =>
      .bind setPrev_firm fun _ _ _ => patchValue_firm

/-- Attaching an edge is not rejected. -/
theorem attach_firm {u : Use} {v : Value} : Firm (attach u v) g :=
  .get_bind (.ask_fault fun _ _ => .bind patchValue_firm fun _ _ _ =>
    .bind setPrev_firm fun _ _ _ => patchEdge_firm)

/-- A loop whose rounds are firm in every state. -/
theorem forM_firm {α : Type} {l : List α} {f : α → Run Graph Unit} (h : ∀ a g, Firm (f a) g) :
    Firm (l.forM f) g :=
  .forM (P := fun _ => True) l (fun _ _ _ _ _ _ _ => trivial) (fun a _ g _ => h a g) g trivial

/-- A walk over the uses is not rejected if no round is. -/
theorem whileUsed_firm {v : Value} {round : Use → Run Graph Unit} (h : ∀ u g, Firm (round u) g)
    (bound : Nat) : Firm (whileUsed v round bound) g := by
  induction bound generalizing g with
  | zero => exact .pure
  | succ bound ih =>
    refine .get_bind (.ask_fault fun d _ => ?_)
    split
    · exact .pure
    · exact .bind (h _ g) fun _ _ _ => ih

/-- Creating a user is not rejected. -/
theorem newUser_firm {ty : Ty} {op : Operation} {name : Option String}
    {operands : List (Option Value)} : Firm (newUser ty op name operands) g := by
  refine .get_bind (.get_bind (.bind .modifyGet fun us g₁ _ => .bind .modify fun _ g₂ _ => ?_))
  refine .bind (forM_firm fun p g => ?_) fun _ _ _ => .pure
  obtain ⟨u, _ | v⟩ := p
  · exact .pure
  · exact attach_firm

/-- A rejected operand leaves the graph as it was. -/
theorem setOperand_atomic {user : Value} {index : Nat} {target : Option Value} :
    Atomic (setOperand user index target) g := by
  refine .get_bind (.ask_fault fun d _ => .guard fun _ => ?_)
  split
  · exact .reject
  · refine .of_firm (.bind detach_firm fun _ g₁ _ => ?_)
    split
    · exact attach_firm
    · exact .pure

/-- A rejected further operand leaves the graph as it was. -/
theorem pushOperand_atomic {user target : Value} : Atomic (pushOperand user target) g :=
  .get_bind (.ask_fault fun _ _ => .guard fun _ =>
    .of_firm (.bind .modifyGet fun _ _ _ => .bind .modify fun _ _ _ => attach_firm))

/-- A variadic instruction takes another operand. -/
theorem pushOperand_firm {user target : Value}
    (h : ∀ d, g.value? user = some d → d.kind.isVariadic = true) :
    Firm (pushOperand user target) g := by
  refine .get_bind (.ask_fault fun d hd => ?_)
  rw [if_pos (h d (value_eq_ok_iff.1 hd))]
  exact .bind .modifyGet fun _ _ _ => .bind .modify fun _ _ _ => attach_firm

/-- A rejected replacement leaves the graph as it was. -/
theorem replaceAllUses_atomic {old new : Value} : Atomic (replaceAllUses old new) g := by
  unfold replaceAllUses
  split
  · exact .of_firm .pure
  · refine .get_bind (.ask_fault fun d _ => .get_bind (.ask_fault fun _ _ => .guard fun _ => ?_))
    exact .of_firm (whileUsed_firm (fun u g => .bind detach_firm fun _ _ _ => attach_firm) _)

/-- Dropping all uses is not rejected. -/
theorem dropAllUses_firm {v : Value} : Firm (dropAllUses v) g :=
  .get_bind (.ask_fault fun _ _ => whileUsed_firm (fun _ _ => detach_firm) _)

/-- Dropping the operands is not rejected. -/
theorem dropAllReferences_firm {v : Value} : Firm (dropAllReferences v) g :=
  .get_bind (.ask_fault fun _ _ => forM_firm fun _ _ => detach_firm)

/-- Removing a value is not rejected. -/
theorem removeValue_firm {v : Value} : Firm (removeValue v) g :=
  .get_bind (.ask_fault fun _ _ => .ask_fault fun _ _ =>
    .bind (forM_firm fun _ _ => .bind detach_firm fun _ _ _ => .modify) fun _ _ _ => .modify)

end Graph

namespace Context

variable {c : Context} {bad : Failure → Prop}

/-! ## Requests on a part -/

/-- A run on the type table that is atomic there is atomic in the context. -/
theorem onTypes_atomic {α : Type} {m : Run TypeTable α} (h : Atomic m c.types) :
    Atomic (onTypes m) c := .on rfl h

/-- A run on the graph that is atomic there is atomic in the context. -/
theorem onGraph_atomic {α : Type} {m : Run Graph α} (h : Atomic m c.graph) :
    Atomic (onGraph m) c := .on rfl h

/-- A run on the graph that is not rejected there is not rejected in the context. -/
theorem onGraph_firm {α : Type} {m : Run Graph α} (h : Firm m c.graph) : Firm (onGraph m) c :=
  .on h

/-- A run on the layout that is not rejected there is not rejected in the context. -/
theorem onLayout_firm {α : Type} {m : Run Layout α} (h : Firm m c.layout) : Firm (onLayout m) c :=
  .on h

/-! ## Constants -/

/-- Asking for a constant does not fail. -/
theorem constant_avoids {ty : Ty} {k : Constant} : Run.Avoids bad (constant ty k) c := by
  refine .get_bind ?_
  split
  · exact .pure
  · exact .bind (.on .modifyGet) fun _ _ _ => .bind .modify fun _ _ _ => .pure

/-- A constant handed on as a handle of its class. -/
theorem constantHandle_avoids {cls : Class} {ty : Ty} {k : Constant} :
    Run.Avoids bad (do return (⟨← constant ty k⟩ : Handle cls)) c :=
  .bind constant_avoids fun _ _ _ => .pure

/-- A rejected integer constant leaves the context as it was. -/
theorem constInt_atomic {ty : Ty} {x : Nat} : Atomic (constInt ty x) c := by
  refine .get_bind (.ask fun _ _ => .ask_fault fun d _ => ?_)
  split
  · exact .guard fun _ => .of_firm constantHandle_avoids
  · exact .reject
  · exact .reject

/-- A rejected float constant leaves the context as it was. -/
theorem constFloat_atomic {ty : Ty} {bits : BitVec 64} : Atomic (constFloat ty bits) c := by
  refine .get_bind (.ask fun _ _ => .ask_fault fun k _ => ?_)
  split
  · exact .of_firm constantHandle_avoids
  · exact .of_firm constantHandle_avoids
  · exact .reject
  · exact .reject

/-- A rejected null constant leaves the context as it was. -/
theorem constNull_atomic {ty : Ty} : Atomic (constNull ty) c :=
  .get_bind (.ask fun _ _ => .ask_fault fun _ _ => .guard fun _ => .of_firm constantHandle_avoids)

/-- A rejected undefined value leaves the context as it was. -/
theorem undef_atomic {ty : Ty} : Atomic (undef ty) c :=
  .get_bind (.ask fun _ _ => .ask_fault fun _ _ => .guard fun _ => .of_firm constantHandle_avoids)

/-! ## Functions and names -/

/-- Making arguments does not fail. -/
theorem newArguments_avoids {f : Func} {index : Nat} {params : List Ty} :
    Run.Avoids bad (newArguments f index params) c := by
  induction params generalizing index c with
  | nil => exact .pure
  | cons param params ih =>
    exact .bind (.on .modifyGet) fun _ _ _ => .bind ih fun _ _ _ => .pure

/-- The pointer to the function type is the last that can be refused. -/
theorem newFunction_atomic {name : String} {ty : Ty} : Atomic (newFunction name ty) c := by
  refine .get_bind (.ask fun _ _ => .ask_fault fun k _ => .guard fun _ => ?_)
  split
  · exact .reject_bind
  · refine .bind (onTypes_atomic (TypeTable.pointerType_atomic ty 0 _)) fun ptr c₁ _ => ?_
    refine .ask_fault fun d _ => ?_
    split
    · refine .bind (onGraph_firm .modifyGet) fun _ _ _ => ?_
      refine .bind newArguments_avoids fun _ _ _ => ?_
      exact .bind (onGraph_firm .modify) fun _ _ _ => .bind .modify fun _ _ _ => .pure
    · exact .fault

/-- A rejected name leaves the registry as it was. -/
theorem registerName_atomic {f : Func} {name : Option String} :
    Atomic (registerName f name) c := by
  unfold registerName
  split
  · exact .reject
  · refine .get_bind ?_
    split
    · split
      · exact .of_firm .pure
      · exact .reject
    · exact .ask_fault fun _ _ => .of_firm .set

/-- A rejected renaming leaves the context as it was. -/
theorem setName_atomic {v : Value} {name : Option String} : Atomic (setName v name) c := by
  refine .get_bind (.ask fun _ _ => .ask_fault fun ty _ => .guard fun _ => ?_)
  refine .ask_fault fun f _ => ?_
  split
  · exact .bind registerName_atomic fun _ _ _ => onGraph_firm .modify
  · exact .of_firm (onGraph_firm .modify)

/-! ## Blocks and instructions -/

/-- Making a block does not fail. -/
theorem newBlock_avoids {name : Option String} : Run.Avoids bad (newBlock name) c :=
  .get_bind (.bind (.on .modifyGet) fun _ _ _ => .bind (.on .modify) fun _ _ _ => .pure)

/-- A rejected appending of a block leaves the context as it was. -/
theorem appendBlock_atomic {f : Func} {b : Block} : Atomic (appendBlock f b) c :=
  .get_bind (.ask fun _ _ => .ask fun _ _ =>
    .of_firm (onLayout_firm (Layout.appendBlock_firm f b _)))

/-- A rejected insertion of a block leaves the context as it was. -/
theorem insertBlock_atomic {anchor b : Block} : Atomic (insertBlock anchor b) c :=
  .get_bind (.ask fun _ _ => .ask fun _ _ => .guard fun _ =>
    .of_firm (onLayout_firm (Layout.insertBlock_firm anchor b _)))

/-- A rejected removal of a block leaves the context as it was. -/
theorem removeBlock_atomic {b : Block} : Atomic (removeBlock b) c :=
  .get_bind (.ask fun _ _ => .of_firm (onLayout_firm (Layout.removeBlock_firm b _)))

/-- Placing an instruction is not rejected. -/
theorem place_firm {i : Instruction} {point : InsertPoint} : Firm (place i point) c := by
  cases point with
  | detached => exact .pure
  | before anchor => exact onLayout_firm (Layout.insertInstruction_firm anchor i _)
  | atEnd b => exact onLayout_firm (Layout.appendInstruction_firm b i _)

/-- Taking an instruction out of the layout is not rejected. -/
theorem takeOut_firm {i : Instruction} : Firm (onLayout (Layout.removeInstruction i)) c :=
  onLayout_firm (Layout.removeInstruction_firm i _)

/-- A rejected removal of an instruction leaves the context as it was. -/
theorem removeInstruction_atomic {i : Instruction} : Atomic (removeInstruction i) c :=
  .get_bind (.ask fun _ _ => .of_firm takeOut_firm)

/-- A rejected insertion of an instruction leaves the context as it was. -/
theorem insertInstruction_atomic {i anchor : Instruction} :
    Atomic (insertInstruction i anchor) c :=
  .get_bind (.ask fun _ _ => .ask fun _ _ => .of_firm place_firm)

/-- A rejected appending of an instruction leaves the context as it was. -/
theorem appendInstruction_atomic {i : Instruction} {b : Block} :
    Atomic (appendInstruction i b) c :=
  .get_bind (.ask fun _ _ => .ask fun _ _ => .of_firm place_firm)

/-- A rejected move before another instruction leaves the context as it was. -/
theorem moveBefore_atomic {i anchor : Instruction} : Atomic (moveBefore i anchor) c := by
  refine .get_bind (.ask fun _ _ => ?_)
  split
  · exact .reject_bind
  · exact .ask fun _ _ => .of_firm (.bind (.map takeOut_firm) fun _ _ _ => place_firm)

/-- A rejected move to the end of a block leaves the context as it was. -/
theorem moveToEnd_atomic {i : Instruction} {b : Block} : Atomic (moveToEnd i b) c :=
  .get_bind (.ask fun _ _ => .ask fun _ _ =>
    .of_firm (.bind (.map takeOut_firm) fun _ _ _ => place_firm))

/-! ## Operands -/

/-- A rejected operand leaves the context as it was. -/
theorem setOperand_atomic {user : Value} {index : Nat} {target : Option Value} :
    Atomic (setOperand user index target) c :=
  .get_bind (.ask fun _ _ => .ask fun _ _ => onGraph_atomic Graph.setOperand_atomic)

/-- A rejected replacement leaves the context as it was. -/
theorem replaceAllUses_atomic {old new : Value} : Atomic (replaceAllUses old new) c :=
  .get_bind (.ask fun _ _ => .ask fun _ _ => onGraph_atomic Graph.replaceAllUses_atomic)

/-- A rejected dropping of uses leaves the context as it was. -/
theorem dropAllUses_atomic {v : Value} : Atomic (dropAllUses v) c :=
  .get_bind (.ask fun _ _ => .of_firm (onGraph_firm Graph.dropAllUses_firm))

/-- A rejected dropping of operands leaves the context as it was. -/
theorem dropAllReferences_atomic {user : Value} : Atomic (dropAllReferences user) c :=
  .get_bind (.ask fun _ _ => .of_firm (onGraph_firm Graph.dropAllReferences_firm))

/-- A rejected further operand leaves the context as it was. -/
theorem pushOperand_atomic {user target : Value} : Atomic (pushOperand user target) c :=
  .get_bind (.ask fun _ _ => .ask fun _ _ => onGraph_atomic Graph.pushOperand_atomic)

/-- An instruction that took one operand is variadic, and takes the next. -/
theorem pushTwice_atomic (hs : c.Sound) {user first second : Value}
    (hctx : second.ctx = c.graph.ctx) :
    Atomic (do pushOperand user first; pushOperand user second) c := by
  refine .bind pushOperand_atomic fun _ c₁ h => ?_
  obtain ⟨g, hg, rfl⟩ := pushOperand_ok h
  obtain ⟨-, gctx, ⟨d, hd, hv⟩, -, hnode⟩ := Graph.pushOperand_ok hs.graph hg
  have variadic : ∀ d', g.value? user = some d' → d'.kind.isVariadic = true := by
    intro d' hd'
    have := hnode user
    rw [if_pos rfl, Graph.node?_of_value? hd, Graph.node?_of_value? hd'] at this
    have hk : d'.kind = d.kind := congrArg Node.kind (Option.some.inj this)
    rwa [hk]
  refine .get_bind (.ask ?_ fun _ _ => .ask ?_ fun _ _ => ?_)
  · exact Graph.check_not_rejected ((Graph.ctx_of_value? hd).trans gctx.symm)
  · exact Graph.check_not_rejected (hctx.trans gctx.symm)
  · exact onGraph_firm (Graph.pushOperand_firm variadic)

/-- A rejected case leaves the context as it was. -/
theorem addCase_atomic (hs : c.Sound) {i : Handle .switch} {value : Handle .intConstant}
    {dest : Block} : Atomic (addCase i value dest) c :=
  .get_bind (.ask fun _ _ => .ask fun _ hb => .ask_fault fun _ _ => .ask_fault fun _ _ =>
    .guard fun _ => pushTwice_atomic hs (ctx_of_check hb))

/-- A rejected incoming edge leaves the context as it was. -/
theorem addIncoming_atomic (hs : c.Sound) {p : Handle .phi} {value : Value} {b : Block} :
    Atomic (addIncoming p value b) c :=
  .get_bind (.ask fun _ _ => .ask fun _ hb => .ask_fault fun _ _ => .ask_fault fun _ _ =>
    .guard fun _ => pushTwice_atomic hs (ctx_of_check hb))

/-- Setting the tail call marker is not rejected. -/
theorem setTailCall_firm {i : Handle .call} {marker : TailCall} :
    Firm (setTailCall i marker) c := by
  refine .get_bind (.ask_fault fun op _ => ?_)
  split
  · exact onGraph_firm .modify
  · exact .fault

/-- Setting the calling convention is not rejected. -/
theorem setCallingConv_firm {i : Handle .call} {conv : CallingConv} :
    Firm (setCallingConv i conv) c := by
  refine .get_bind (.ask_fault fun op _ => ?_)
  split
  · exact onGraph_firm .modify
  · exact .fault

/-! ## Erasure -/

/-- Removing a value of the context is not rejected. -/
theorem removeValue_firm {v : Value} : Firm (onGraph (Graph.removeValue v)) c :=
  onGraph_firm Graph.removeValue_firm

/-- A rejected erasure of an instruction leaves the context as it was. -/
theorem eraseInstruction_atomic {i : Instruction} : Atomic (eraseInstruction i) c :=
  .get_bind (.ask fun _ _ => .ask_fault fun _ _ =>
    .of_firm (.bind (.map takeOut_firm) fun _ _ _ => removeValue_firm))

/-- An instruction of the context is erased or the run ends. -/
theorem eraseInstruction_firm {i : Instruction} (hi : i.value.ctx = c.graph.ctx) :
    Firm (eraseInstruction i) c :=
  .get_bind (.ask (Graph.check_not_rejected hi) fun _ _ => .ask_fault fun _ _ =>
    .bind (.map takeOut_firm) fun _ _ _ => removeValue_firm)

/-- What a loop over values of the context needs, and tame changes keep. -/
def SoundAt (id : ContextId) (c : Context) : Prop := c.Sound ∧ c.id = id

/-- A context stays sound, with its number, over local changes. -/
theorem SoundAt.of_chain {id : ContextId} {c c' : Context} (h : SoundAt id c)
    (chain : Relation.ReflTransGen Local c c') : SoundAt id c' := by
  induction chain with
  | refl => exact h
  | tail _ step ih =>
    refine ⟨step.quiet.tame.sound ih.1, ?_⟩
    rw [← ih.2]
    cases step.quiet.tame <;> rfl

/-- A loop of requests that are firm on sound contexts with a given number. -/
theorem forM_firm {α : Type} {id : ContextId} {l : List α} {f : α → Run Context Unit}
    (steps : ∀ a c, Run.Steps Local (f a) c) (firm : ∀ a ∈ l, ∀ c, SoundAt id c → Firm (f a) c)
    (h : SoundAt id c) : Firm (l.forM f) c :=
  .forM l (fun a _ c c' b hc hm => hc.of_chain (steps a c b c' hm)) firm c h

/-- Releasing a block is not rejected. -/
theorem releaseBlock_firm {b : Block} : Firm (releaseBlock b) c :=
  .get_bind (.forM (P := fun _ => True) _ (fun _ _ _ _ _ _ _ => trivial)
    (fun _ _ _ _ => onGraph_firm Graph.dropAllReferences_firm) c trivial)

/-- What follows the check of a block. -/
theorem eraseBlock_rest_firm (hs : c.Sound) {b : Block} :
    Firm (do
      let is := (← get).layout.instructions b
      releaseBlock b
      (← get).graph.ensureUnused b.value
      is.forM eraseInstruction
      discard <| onLayout (Layout.removeBlock b)
      onLayout (modify (·.dropBlock b))
      onGraph (Graph.removeValue b.value)) c := by
  refine .get_bind (.bind releaseBlock_firm fun _ c₁ h₁ => ?_)
  -- Releasing the block changes uses, which keeps the context sound.
  have hs₁ : SoundAt c.id c₁ := SoundAt.of_chain ⟨hs, rfl⟩ (releaseBlock_steps _ c₁ h₁)
  refine .get_bind (.ask_fault fun _ _ => ?_)
  refine .bind (forM_firm (fun _ _ => eraseInstruction_steps) (fun i hi c' hc' => ?_) hs₁) ?_
  · -- The instructions were listed before the first change, and belong to the context.
    refine eraseInstruction_firm ?_
    rw [hs.layout.instructions hi, hs.graphCtx, hc'.1.graphCtx, hc'.2]
  · intro _ _ _
    refine .bind (.map (onLayout_firm (Layout.removeBlock_firm b _))) fun _ _ _ => ?_
    exact .bind (onLayout_firm .modify) fun _ _ _ => removeValue_firm

/-- A rejected erasure of a block leaves the context as it was. -/
theorem eraseBlock_atomic (hs : c.Sound) {b : Block} : Atomic (eraseBlock b) c :=
  .get_bind (.ask fun _ _ => .of_firm (eraseBlock_rest_firm hs))

/-- The erasure of a block of the context is not rejected. -/
theorem eraseBlock_firm (hs : c.Sound) {b : Block} (hb : b.value.ctx = c.graph.ctx) :
    Firm (eraseBlock b) c :=
  .get_bind (.ask (Graph.check_not_rejected hb) fun _ _ => eraseBlock_rest_firm hs)

/-- What follows the check of a function. -/
theorem eraseFunction_rest_firm (hs : c.Sound) {f : Func} :
    Firm (do
      let bs := (← get).layout.blocks f
      bs.forM releaseBlock
      (← get).graph.ensureUnused f.value
      bs.forM eraseBlock
      let (_, args) ← (← get).functionData f
      args.forM fun a => onGraph (Graph.removeValue a.value)
      if let some name ← (← get).nameOf f.value then
        modify fun c => { c with names := c.names.erase name }
      modify fun c =>
        { c with functions := c.functions.filter (· ≠ f), layout := c.layout.dropFunction f }
      onGraph (Graph.removeValue f.value)) c := by
  -- All that could be rejected is the check of the handle, and that comes before.
  refine .get_bind ?_
  have hc : SoundAt c.id c := ⟨hs, rfl⟩
  refine .bind (forM_firm (fun _ _ => releaseBlock_steps) (fun _ _ _ _ => releaseBlock_firm) hc) ?_
  intro _ c₁ h₁
  have hc₁ : SoundAt c.id c₁ :=
    hc.of_chain (Run.Steps.forM _ (fun _ _ _ => releaseBlock_steps) c _ c₁ h₁)
  refine .get_bind (.ask_fault fun _ _ => ?_)
  refine .bind (forM_firm (fun _ _ => eraseBlock_steps) (fun b hb c' hc' => ?_) hc₁) ?_
  · -- The blocks were listed before the first change, and belong to the context.
    refine eraseBlock_firm hc'.1 ?_
    rw [hs.layout.blocks hb, hs.graphCtx, hc'.1.graphCtx, hc'.2]
  · intro _ c₂ _
    refine .get_bind (.ask_fault fun x _ => ?_)
    refine .bind (.forM (P := fun _ => True) _ (fun _ _ _ _ _ _ _ => trivial)
      (fun _ _ _ _ => removeValue_firm) c₂ trivial) fun _ _ _ => ?_
    refine .get_bind (.ask_fault fun name _ => ?_)
    split
    · exact .bind .modify fun _ _ _ => .bind .modify fun _ _ _ => removeValue_firm
    · exact .bind .modify fun _ _ _ => removeValue_firm

/-- A rejected erasure of a function leaves the context as it was. -/
theorem eraseFunction_atomic (hs : c.Sound) {f : Func} : Atomic (eraseFunction f) c :=
  .get_bind (.ask fun _ _ => .of_firm (eraseFunction_rest_firm hs))

/-- The erasure of a function of the context is not rejected. -/
theorem eraseFunction_firm (hs : c.Sound) {f : Func} (hf : f.value.ctx = c.graph.ctx) :
    Firm (eraseFunction f) c :=
  .get_bind (.ask (Graph.check_not_rejected hf) fun _ _ => eraseFunction_rest_firm hs)

/-- A rejected erasure of a value leaves the context as it was. -/
theorem eraseValue_atomic (hs : c.Sound) {v : Value} : Atomic (eraseValue v) c := by
  refine .get_bind (.ask fun _ _ => .ask_fault fun k _ => ?_)
  split
  · exact eraseInstruction_atomic
  · exact eraseBlock_atomic hs
  · exact eraseFunction_atomic hs
  · exact .reject
  · exact .reject

end Context

end SsaGraph
