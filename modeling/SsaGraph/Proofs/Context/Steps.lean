import SsaGraph.Proofs.Context.Change

/-!
# Requests as chains of changes

For each request on a context that builds no instruction: a successful run is a chain of changes.
The requests for constants are chains of `Pools`, those that point a slot elsewhere are chains of
tame changes (`replaceAllUses`) or of changes of any sort, `newFunction` and `newBlock` are chains
of quiet ones, and the others are chains of local ones. The proofs follow the requests line by line.
A question adds nothing to the chain, a loop adds the chains of its rounds, and only three requests
need to know more than that: `replaceAllUses` takes the coherence of the graph, the layout requests
use that what they were given passed a check, and `newFunction` that the function it creates is
still there when its arguments are.
-/

namespace SsaGraph

open Run (Steps)

namespace Context

variable {c : Context}

/-! ## Constants -/

/-- A constant is found in the pool, or created and entered. -/
theorem constant_cases {ty : Ty} {k : Constant} {v : Value} {c' : Context}
    (h : constant ty k c = .ok v c') :
    (c.pool.get? (ty, k) = some v ∧ c' = c) ∨
      c.pool.get? (ty, k) = none ∧ v = ⟨c.graph.ctx, c.graph.values.size⟩ ∧
      c' = { c with
        graph := (c.graph.push ⟨ty, none, .constant k, [], none, 0⟩).2
        pool := c.pool.insert (ty, k) v } := by
  simp only [constant, Run.bind_eq_ok_iff, Run.get_apply] at h
  obtain ⟨_, _, h₀, h⟩ := h
  cases h₀
  -- Either the pool has the constant, or it is created and entered there.
  cases hv : c.pool.get? (ty, k) with
  | some w =>
    rw [hv] at h
    cases h
    exact .inl ⟨rfl, rfl⟩
  | none =>
    simp only [hv, Run.bind_eq_ok_iff, Run.modify_apply] at h
    obtain ⟨w, c₁, h₁, _, _, h₂, h₃⟩ := h
    obtain ⟨rfl, rfl⟩ := newValue_ok h₁
    cases h₂
    cases h₃
    exact .inr ⟨rfl, rfl, rfl⟩

/-- Asking for a constant in a type of the table pools it. -/
theorem constant_pools {ty : Ty} {k : Constant} (typed : c.types.Has ty) :
    Steps Pools (constant ty k) c := by
  intro v c' h
  rcases constant_cases h with ⟨-, rfl⟩ | ⟨new, rfl, rfl⟩
  · exact .refl
  · exact .single (.constant typed new)

/-- A constant handed on as a handle of its class. -/
theorem constantHandle_pools {cls : Class} {ty : Ty} {k : Constant} (typed : c.types.Has ty) :
    Steps Pools (do return (⟨← constant ty k⟩ : Handle cls)) c :=
  .bind (constant_pools typed) fun _ _ _ => .pure

/-- Asking for an integer constant pools it. -/
theorem constInt_pools {ty : Ty} {x : Nat} : Steps Pools (constInt ty x) c := by
  refine .get_bind (.ask fun _ _ => .ask_fault fun d hd => ?_)
  have typed : c.types.Has ty := ⟨d, TypeTable.data_eq_ok_iff.1 hd⟩
  split
  · exact .guard fun _ => constantHandle_pools typed
  · exact .reject
  · exact .reject

/-- Asking for a truth value pools it. -/
theorem constBool_pools (hs : c.Sound) {b : Bool} : Steps Pools (constBool b) c :=
  .get_bind (constantHandle_pools (hs.types.has_primitive (by decide)))

/-- Asking for a float constant pools it. -/
theorem constFloat_pools {ty : Ty} {bits : BitVec 64} : Steps Pools (constFloat ty bits) c := by
  refine .get_bind (.ask fun _ _ => .ask_fault fun k hk => ?_)
  have typed := TypeTable.has_of_kind hk
  split
  · exact constantHandle_pools typed
  · exact constantHandle_pools typed
  · exact .reject
  · exact .reject

/-- Asking for a null constant pools it. -/
theorem constNull_pools {ty : Ty} : Steps Pools (constNull ty) c :=
  .get_bind (.ask fun _ _ => .ask_fault fun _ hk => .guard fun _ =>
    constantHandle_pools (TypeTable.has_of_kind hk))

/-- Asking for an undefined value pools it. -/
theorem undef_pools {ty : Ty} : Steps Pools (undef ty) c :=
  .get_bind (.ask fun _ _ => .ask_fault fun _ hk => .guard fun _ =>
    constantHandle_pools (TypeTable.has_of_kind hk))

/-! ## Functions and names -/

/-- The registry and the layout are changed together. -/
theorem register_chain {functions : List Func} {names : Keyed String Func} {layout : Layout}
    (h : c.Owns c.layout → c.Owns layout) :
    Relation.ReflTransGen Local c { c with functions, names, layout } :=
  .head ⟨.aside (.registry functions names) rfl rfl, rfl, rfl⟩
    (.single ⟨.aside (.layout (c := { c with functions, names }) h) rfl rfl, rfl, rfl⟩)

/-- Creating arguments is a chain of creations, after which what was there is still there. -/
theorem newArguments_ok {f : Func} {index : Nat} {params : List Ty} {c c' : Context}
    {args : List Argument} (h : newArguments f index params c = .ok args c') :
    Relation.ReflTransGen Quiet c c' ∧
      ∀ {v d}, c.graph.value? v = some d → c'.graph.value? v = some d := by
  -- On the parameters: each argument is pushed on the arena, which keeps what is there.
  induction params generalizing index c args with
  | nil =>
    cases h
    exact ⟨.refl, fun h => h⟩
  | cons param params ih =>
    simp only [newArguments, Run.bind_eq_ok_iff] at h
    obtain ⟨v, c₁, h₁, args', c₂, h₂, h₃⟩ := h
    cases h₃
    obtain ⟨rfl, rfl⟩ := newValue_ok h₁
    obtain ⟨chain, keep⟩ := ih h₂
    refine ⟨.head (.create (.create none ?_ ?_) rfl rfl) chain, fun {v d} hd => keep ?_⟩
    · rfl
    · intro h
      cases h
    · rw [Graph.value?_push, if_neg]
      · exact hd
      · rintro rfl
        simp [Graph.push, Graph.value?_next] at hd

/-- Making a function makes quiet changes. -/
theorem newFunction_steps {name : String} {ty : Ty} : Steps Quiet (newFunction name ty) c := by
  refine .get_bind (.ask fun _ _ => .ask_fault fun k _ => .guard fun _ => ?_)
  split
  · exact .reject_bind
  · refine .bind (onTypes_steps ((TypeTable.pointerType_gets ty 0).steps rfl _)) fun ptr c₁ _ => ?_
    refine .ask_fault fun d _ => ?_
    split
    · rename_i params _ _
      refine .bind (newValue_steps (some name) rfl (by simp)) fun v c₂ h₂ => ?_
      obtain ⟨rfl, rfl⟩ := newValue_ok h₂
      intro f c' h
      simp only [Run.bind_eq_ok_iff] at h
      obtain ⟨args, c₃, h₃, _, c₄, h₄, _, c₅, h₅, h₆⟩ := h
      obtain ⟨chain, keep⟩ := newArguments_ok h₃
      -- The function is still there when it gets its arguments, and is registered last.
      have hv : c₃.graph.value? ⟨c₁.graph.ctx, c₁.graph.values.size⟩ =
          some ⟨ptr, some name, .function ty [], [], none, 0⟩ := by
        refine keep ?_
        rw [Graph.value?_push]
        exact if_pos rfl
      obtain ⟨g, hg, rfl⟩ := onGraph_ok h₄
      cases hg
      cases h₅
      cases h₆
      refine chain.trans (.head (.graph (.touch hv (.function ty args))) ?_)
      exact quiets_of_local (register_chain fun owned => owned.addFunction _)
    · exact .fault

/-- Registering a name makes local changes. -/
theorem registerName_steps {f : Func} {name : Option String} :
    Steps Local (registerName f name) c := by
  unfold registerName
  split
  · exact .reject
  · refine .get_bind ?_
    split
    · split
      · exact .pure
      · exact .reject
    · refine .ask_fault fun old _ => ?_
      intro _ c' h
      cases h
      exact .single ⟨.aside (.registry _ _) rfl rfl, rfl, rfl⟩

/-- Renaming a value makes local changes. -/
theorem setName_steps {v : Value} {name : Option String} : Steps Local (setName v name) c := by
  have rename : ∀ {c}, Steps Local (onGraph (modify (·.modifyValue v ({ · with name })))) c := by
    intro c
    refine onGraph_steps fun _ g h => ?_
    cases h
    exact .single (.rename v name)
  refine .get_bind (.ask fun _ _ => ?_)
  refine .ask_fault fun ty _ => .guard fun _ => .ask_fault fun f _ => ?_
  split
  · exact .bind registerName_steps fun _ _ _ => rename
  · exact rename

/-! ## Blocks and instructions -/

/-- Making a block makes quiet changes. -/
theorem newBlock_steps {name : Option String} : Steps Quiet (newBlock name) c := by
  refine .get_bind (.bind (newValue_steps name rfl fun _ => rfl) fun v c₁ _ => ?_)
  refine .bind (.mono (onLayout_steps fun h owned => ?_) fun _ _ => Local.quiet) fun _ _ _ => .pure
  cases h
  exact owned.addBlock _

/-- Appending a block makes local changes. -/
theorem appendBlock_steps {f : Func} {b : Block} : Steps Local (appendBlock f b) c := by
  refine .get_bind (.ask fun _ _ => .ask fun _ hb => onLayout_steps fun h owned => ?_)
  simp only [checkDetachedBlock, Question.bind_eq_ok_iff] at hb
  obtain ⟨_, hb, -⟩ := hb
  exact Layout.appendBlock_members (ctx_of_check hb) h owned

/-- Inserting a block makes local changes. -/
theorem insertBlock_steps {anchor b : Block} : Steps Local (insertBlock anchor b) c := by
  refine .get_bind (.ask fun _ _ => .ask fun _ hb => .guard fun _ =>
    onLayout_steps fun h owned => ?_)
  simp only [checkDetachedBlock, Question.bind_eq_ok_iff] at hb
  obtain ⟨_, hb, -⟩ := hb
  exact Layout.insertBlock_members (ctx_of_check hb) h owned

/-- Removing a block makes local changes. -/
theorem removeBlock_steps {b : Block} : Steps Local (removeBlock b) c :=
  .get_bind (.ask fun _ _ => onLayout_steps fun h owned => Layout.removeBlock_members h owned)

/-- Placing an instruction of the context. -/
theorem place_steps {i : Instruction} (hi : i.value.ctx = c.graph.ctx) (point : InsertPoint) :
    Steps Local (place i point) c := by
  cases point with
  | detached => exact .pure
  | before anchor =>
    exact onLayout_steps fun h owned => Layout.insertInstruction_members hi h owned
  | atEnd b => exact onLayout_steps fun h owned => Layout.appendInstruction_members hi h owned

/-- Taking an instruction out of the layout makes local changes. -/
theorem takeOut_steps {i : Instruction} : Steps Local (onLayout (Layout.removeInstruction i)) c :=
  onLayout_steps fun h owned => Layout.removeInstruction_members h owned

/-- Removing an instruction makes local changes. -/
theorem removeInstruction_steps {i : Instruction} : Steps Local (removeInstruction i) c :=
  .get_bind (.ask fun _ _ => takeOut_steps)

/-- Inserting an instruction makes local changes. -/
theorem insertInstruction_steps {i anchor : Instruction} :
    Steps Local (insertInstruction i anchor) c := by
  refine .get_bind (.ask fun _ hi => .ask fun _ _ => place_steps ?_ _)
  simp only [checkDetached, Question.bind_eq_ok_iff] at hi
  obtain ⟨_, hi, -⟩ := hi
  exact ctx_of_check hi

/-- Appending an instruction makes local changes. -/
theorem appendInstruction_steps {i : Instruction} {b : Block} :
    Steps Local (appendInstruction i b) c := by
  refine .get_bind (.ask fun _ hi => .ask fun _ _ => place_steps ?_ _)
  simp only [checkDetached, Question.bind_eq_ok_iff] at hi
  obtain ⟨_, hi, -⟩ := hi
  exact ctx_of_check hi

/-- Moving an instruction of the context. -/
theorem move_steps {i : Instruction} (hi : i.value.ctx = c.graph.ctx) (point : InsertPoint) :
    Steps Local (do discard <| onLayout (Layout.removeInstruction i); place i point) c := by
  refine .bind (.map takeOut_steps) fun _ c' h => place_steps ?_ point
  obtain ⟨_, h, -⟩ := Run.map_eq_ok_iff.1 h
  obtain ⟨l, -, rfl⟩ := Run.on_eq_ok_iff.1 h
  exact hi

/-- Moving an instruction before another makes local changes. -/
theorem moveBefore_steps {i anchor : Instruction} : Steps Local (moveBefore i anchor) c := by
  refine .get_bind (.ask fun _ hi => ?_)
  split
  · exact .reject_bind
  · exact .ask fun _ _ => move_steps (ctx_of_check hi) _

/-- Moving an instruction to the end of a block makes local changes. -/
theorem moveToEnd_steps {i : Instruction} {b : Block} : Steps Local (moveToEnd i b) c :=
  .get_bind (.ask fun _ hi => .ask fun _ _ => move_steps (ctx_of_check hi) _)

/-! ## Operands -/

/-- Replacing all uses of a value makes tame changes. -/
theorem replaceAllUses_steps (hs : c.Sound) {old new : Value} :
    Steps Tame (replaceAllUses old new) c :=
  .get_bind (.ask fun _ _ => .ask fun _ _ =>
    .on rfl (fun _ _ hg => .graph hg) (Graph.replaceAllUses_steps hs.graph old new))

/-- Dropping all uses of a value makes local changes. -/
theorem dropAllUses_steps (hs : c.Sound) {v : Value} : Steps Local (dropAllUses v) c :=
  .get_bind (.ask fun _ _ => onGraph_steps (Graph.dropAllUses_steps hs.graph v))

/-- Dropping the operands of a value makes local changes. -/
theorem dropAllReferences_steps {user : Value} : Steps Local (dropAllReferences user) c :=
  .get_bind (.ask fun _ _ => onGraph_steps (Graph.dropAllReferences_steps user _))

/-- Touching up the marks of a call. -/
theorem setOperation_steps {i : Instruction} {fnType : Ty} {marker marker' : TailCall}
    {conv conv' : CallingConv} (h : c.operation i = .ok (.call fnType marker conv)) :
    Steps Local (setOperation i (.call fnType marker' conv')) c := by
  simp only [operation, kindOf, valueData, Question.bind_eq_ok_iff] at h
  obtain ⟨k, ⟨d, hd, hk⟩, h⟩ := h
  split at hd
  · cases hd
  · rw [Graph.value_eq_ok_iff] at hd
    cases hk
    have hkind : d.kind = .instruction (.call fnType marker conv) := by
      cases hk : d.kind <;> simp_all
    refine onGraph_steps fun _ g hg => ?_
    cases hg
    refine .single (.touch hd ?_)
    rw [hkind]
    exact .call ..

/-- Setting the tail call marker makes local changes. -/
theorem setTailCall_steps {i : Handle .call} {marker : TailCall} :
    Steps Local (setTailCall i marker) c := by
  refine .get_bind (.ask_fault fun op h => ?_)
  split
  · exact setOperation_steps h
  · exact .fault

/-- Setting the calling convention makes local changes. -/
theorem setCallingConv_steps {i : Handle .call} {conv : CallingConv} :
    Steps Local (setCallingConv i conv) c := by
  refine .get_bind (.ask_fault fun op h => ?_)
  split
  · exact setOperation_steps h
  · exact .fault

/-- Pointing one slot to any value is a change, but not a tame one. -/
theorem setOperand_steps {user : Value} {index : Nat} {target : Option Value} :
    Steps Change (setOperand user index target) c := by
  refine .get_bind (.ask fun _ _ => .ask fun _ _ => ?_)
  intro a c' h
  obtain ⟨g, hg, rfl⟩ := onGraph_ok h
  obtain ⟨d, u, e, -, -, -, he, heff⟩ := Graph.setOperand_ok hg
  cases target with
  | none =>
    rw [heff]
    exact .single (.tame (.graph (.clear he)))
  | some v =>
    obtain ⟨⟨d', hd'⟩, rfl⟩ := heff
    exact .single (.graph (.retarget he hd'))

/-- Adding an operand changes the graph only. -/
theorem pushOperand_ok {user target : Value} {c' : Context} {a : Unit}
    (h : pushOperand user target c = .ok a c') :
    ∃ graph, Graph.pushOperand user target c.graph = .ok a graph ∧ c' = { c with graph } := by
  simp only [pushOperand, Run.bind_eq_ok_iff, Run.get_apply, Run.question_eq_ok_iff] at h
  obtain ⟨_, _, h₀, _, _, ⟨-, rfl⟩, _, _, ⟨-, rfl⟩, h⟩ := h
  cases h₀
  exact onGraph_ok h

/-- Adding an operand makes changes. -/
theorem pushOperand_steps {user target : Value} : Steps Change (pushOperand user target) c := by
  intro a c' h
  obtain ⟨g, hg, rfl⟩ := pushOperand_ok h
  exact .single (.graph (.grow hg))

/-- Adding a case makes changes. -/
theorem addCase_steps {i : Handle .switch} {value : Handle .intConstant} {dest : Block} :
    Steps Change (addCase i value dest) c :=
  .get_bind (.ask fun _ _ => .ask fun _ _ => .ask_fault fun _ _ => .ask_fault fun _ _ =>
    .guard fun _ => .bind pushOperand_steps fun _ _ _ => pushOperand_steps)

/-- Adding an incoming edge makes changes. -/
theorem addIncoming_steps {p : Handle .phi} {value : Value} {b : Block} :
    Steps Change (addIncoming p value b) c :=
  .get_bind (.ask fun _ _ => .ask fun _ _ => .ask_fault fun _ _ => .ask_fault fun _ _ =>
    .guard fun _ => .bind pushOperand_steps fun _ _ _ => pushOperand_steps)

/-! ## Erasure -/

/-- Removing a value makes local changes. -/
theorem removeValue_steps {v : Value} : Steps Local (onGraph (Graph.removeValue v)) c :=
  onGraph_steps (Graph.removeValue_steps v _)

/-- The erasure of an instruction makes local changes. -/
theorem eraseInstruction_steps {i : Instruction} : Steps Local (eraseInstruction i) c :=
  .get_bind (.ask fun _ _ => .ask_fault fun _ _ =>
    .bind (.map takeOut_steps) fun _ _ _ => removeValue_steps)

/-- Releasing a block makes local changes. -/
theorem releaseBlock_steps {b : Block} : Steps Local (releaseBlock b) c :=
  .get_bind (.forM _ (fun _ _ _ => onGraph_steps (Graph.dropAllReferences_steps _ _)) c)

/-- The erasure of a block makes local changes. -/
theorem eraseBlock_steps {b : Block} : Steps Local (eraseBlock b) c := by
  refine .get_bind (.ask fun _ _ => .get_bind (.bind releaseBlock_steps fun _ _ _ => ?_))
  refine .get_bind (.ask_fault fun _ _ => ?_)
  refine .bind (.forM _ (fun _ _ _ => eraseInstruction_steps) _) fun _ _ _ => ?_
  refine .bind (.map (onLayout_steps fun h owned => Layout.removeBlock_members h owned)) ?_
  intro _ c' _
  refine .bind (onLayout_steps fun h owned => ?_) fun _ _ _ => removeValue_steps
  cases h
  exact owned.dropBlock b

/-- The erasure of a function makes local changes. -/
theorem eraseFunction_steps {f : Func} : Steps Local (eraseFunction f) c := by
  refine .get_bind (.ask fun _ _ => .get_bind ?_)
  refine .bind (.forM _ (fun _ _ _ => releaseBlock_steps) _) fun _ _ _ => ?_
  refine .get_bind (.ask_fault fun _ _ => ?_)
  refine .bind (.forM _ (fun _ _ _ => eraseBlock_steps) _) fun _ _ _ => ?_
  refine .get_bind (.ask_fault fun x _ => ?_)
  refine .bind (.forM _ (fun _ _ _ => removeValue_steps) _) fun _ c₁ _ => ?_
  -- The function leaves the registry and the layout, and is removed.
  have finish : ∀ {c}, Steps Local (do
      modify fun c : Context =>
        { c with functions := c.functions.filter (· ≠ f), layout := c.layout.dropFunction f }
      onGraph (Graph.removeValue f.value)) c := by
    intro c
    refine .bind (fun _ c' h => ?_) fun _ _ _ => removeValue_steps
    cases h
    exact register_chain fun owned => owned.dropFunction f
  refine .get_bind (.ask_fault fun name _ => ?_)
  split
  · refine .bind (fun _ c' h => ?_) fun _ _ _ => finish
    cases h
    exact .single ⟨.aside (.registry c₁.functions _) rfl rfl, rfl, rfl⟩
  · exact finish

/-- The erasure of a value makes local changes. -/
theorem eraseValue_steps {v : Value} : Steps Local (eraseValue v) c := by
  refine .get_bind (.ask fun _ _ => .ask_fault fun k _ => ?_)
  split
  · exact eraseInstruction_steps
  · exact eraseBlock_steps
  · exact eraseFunction_steps
  · exact .reject
  · exact .reject

end Context

end SsaGraph
