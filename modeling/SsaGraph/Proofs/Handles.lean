import SsaGraph.Proofs.Context.Shed

/-!
# Requests with checked handles

A request is made with handles of values, some of them claimed to be of a class, and with handles of
types. `Request.mentions` lists the former, each with its class, and `Request.types` the latter. A
request is class-checked if each of its handles is of the class it is claimed to be of, provided
that the value is alive; values of other contexts and values that are gone may be mentioned too, and
it is left to the request to find out. It is live if all its handles are those of live values and of
types of the context.

The main result is that class-checked requests keep a context intact (`Request.run_intact`). So
every context that a history of class-checked requests leads to is intact, and what the context
keeps about its values can be relied on.
-/

namespace SsaGraph

open Run (Steps)

/-- The values that a place is told by, with the classes they are claimed to be of. -/
def InsertPoint.mentions : InsertPoint → List (Class × Value)
  | detached => []
  | before i => [(.instruction, i.value)]
  | atEnd b => [(.block, b.value)]

namespace Request

/-- The values that a request is made with, and the classes they are claimed to be of. -/
def mentions : Request → List (Class × Value)
  | integerType _ | functionType _ _ _ | pointerType _ _ | arrayType _ _ | vectorType _ _
  | literalStruct _ _ | createStruct _ | createStructWithBody _ _ _ | setStructBody _ _ _
  | setStructName _ _ | deriveVector _ _ | constInt _ _ | constBool _ | constFloat _ _ | constNull _
  | undef _ | newFunction _ _ | newBlock _ => []
  | setName v _ | dropAllUses v | dropAllReferences v | eraseValue v => [(.value, v)]
  | setOperand user _ target => (.value, user) :: target.toList.map (.value, ·)
  | replaceAllUses old new => [(.value, old), (.value, new)]
  | addCase i value dest => [(.switch, i.value), (.intConstant, value.value), (.block, dest.value)]
  | addIncoming i value b => [(.phi, i.value), (.value, value), (.block, b.value)]
  | setTailCall i _ | setCallingConv i _ => [(.call, i.value)]
  | appendBlock f b => [(.function, f.value), (.block, b.value)]
  | insertBlock anchor b => [(.block, anchor.value), (.block, b.value)]
  | removeBlock b | eraseBlock b => [(.block, b.value)]
  | removeInstruction i | eraseInstruction i => [(.instruction, i.value)]
  | insertInstruction i anchor | moveBefore i anchor =>
    [(.instruction, i.value), (.instruction, anchor.value)]
  | appendInstruction i b | moveToEnd i b => [(.instruction, i.value), (.block, b.value)]
  | eraseFunction f => [(.function, f.value)]
  | ret site value => site.point.mentions ++ value.toList.map (.value, ·)
  | br site dest => site.point.mentions ++ [(.block, dest.value)]
  | condBr site cond ifTrue ifFalse =>
    site.point.mentions ++ [(.value, cond), (.block, ifTrue.value), (.block, ifFalse.value)]
  | switch site cond dest => site.point.mentions ++ [(.value, cond), (.block, dest.value)]
  | unreachable site | phi site _ => site.point.mentions
  | binary site _ lhs rhs | icmp site _ lhs rhs | fcmp site _ lhs rhs =>
    site.point.mentions ++ [(.value, lhs), (.value, rhs)]
  | alloca site _ size => site.point.mentions ++ size.toList.map (.value, ·)
  | load site ptr => site.point.mentions ++ [(.value, ptr)]
  | store site value ptr => site.point.mentions ++ [(.value, value), (.value, ptr)]
  | elementPtr site ptr indices _ =>
    site.point.mentions ++ (.value, ptr) :: indices.map (.value, ·)
  | cast site _ value _ => site.point.mentions ++ [(.value, value)]
  | call site callee args => site.point.mentions ++ (.value, callee) :: args.map (.value, ·)
  | select site cond ifTrue ifFalse =>
    site.point.mentions ++ [(.value, cond), (.value, ifTrue), (.value, ifFalse)]

/-- The types that a request is made with. -/
def types : Request → List Ty
  | functionType result params _ => result :: params
  | pointerType ty _ | arrayType ty _ | vectorType ty _ | setStructName ty _ | deriveVector _ ty
  | constInt ty _ | constFloat ty _ | constNull ty | undef ty | newFunction _ ty | alloca _ ty _
  | cast _ _ _ ty | phi _ ty => [ty]
  | literalStruct fields _ | createStructWithBody _ fields _ => fields
  | setStructBody ty fields _ => ty :: fields
  | _ => []

/-- Each handle of the request is of its class, if the value is alive. -/
def ClassChecked (c : Context) (r : Request) : Prop :=
  ∀ m ∈ r.mentions, c.HasClass (⟨m.2⟩ : Handle m.1)

/-- Each handle of the request is that of a live value of its class, or of a type of the context. -/
structure Live (c : Context) (r : Request) : Prop where
  /-- The values are alive and of their classes. -/
  values : ∀ m ∈ r.mentions, c.isa m.1 m.2 = .ok true
  /-- The types are there. -/
  types : ∀ ty ∈ r.types, ∃ d, c.types.data ty = .ok d

end Request

namespace Context

variable {c c' : Context}

/-- The contexts that histories of class-checked requests lead to. -/
abbrev ClassChecked : Context → Prop := ReachedBy Request.ClassChecked

/-! ## Erasing with checked handles -/

/-- The erasure of an instruction keeps the context intact. -/
theorem eraseInstruction_upkeep {i : Instruction} (hs : c.Sound) (hi : c.Intact)
    (hh : c.HasClass i) : Steps Upkeep (eraseInstruction i) c := by
  intro a c' run
  obtain ⟨d, _, _, _, hd, -⟩ := eraseInstruction_eq_ok run
  have hv := hh.has hs (check_eq_ok_iff (a := ()).2 ⟨d, hd⟩)
  have shed := eraseInstruction_sheds hs hi hv run
  exact .single fun _ => shed.intact_of_body hi (by simpa using .inr hv)

/-- The erasure of a block keeps the context intact. -/
theorem eraseBlock_upkeep {b : Block} (hs : c.Sound) (hi : c.Intact) (hh : c.HasClass b) :
    Steps Upkeep (eraseBlock b) c := by
  intro a c' run
  obtain ⟨_, _, _, _, _, check, -⟩ := eraseBlock_eq_ok run
  have hb := hh.has hs check
  have shed := eraseBlock_sheds hs hi hb run
  exact .single fun _ => shed.intact_of_body hi fun v hv => hi.layout.of_mem_extent hb hv

/-- The erasure of a function keeps the context intact. -/
theorem eraseFunction_upkeep {f : Func} (hs : c.Sound) (hi : c.Intact) (hh : c.HasClass f) :
    Steps Upkeep (eraseFunction f) c := by
  intro a c' run
  obtain ⟨_, _, _, _, _, _, _, check, -⟩ := eraseFunction_eq_ok run
  exact .single fun _ => eraseFunction_intact hs hi (hh.has hs check) run

/-- The kind of the value says what is erased. -/
theorem eraseValue_upkeep {v : Value} (hs : c.Sound) (hi : c.Intact) :
    Steps Upkeep (eraseValue v) c := by
  refine .get_bind (.ask fun _ _ => .ask_fault fun k hk => ?_)
  have hasClass : ∀ {cls : Class}, cls.contains k = true → c.HasClass (⟨v⟩ : Handle cls) := by
    intro cls hcls
    refine hasClass_of_isa ?_
    simp [isa, hk, hcls]
  split
  · exact eraseInstruction_upkeep hs hi (hasClass rfl)
  · exact eraseBlock_upkeep hs hi (hasClass rfl)
  · exact eraseFunction_upkeep hs hi (hasClass rfl)
  · exact .reject
  · exact .reject

end Context

/-! ## Single requests -/

namespace Request

open Context

variable {c c' : Context}

/-- A class-checked request keeps a context intact. -/
theorem run_upkeep (hs : c.Sound) (hi : c.Intact) {r : Request} (hr : r.ClassChecked c) :
    Steps Upkeep r.run c := by
  cases hsupply : r.isSupply with
  | true =>
    intro a c' run
    -- What is supplied adds types and constants, which no list or registry mentions.
    exact .single fun intact => intact.supplies (run_supply hs hsupply a c' run)
  | false =>
    cases hfactory : r.isFactory with
    | true =>
      obtain ⟨m, site, hm, builds⟩ := run_builds hs hfactory
      rw [hm]
      exact valued_steps (builds.upkeep hs)
    | false =>
      have other : (r.isFactory || r.isSupply) = false := by rw [hfactory, hsupply]; rfl
      -- Only the requests that put a handle into a list or take its value away need the class of
      -- the handle.
      cases r with
      | setName v name => exact silent_steps setName_upkeep
      | setOperand user index target => exact silent_steps setOperand_upkeep
      | replaceAllUses old new => exact silent_steps replaceAllUses_upkeep
      | dropAllUses v => exact silent_steps dropAllUses_upkeep
      | dropAllReferences user => exact silent_steps dropAllReferences_upkeep
      | addCase i value dest => exact silent_steps addCase_upkeep
      | addIncoming i value b => exact silent_steps addIncoming_upkeep
      | setTailCall i marker => exact silent_steps setTailCall_upkeep
      | setCallingConv i conv => exact silent_steps setCallingConv_upkeep
      | newFunction name ty => exact valued_steps (newFunction_upkeep hs)
      | newBlock name => exact valued_steps (newBlock_upkeep hs)
      | appendBlock f b =>
        exact silent_steps (appendBlock_upkeep hs (hr (.block, b.value) (by simp [mentions])))
      | insertBlock anchor b =>
        exact silent_steps (insertBlock_upkeep hs (hr (.block, b.value) (by simp [mentions])))
      | removeBlock b => exact parental_steps removeBlock_upkeep
      | removeInstruction i => exact parental_steps removeInstruction_upkeep
      | insertInstruction i anchor =>
        exact silent_steps
          (insertInstruction_upkeep hs (hr (.instruction, i.value) (by simp [mentions])))
      | appendInstruction i b =>
        exact silent_steps
          (appendInstruction_upkeep hs (hr (.instruction, i.value) (by simp [mentions])))
      | moveBefore i anchor =>
        exact silent_steps
          (moveBefore_upkeep hi hs (hr (.instruction, i.value) (by simp [mentions])))
      | moveToEnd i b =>
        exact silent_steps
          (moveToEnd_upkeep hi hs (hr (.instruction, i.value) (by simp [mentions])))
      | eraseInstruction i =>
        exact silent_steps
          (eraseInstruction_upkeep hs hi (hr (.instruction, i.value) (by simp [mentions])))
      | eraseBlock b =>
        exact silent_steps (eraseBlock_upkeep hs hi (hr (.block, b.value) (by simp [mentions])))
      | eraseFunction f =>
        exact silent_steps
          (eraseFunction_upkeep hs hi (hr (.function, f.value) (by simp [mentions])))
      | eraseValue v => exact silent_steps (eraseValue_upkeep hs hi)
      | _ => cases other

end Request

/-! ## Histories -/

namespace Context

variable {c : Context}

/-- The context that requests lead to, one after the other, if all are made with handles of live
values and all are answered. -/
def replay : List Request → Context → Option Context
  | [], c => some c
  | r :: rs, c =>
    if ∀ m ∈ r.mentions, c.isa m.1 m.2 = .ok true then
      match r.run c with
      | .ok _ c => replay rs c
      | .error _ _ => none
    else none

/-- What a replay leads to is reached under any rule that its requests obey. -/
theorem reachedBy_of_replay {allowed : Context → Request → Prop} {rs : List Request} {c' : Context}
    (h : replay rs c = some c') (hc : ReachedBy allowed c)
    (ok : ∀ c, ∀ r ∈ rs, (∀ m ∈ r.mentions, c.isa m.1 m.2 = .ok true) → allowed c r) :
    ReachedBy allowed c' := by
  induction rs generalizing c with
  | nil =>
    cases h
    exact hc
  | cons r rs ih =>
    simp only [List.forall_mem_cons] at ok
    rw [replay] at h
    -- A replay goes on only if the handles are of their classes and the request succeeds.
    split at h
    · rename_i checked
      split at h
      · rename_i run
        exact ih h (.answered hc ((ok c).1 checked) run) fun c => (ok c).2
      · cases h
    · cases h

/-- What requests lead to from a new context, with something that can be seen of it and something
that then holds after all allowed requests. -/
theorem exists_reached (allowed : Context → Request → Prop) (rs : List Request) (id : ContextId)
    {P Q : Context → Prop} [DecidablePred P]
    (ok : ∀ c, ∀ r ∈ rs, (∀ m ∈ r.mentions, c.isa m.1 m.2 = .ok true) → allowed c r)
    (h : ((replay rs (.initial id)).any fun c => decide (P c)) = true)
    (hQ : ∀ c, ReachedBy allowed c → P c → Q c) :
    ∃ c, replay rs (.initial id) = some c ∧ P c ∧ Q c := by
  obtain ⟨c, hc, hP⟩ := (Option.any_eq_true ..).1 h
  have hP := of_decide_eq_true hP
  exact ⟨c, hc, hP, hQ c (reachedBy_of_replay hc (.initial id) ok) hP⟩

/-- What a replay leads to is reached with handles of their classes. -/
theorem classChecked_of_replay {rs : List Request} {c' : Context} (h : replay rs c = some c')
    (hc : ClassChecked c) : ClassChecked c' :=
  reachedBy_of_replay h hc fun _ _ _ checked m hm => hasClass_of_isa (checked m hm)

/-- The same for class-checked requests. -/
theorem exists_replay (rs : List Request) (id : ContextId) {P Q : Context → Prop} [DecidablePred P]
    (h : ((replay rs (.initial id)).any fun c => decide (P c)) = true)
    (hQ : ∀ c, ClassChecked c → P c → Q c) : ∃ c, replay rs (.initial id) = some c ∧ P c ∧ Q c :=
  exists_reached Request.ClassChecked rs id
    (fun _ _ _ checked m hm => hasClass_of_isa (checked m hm)) h hQ

/-- What class-checked requests lead to is intact. -/
theorem ReachedBy.intact (h : ClassChecked c) : c.Intact :=
  h.invariant intact_initial fun hs hi hr run => hi.of_chain (Request.run_upkeep hs hi hr _ _ run)

end Context

end SsaGraph
