import SsaGraph.Proofs.Build.Rejection
import SsaGraph.Request

/-!
# Histories of a context

A history starts with a new context and carries out one request after the other; a request may be
answered or rejected, and a fault ends the history. `ReachedBy allowed` are the contexts that
histories of allowed requests lead to, and `Reachable` those that any history leads to, whatever
handles the requests are made with.

Two facts about a single request on a sound context carry over to histories. An answered request is
a chain of changes (`Request.run_steps`), and a rejected one changes nothing (`Request.run_atomic`).
So what every change keeps holds in every reachable context, and the first of these is soundness.
The main result says about rejected requests what is left when soundness is discharged: on a
reachable context none of them leaves a trace.

`Later` relates two times of one history; a later context is reached from an earlier one by a chain
of changes.
-/

namespace SsaGraph

open Run (Steps Atomic)

namespace Context

variable {cls : Class} {c : Context}

/-! ## Emitting -/

/-- An emitted instruction is created in the graph and placed in the layout. -/
theorem emit_ok {site : Site} {ty : Ty} {op : Operation} {operands : List (Option Value)}
    {h : Handle cls} {c' : Context} (hm : emit site ty op operands c = .ok h c') :
    ∃ graph c₁, Graph.newUser ty op site.name operands c.graph = .ok h.value graph ∧
      c₁ = { c with graph } ∧ place ⟨h.value⟩ site.point c₁ = .ok () c' := by
  simp only [emit, Run.bind_eq_ok_iff, Run.get_apply, Run.question_eq_ok_iff,
    Run.guard_eq_ok_iff] at hm
  obtain ⟨_, _, h₀, _, _, ⟨-, rfl⟩, -, v, c₁, hv, _, c₂, hp, hr⟩ := hm
  cases h₀
  cases hr
  obtain ⟨graph, hg, rfl⟩ := onGraph_ok hv
  exact ⟨graph, _, hg, rfl, hp⟩

/-- Emitting an instruction makes changes. -/
theorem emit_steps (hs : c.Sound) {site : Site} {ty : Ty} {op : Operation}
    {operands : List (Option Value)} :
    Steps Change (emit site ty op operands : Run Context (Handle cls)) c := by
  intro h c' hm
  obtain ⟨graph, _, hg, rfl, hp⟩ := emit_ok hm
  obtain ⟨-, gctx, hv, -⟩ := Graph.newUser_ok hs.graph hg
  have hctx : h.value.ctx = graph.ctx := by rw [hv, gctx]
  exact .head (.graph (.build hg)) (chain_of_tame (chain_of_local (place_steps hctx _ _ _ hp)))

/-- What builds an instruction makes changes. -/
theorem Builds.steps {ok : Prop} {site : Site} {m : Run Context (Handle cls)}
    (hb : Builds Supply ok site m c) (hs : c.Sound) : Steps Change m c := by
  intro h c' hm
  obtain ⟨c₁, ty, op, operands, chain, -, -, -, he⟩ := hb h c' hm
  have chain := chain_of_tame (chain_of_supply chain)
  exact chain.trans (emit_steps (hs.of_chain chain) h c' he)

end Context

/-! ## Single requests -/

namespace Request

open Context

variable {c : Context} {r : Context → Context → Prop}

/-- A request for a type grows the context as its operation changes the table. -/
theorem typed_grows {m : Run TypeTable Ty} (h : Steps TypeTable.Change m c.types) :
    Steps Grows (typed m) c :=
  .bind (onTypes_grows h) fun _ _ _ => .pure

/-- A request for a value makes the changes of its operation. -/
theorem valued_steps {cls : Class} {m : Run Context (Handle cls)} (h : Steps r m c) :
    Steps r (valued m) c :=
  .bind h fun _ _ _ => .pure

/-- A request that answers nothing makes the changes of its operation. -/
theorem silent_steps {m : Run Context Unit} (h : Steps r m c) : Steps r (silent m) c :=
  .bind h fun _ _ _ => .pure

/-- A request for a parent makes the changes of its operation. -/
theorem parental_steps {cls : Class} {m : Run Context (Option (Handle cls))} (h : Steps r m c) :
    Steps r (parental m) c :=
  .bind h fun _ _ _ => .pure

/-- A request for a value answers with the value of its operation. -/
theorem valued_eq_ok {cls : Class} {m : Run Context (Handle cls)} {a : Answer} {c' : Context}
    (h : valued m c = .ok a c') : ∃ i, a = .value i.value ∧ m c = .ok i c' := by
  simp only [valued, Run.bind_eq_ok_iff, Run.pure_apply] at h
  obtain ⟨i, _, run, h⟩ := h
  cases h
  exact ⟨i, rfl, run⟩

/-- A request that answers nothing runs its operation. -/
theorem silent_eq_ok {m : Run Context Unit} {a : Answer} {c' : Context}
    (h : silent m c = .ok a c') : m c = .ok () c' := by
  simp only [silent, Run.bind_eq_ok_iff, Run.pure_apply] at h
  obtain ⟨_, _, run, h⟩ := h
  cases h
  exact run

/-- A request for a parent answers with the parent of its operation. -/
theorem parental_eq_ok {cls : Class} {m : Run Context (Option (Handle cls))} {a : Answer}
    {c' : Context} (h : parental m c = .ok a c') :
    ∃ o, a = .parent (o.map (·.value)) ∧ m c = .ok o c' := by
  simp only [parental, Run.bind_eq_ok_iff, Run.pure_apply] at h
  obtain ⟨o, _, run, h⟩ := h
  cases h
  exact ⟨o, rfl, run⟩

/-- A request for a type is atomic if its operation is. -/
theorem typed_atomic {m : Run TypeTable Ty} (h : Atomic m c.types) : Atomic (typed m) c :=
  .bind (onTypes_atomic h) fun _ _ _ => .pure

/-- A request for a value is atomic if its operation is. -/
theorem valued_atomic {cls : Class} {m : Run Context (Handle cls)} (h : Atomic m c) :
    Atomic (valued m) c :=
  .bind h fun _ _ _ => .pure

/-- A request that answers nothing is atomic if its operation is. -/
theorem silent_atomic {m : Run Context Unit} (h : Atomic m c) : Atomic (silent m) c :=
  .bind h fun _ _ _ => .pure

/-- A request for a parent is atomic if its operation is. -/
theorem parental_atomic {cls : Class} {m : Run Context (Option (Handle cls))} (h : Atomic m c) :
    Atomic (parental m) c :=
  .bind h fun _ _ _ => .pure

/-- The requests that build an instruction. -/
def isFactory : Request → Bool
  | ret _ _ | br _ _ | condBr _ _ _ _ | switch _ _ _ | unreachable _ | binary _ _ _ _
  | alloca _ _ _ | load _ _ | store _ _ _ | elementPtr _ _ _ _ | cast _ _ _ _ | icmp _ _ _ _
  | fcmp _ _ _ _ | phi _ _ | call _ _ _ | select _ _ _ _ => true
  | _ => false

/-- The site that a factory is given. -/
def site? : Request → Option Site
  | ret site _ | br site _ | condBr site _ _ _ | switch site _ _ | unreachable site
  | binary site _ _ _ | alloca site _ _ | load site _ | store site _ _ | elementPtr site _ _ _
  | cast site _ _ _ | icmp site _ _ _ | fcmp site _ _ _ | phi site _ | call site _ _
  | select site _ _ _ => some site
  | _ => none

/-- The requests that point an operand slot to a value they were given. -/
def isAttaching : Request → Bool
  | setOperand _ _ _ | addCase _ _ _ | addIncoming _ _ _ => true
  | _ => false

/-- What a factory relies on besides its checks: that the blocks it was given are of type `label`,
and for `alloca` that the pool is in order. -/
def Ready (c : Context) : Request → Prop
  | br _ dest => c.IsLabel dest
  | condBr _ _ ifTrue ifFalse => c.IsLabel ifTrue ∧ c.IsLabel ifFalse
  | switch _ _ dest => c.IsLabel dest
  | alloca _ _ _ => c.Pooled
  | _ => True

/-- The changes that a factory makes before it builds. Only `alloca` may need a constant, for a size
that it was not given. -/
def Supplies : Request → Context → Context → Prop
  | alloca _ _ none => Stocks
  | _ => Derives

/-- What a request supplies are derived types and constants. -/
theorem Supplies.stocks {r : Request} {c c' : Context} (h : r.Supplies c c') : c.Stocks c' := by
  unfold Supplies at h
  split at h
  · exact h
  · exact .derive h

/-- The class of the handle that a request answers with, if it does. -/
def answerClass : Request → Class
  | constInt _ _ | constBool _ => .intConstant
  | constFloat _ _ => .floatConstant
  | constNull _ => .nullConstant
  | undef _ => .undef
  | newFunction _ _ | removeBlock _ => .function
  | newBlock _ | removeInstruction _ => .block
  | ret _ _ => .ret
  | br _ _ | condBr _ _ _ _ => .branch
  | switch _ _ _ => .switch
  | unreachable _ => .unreachable
  | binary _ _ _ _ => .binary
  | alloca _ _ _ => .alloca
  | load _ _ => .load
  | store _ _ _ => .store
  | elementPtr _ _ _ _ => .elementPtr
  | cast _ _ _ _ => .cast
  | icmp _ _ _ _ => .intComparison
  | fcmp _ _ _ _ => .floatComparison
  | phi _ _ => .phi
  | call _ _ _ => .call
  | select _ _ _ _ => .select
  | _ => .value

/-- A factory makes its changes, and then builds an instruction for its site, which fits its rule if
the factory is ready. -/
theorem run_supplies (hs : c.Sound) {r : Request} (hr : r.isFactory = true) :
    ∃ (m : Run Context (Handle r.answerClass)) (site : Site),
      r.site? = some site ∧ r.run = valued m ∧ Builds r.Supplies (r.Ready c) site m c := by
  -- Every factory has a place and a lemma of its own; an allocation has two, by its size.
  cases r with
  | ret site value => exact ⟨_, site, rfl, rfl, buildRet_builds hs⟩
  | br site dest => exact ⟨_, site, rfl, rfl, buildBr_builds hs⟩
  | condBr site cond ifTrue ifFalse => exact ⟨_, site, rfl, rfl, buildCondBr_builds hs⟩
  | switch site cond dest => exact ⟨_, site, rfl, rfl, buildSwitch_builds hs⟩
  | unreachable site => exact ⟨_, site, rfl, rfl, buildUnreachable_builds hs⟩
  | binary site op lhs rhs => exact ⟨_, site, rfl, rfl, buildBinary_builds⟩
  | alloca site ty size =>
    -- Without a size the constant one is supplied as well.
    cases size with
    | none => exact ⟨_, site, rfl, rfl, buildAlloca_builds hs⟩
    | some size => exact ⟨_, site, rfl, rfl, buildAlloca_sized_builds hs⟩
  | load site ptr => exact ⟨_, site, rfl, rfl, buildLoad_builds⟩
  | store site value ptr => exact ⟨_, site, rfl, rfl, buildStore_builds hs⟩
  | elementPtr site ptr indices inbounds => exact ⟨_, site, rfl, rfl, buildElementPtr_builds hs⟩
  | cast site op value ty => exact ⟨_, site, rfl, rfl, buildCast_builds⟩
  | icmp site pred lhs rhs => exact ⟨_, site, rfl, rfl, buildIcmp_builds hs⟩
  | fcmp site pred lhs rhs => exact ⟨_, site, rfl, rfl, buildFcmp_builds hs⟩
  | phi site ty => exact ⟨_, site, rfl, rfl, buildPhi_builds⟩
  | call site callee args => exact ⟨_, site, rfl, rfl, buildCall_builds hs⟩
  | select site cond ifTrue ifFalse => exact ⟨_, site, rfl, rfl, buildSelect_builds⟩
  | _ => cases hr

/-- Each factory builds an instruction after supplying what it needs. -/
theorem run_builds (hs : c.Sound) {r : Request} (hr : r.isFactory = true) :
    ∃ (m : Run Context (Handle r.answerClass)) (site : Site),
      r.run = valued m ∧ Builds Supply (r.Ready c) site m c := by
  obtain ⟨m, site, -, hm, builds⟩ := run_supplies hs hr
  exact ⟨m, site, hm, builds.mono fun _ _ h => h.stocks.supply⟩

/-- A chain of what a request supplies is a chain of supplies. -/
theorem chain_of_supplies {r : Request} {c₁ : Context}
    (chain : Relation.ReflTransGen r.Supplies c c₁) : Relation.ReflTransGen Supply c c₁ :=
  Relation.ReflTransGen.mono (fun _ _ h => h.stocks.supply) c c₁ chain

/-- A factory that succeeds has supplied what it needs and then emitted one instruction for its
site, which fits its rule if the factory was ready. -/
theorem run_emits (hs : c.Sound) {r : Request} {a : Answer} {c' : Context}
    (hr : r.isFactory = true) (run : r.run c = .ok a c') :
    ∃ (i : Handle r.answerClass) (site : Site) (c₁ : Context) (ty : Ty) (op : Operation)
      (operands : List (Option Value)),
      a = .value i.value ∧ r.site? = some site ∧ Relation.ReflTransGen r.Supplies c c₁ ∧
      r.answerClass.Takes c₁.types op operands.length ∧
      (r.Ready c → c₁.Suits ty op operands) ∧ emit site ty op operands c₁ = .ok i c' := by
  obtain ⟨m, site, hsite, hm, builds⟩ := run_supplies hs hr
  rw [hm] at run
  obtain ⟨i, rfl, made⟩ := valued_eq_ok run
  obtain ⟨c₁, ty, op, operands, chain, -, takes, suits, emitted⟩ := builds i c' made
  exact ⟨i, site, c₁, ty, op, operands, rfl, hsite, chain, takes, suits, emitted⟩

/-- The requests for types and constants. -/
def isSupply : Request → Bool
  | integerType _ | functionType _ _ _ | pointerType _ _ | arrayType _ _ | vectorType _ _
  | literalStruct _ _ | createStruct _ | createStructWithBody _ _ _ | setStructBody _ _ _
  | setStructName _ _ | deriveVector _ _ | constInt _ _ | constBool _ | constFloat _ _ | constNull _
  | undef _ => true
  | _ => false

/-- The requests that may create a constant. -/
def wantsConstant : Request → Bool
  | constInt _ _ | constBool _ | constFloat _ _ | constNull _ | undef _ | alloca _ _ none => true
  | _ => false

/-- Constants are made by the requests for them and by factories. -/
theorem wantsConstant_eq_false {r : Request} (hf : r.isFactory = false) (hs : r.isSupply = false) :
    r.wantsConstant = false := by
  cases r with
  | alloca _ _ _ => cases hf
  | constInt _ _ | constBool _ | constFloat _ _ | constNull _ | undef _ => cases hs
  | _ => rfl

/-- A request for a type makes one available. -/
theorem run_grows {r : Request} (hr : r.isSupply = true) (hc : r.wantsConstant = false) :
    Steps Grows r.run c := by
  have reformed : ∀ {α : Type} {m : Run TypeTable α} {t}, Steps TypeTable.Reforms m t →
      Steps TypeTable.Change m t := fun h => h.mono fun _ _ => .reform
  -- The requests that reform a structure are the only ones that do more than enter a type.
  cases r with
  | integerType bits => exact typed_grows ((TypeTable.integerType_gets _).steps rfl _)
  | functionType ret params varArg =>
    exact typed_grows ((TypeTable.functionType_gets _ _ _).steps rfl _)
  | pointerType pointee space => exact typed_grows ((TypeTable.pointerType_gets _ _).steps rfl _)
  | arrayType elem len => exact typed_grows ((TypeTable.arrayType_gets _ _).steps rfl _)
  | vectorType elem lanes => exact typed_grows ((TypeTable.vectorType_gets _ _).steps rfl _)
  | literalStruct fields packed =>
    exact typed_grows ((TypeTable.literalStruct_gets _ _).steps rfl _)
  | createStruct name => exact typed_grows (reformed (TypeTable.createStruct_steps name _))
  | createStructWithBody name fields packed =>
    exact typed_grows (reformed (TypeTable.createStructWithBody_steps name fields packed _))
  | setStructBody ty fields packed =>
    exact silent_steps (onTypes_grows (reformed (TypeTable.setStructBody_steps ty fields packed _)))
  | setStructName ty name =>
    exact silent_steps (onTypes_grows (reformed (TypeTable.setStructName_steps ty name _)))
  | deriveVector how ty => exact typed_grows (TypeTable.deriveVector_steps how ty _)
  | constInt _ _ | constBool _ | constFloat _ _ | constNull _ | undef _ => cases hc
  | _ => cases hr

/-- A request for a type or a constant makes one available. -/
theorem run_supply (hs : c.Sound) {r : Request} (hr : r.isSupply = true) : Steps Supply r.run c := by
  cases hc : r.wantsConstant with
  | false => exact (run_grows hr hc).mono fun _ _ => Grows.supply
  | true =>
    cases r with
    | constInt ty x => exact (valued_steps constInt_pools).mono fun _ _ => Pools.supply
    | constBool b => exact (valued_steps (constBool_pools hs)).mono fun _ _ => Pools.supply
    | constFloat ty bits => exact (valued_steps constFloat_pools).mono fun _ _ => Pools.supply
    | constNull ty => exact (valued_steps constNull_pools).mono fun _ _ => Pools.supply
    | undef ty => exact (valued_steps undef_pools).mono fun _ _ => Pools.supply
    | alloca _ _ _ => cases hr
    | _ => cases hc

/-- The requests that point the operand slots of one value to another. -/
def isReplacing : Request → Bool
  | replaceAllUses _ _ => true
  | _ => false

/-- The requests that create a function or a block. -/
def isCreation : Request → Bool
  | newFunction _ _ | newBlock _ => true
  | _ => false

/-- A request that builds, supplies and creates nothing and points no slot to a value leaves the
type table alone, and the number of values. -/
theorem run_local (hs : c.Sound) {r : Request} (hf : r.isFactory = false)
    (ha : r.isAttaching = false) (hr : r.isReplacing = false) (hsupply : r.isSupply = false)
    (hn : r.isCreation = false) : Steps Local r.run c := by
  have other : (r.isFactory || r.isAttaching || r.isReplacing || r.isSupply || r.isCreation) =
      false := by
    rw [hf, ha, hr, hsupply, hn]
    rfl
  -- With the other sorts of requests excluded, what is left renames, drops uses, marks, arranges or
  -- erases.
  cases r with
  | setName v name => exact silent_steps setName_steps
  | dropAllUses v => exact silent_steps (dropAllUses_steps hs)
  | dropAllReferences user => exact silent_steps dropAllReferences_steps
  | setTailCall i marker => exact silent_steps setTailCall_steps
  | setCallingConv i conv => exact silent_steps setCallingConv_steps
  | appendBlock f b => exact silent_steps appendBlock_steps
  | insertBlock anchor b => exact silent_steps insertBlock_steps
  | removeBlock b => exact parental_steps removeBlock_steps
  | removeInstruction i => exact parental_steps removeInstruction_steps
  | insertInstruction i anchor => exact silent_steps insertInstruction_steps
  | appendInstruction i b => exact silent_steps appendInstruction_steps
  | moveBefore i anchor => exact silent_steps moveBefore_steps
  | moveToEnd i b => exact silent_steps moveToEnd_steps
  | eraseInstruction i => exact silent_steps eraseInstruction_steps
  | eraseBlock b => exact silent_steps eraseBlock_steps
  | eraseFunction f => exact silent_steps eraseFunction_steps
  | eraseValue v => exact silent_steps eraseValue_steps
  | _ => cases other

/-- A request that builds nothing, makes no constant and points no slot to a value makes quiet
changes. -/
theorem run_quiet (hs : c.Sound) {r : Request} (hf : r.isFactory = false)
    (ha : r.isAttaching = false) (hr : r.isReplacing = false) (hc : r.wantsConstant = false) :
    Steps Quiet r.run c := by
  cases hsupply : r.isSupply with
  | true => exact (run_grows hsupply hc).mono fun _ _ => Grows.quiet
  | false =>
    cases hn : r.isCreation with
    | true =>
      cases r with
      | newFunction name ty => exact valued_steps newFunction_steps
      | newBlock name => exact valued_steps newBlock_steps
      | _ => cases hn
    | false => exact (run_local hs hf ha hr hsupply hn).mono fun _ _ => Local.quiet

/-- A request that neither builds nor attaches anything makes tame changes. -/
theorem run_tame (hs : c.Sound) {r : Request} (hf : r.isFactory = false)
    (ha : r.isAttaching = false) : Steps Tame r.run c := by
  cases hsupply : r.isSupply with
  | true => exact (run_supply hs hsupply).mono fun _ _ => Supply.tame
  | false =>
    cases hr : r.isReplacing with
    | false =>
      have hc : r.wantsConstant = false := wantsConstant_eq_false hf hsupply
      exact (run_quiet hs hf ha hr hc).mono fun _ _ => Quiet.tame
    | true =>
      cases r with
      | replaceAllUses old new => exact silent_steps (replaceAllUses_steps hs)
      | _ => cases hr

/-- An answered request is a chain of changes. -/
theorem run_steps (hs : c.Sound) (r : Request) : Steps Change r.run c := by
  cases hf : r.isFactory with
  | true =>
    obtain ⟨m, site, hm, builds⟩ := run_builds hs hf
    rw [hm]
    exact valued_steps (builds.steps hs)
  | false =>
    cases ha : r.isAttaching with
    | false => exact (run_tame hs hf ha).mono fun _ _ => .tame
    | true =>
      cases r with
      | setOperand user index target => exact silent_steps setOperand_steps
      | addCase i value dest => exact silent_steps addCase_steps
      | addIncoming i value b => exact silent_steps addIncoming_steps
      | _ => cases ha

/-- A rejected request changes nothing. -/
theorem run_atomic (hs : c.Sound) (r : Request) : Atomic r.run c := by
  -- Some requests are never rejected, and the others make all their checks before the first change;
  -- only those that change the context in several steps need a sound one.
  cases r with
  | integerType bits => exact typed_atomic (TypeTable.integerType_atomic bits _)
  | functionType ret params varArg =>
    exact typed_atomic (TypeTable.functionType_atomic ret params varArg _)
  | pointerType pointee space => exact typed_atomic (TypeTable.pointerType_atomic pointee space _)
  | arrayType elem len => exact typed_atomic (TypeTable.arrayType_atomic elem len _)
  | vectorType elem lanes => exact typed_atomic (TypeTable.vectorType_atomic elem lanes _)
  | literalStruct fields packed =>
    exact typed_atomic (TypeTable.literalStruct_atomic fields packed _)
  | createStruct name => exact typed_atomic (.of_firm .modifyGet)
  | createStructWithBody name fields packed =>
    exact typed_atomic (TypeTable.createStructWithBody_atomic name fields packed _)
  | setStructBody ty fields packed =>
    exact silent_atomic (onTypes_atomic (TypeTable.setStructBody_atomic ty fields packed _))
  | setStructName ty name =>
    exact silent_atomic (onTypes_atomic (TypeTable.setStructName_atomic ty name _))
  | deriveVector how ty => exact typed_atomic (TypeTable.deriveVector_atomic how ty hs.types)
  | constInt ty x => exact valued_atomic constInt_atomic
  | constBool b => exact valued_atomic (.get_bind (.of_firm constantHandle_avoids))
  | constFloat ty bits => exact valued_atomic constFloat_atomic
  | constNull ty => exact valued_atomic constNull_atomic
  | undef ty => exact valued_atomic undef_atomic
  | setName v name => exact silent_atomic setName_atomic
  | setOperand user index target => exact silent_atomic setOperand_atomic
  | replaceAllUses old new => exact silent_atomic replaceAllUses_atomic
  | dropAllUses v => exact silent_atomic dropAllUses_atomic
  | dropAllReferences user => exact silent_atomic dropAllReferences_atomic
  | addCase i value dest => exact silent_atomic (addCase_atomic hs)
  | addIncoming i value b => exact silent_atomic (addIncoming_atomic hs)
  | setTailCall i marker => exact silent_atomic (.of_firm setTailCall_firm)
  | setCallingConv i conv => exact silent_atomic (.of_firm setCallingConv_firm)
  | newFunction name ty => exact valued_atomic newFunction_atomic
  | newBlock name => exact valued_atomic (.of_firm newBlock_avoids)
  | appendBlock f b => exact silent_atomic appendBlock_atomic
  | insertBlock anchor b => exact silent_atomic insertBlock_atomic
  | removeBlock b => exact parental_atomic removeBlock_atomic
  | removeInstruction i => exact parental_atomic removeInstruction_atomic
  | insertInstruction i anchor => exact silent_atomic insertInstruction_atomic
  | appendInstruction i b => exact silent_atomic appendInstruction_atomic
  | moveBefore i anchor => exact silent_atomic moveBefore_atomic
  | moveToEnd i b => exact silent_atomic moveToEnd_atomic
  | eraseInstruction i => exact silent_atomic eraseInstruction_atomic
  | eraseBlock b => exact silent_atomic (eraseBlock_atomic hs)
  | eraseFunction f => exact silent_atomic (eraseFunction_atomic hs)
  | eraseValue v => exact silent_atomic (eraseValue_atomic hs)
  | ret site value => exact valued_atomic buildRet_atomic
  | br site dest => exact valued_atomic buildBr_atomic
  | condBr site cond ifTrue ifFalse => exact valued_atomic buildCondBr_atomic
  | switch site cond dest => exact valued_atomic buildSwitch_atomic
  | unreachable site => exact valued_atomic buildUnreachable_atomic
  | binary site op lhs rhs => exact valued_atomic buildBinary_atomic
  | alloca site ty size => exact valued_atomic (buildAlloca_atomic hs)
  | load site ptr => exact valued_atomic buildLoad_atomic
  | store site value ptr => exact valued_atomic buildStore_atomic
  | elementPtr site ptr indices inbounds => exact valued_atomic (buildElementPtr_atomic hs)
  | cast site op value ty => exact valued_atomic buildCast_atomic
  | icmp site pred lhs rhs => exact valued_atomic (buildIcmp_atomic hs)
  | fcmp site pred lhs rhs => exact valued_atomic (buildFcmp_atomic hs)
  | phi site ty => exact valued_atomic buildPhi_atomic
  | call site callee args => exact valued_atomic buildCall_atomic
  | select site cond ifTrue ifFalse => exact valued_atomic buildSelect_atomic

end Request

/-! ## Histories -/

namespace Context

/-- The contexts that histories of allowed requests lead to. -/
inductive ReachedBy (allowed : Context → Request → Prop) : Context → Prop
  | initial (id : ContextId) : ReachedBy allowed (.initial id)
  | answered {c c' : Context} {r : Request} {a : Answer} (before : ReachedBy allowed c)
    (request : allowed c r) (run : r.run c = .ok a c') : ReachedBy allowed c'
  | rejected {c c' : Context} {r : Request} {e : Error} (before : ReachedBy allowed c)
    (request : allowed c r) (run : r.run c = .error (.rejected e) c') : ReachedBy allowed c'

/-- The contexts that any history leads to. -/
abbrev Reachable : Context → Prop := ReachedBy fun _ _ => True

variable {allowed : Context → Request → Prop} {c : Context}

/-- A context that is reached is sound. -/
theorem ReachedBy.sound (h : ReachedBy allowed c) : c.Sound := by
  induction h with
  | initial id => exact sound_initial id
  | answered _ _ run ih => exact ih.of_chain (Request.run_steps ih _ _ _ run)
  | rejected _ _ run ih =>
    rw [Request.run_atomic ih _ _ _ run]
    exact ih

/-- A property of all contexts of a history: it holds of new contexts, and answered requests keep
it. -/
theorem ReachedBy.invariant {P : Context → Prop} (h : ReachedBy allowed c)
    (initial : ∀ id, P (.initial id))
    (answered : ∀ {c c' r a}, c.Sound → P c → allowed c r → r.run c = .ok a c' → P c') : P c := by
  induction h with
  | initial id => exact initial id
  | answered before request run ih => exact answered before.sound ih request run
  | rejected before _ run ih =>
    rw [Request.run_atomic before.sound _ _ _ run]
    exact ih

/-- What new type tables have and every change of a type table keeps, all type tables have. -/
theorem ReachedBy.types_invariant {P : TypeTable → Prop} (h : ReachedBy allowed c)
    (initial : ∀ id, P (.initial id)) (step : ∀ {t t'}, t.Change t' → P t → P t') : P c.types :=
  h.invariant initial fun hs hp _ run => types_of_chain step (Request.run_steps hs _ _ _ run) hp

/-- A request that is rejected, at any time of any history and with any arguments, leaves the whole
context as it was. -/
theorem Reachable.eq_of_rejected (hc : c.Reachable) {r : Request} {e : Error} {c' : Context}
    (h : r.run c = .error (.rejected e) c') : c' = c :=
  Request.run_atomic hc.sound r e c' h

/-- For instance, when a stack slot cannot be put before an instruction that is in no block. -/
theorem alloca_before_detached_leaves_no_trace : ∃ c c' : Context,
    (Request.unreachable {}).run (.initial ⟨1⟩) = .ok (.value ⟨⟨1⟩, 0⟩) c ∧
    (Request.alloca { point := .before ⟨⟨⟨1⟩, 0⟩⟩ } ⟨⟨1⟩, 9⟩ none).run c =
      .error (.rejected (.anchorDetached ⟨⟨⟨1⟩, 0⟩⟩)) c' ∧ c' = c := by
  refine ⟨_, _, rfl, rfl, ?_⟩
  refine Reachable.eq_of_rejected (.answered (.initial ⟨1⟩) trivial (r := .unreachable {}) rfl)
    (r := .alloca { point := .before ⟨⟨⟨1⟩, 0⟩⟩ } ⟨⟨1⟩, 9⟩ none) rfl

/-! ## Later contexts -/

/-- The contexts that requests lead to from `c`. -/
inductive Later (c : Context) : Context → Prop
  | now : Later c c
  | answered {c₁ c₂ : Context} {r : Request} {a : Answer} (before : Later c c₁)
    (run : r.run c₁ = .ok a c₂) : Later c c₂
  | rejected {c₁ c₂ : Context} {r : Request} {e : Error} (before : Later c c₁)
    (run : r.run c₁ = .error (.rejected e) c₂) : Later c c₂

/-- Later than later is later. -/
theorem Later.trans {c₁ c₂ : Context} (before : c.Later c₁) (after : c₁.Later c₂) : c.Later c₂ := by
  induction after with
  | now => exact before
  | answered _ run ih => exact .answered ih run
  | rejected _ run ih => exact .rejected ih run

/-- What is later than a reachable context is reachable. -/
theorem Later.reachable {c' : Context} (hc : c.Reachable) (h : c.Later c') : c'.Reachable := by
  induction h with
  | now => exact hc
  | answered _ run ih => exact .answered ih trivial run
  | rejected _ run ih => exact .rejected ih trivial run

/-- A later context is reached by a chain of changes. -/
theorem Later.chain {c' : Context} (hc : c.Reachable) (h : c.Later c') :
    Relation.ReflTransGen Change c c' := by
  induction h with
  | now => exact .refl
  | answered before run ih =>
    exact ih.trans (Request.run_steps (before.reachable hc).sound _ _ _ run)
  | rejected before run ih =>
    rw [Request.run_atomic (before.reachable hc).sound _ _ _ run]
    exact ih

end Context

end SsaGraph
