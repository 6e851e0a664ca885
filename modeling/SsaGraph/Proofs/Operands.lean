import SsaGraph.Proofs.Access
import SsaGraph.Proofs.Edges
import SsaGraph.Proofs.FirstClass
import SsaGraph.Proofs.Pool

/-!
# Operands are first-class

An instruction fits its type rule when it is built, and so it takes first-class values where it does
not take blocks. A factory that is given blocks relies on their being of type `label`, and an edge
that is added to a phi or a switch on the type of the phi or of the constant. `Graph.WellSorted` and
`IntsPooled` are the invariants behind this. A store checks more than its rule says.

There is one gap. A function with variable arguments is called with further arguments after those
that it has parameters for, and nothing is asked of their types: every value is taken there, a block
or an instruction without a result just as well (`DataFirstClass.further`).
-/

namespace SsaGraph

/-! ## Blocks and phis -/

/-- Blocks are of type `label`, and phis of a first-class type. -/
def ValueKind.Permits (t : TypeTable) (ty : Ty) : ValueKind → Prop
  | block => ty = t.label
  | instruction .phi => t.IsFirstClass ty
  | _ => True

namespace ValueKind.Permits

variable {t t' : TypeTable} {ty : Ty} {k k' : ValueKind}

/-- A kind that permits a type does so in a grown table. -/
theorem grow (h : k.Permits t ty) (grows : t.GrowsTo t') : k.Permits t' ty := by
  unfold Permits at h ⊢
  split
  · exact h.trans grows.label_eq.symm
  · exact TypeTable.PartFits.mono grows h
  · trivial

/-- Alike kinds permit the same types. -/
theorem alike (h : k.Permits t ty) (alike : k.Alike k') : k'.Permits t ty := by
  cases alike with
  | refl => exact h
  | function => trivial
  | call => trivial

end ValueKind.Permits

/-- An instruction that fits its type rule has a type that its kind permits. -/
theorem Operation.Fits.permits {t : TypeTable} {op : Operation} {ty : Ty}
    {slots : List (Option Ty)} (h : op.Fits t ty slots) :
    (ValueKind.instruction op).Permits t ty := by
  cases h with
  | phi firstClass edges => exact firstClass
  | _ => trivial

namespace Graph

variable {g g' : Graph} {t : TypeTable}

/-- Every value has a type that its kind permits. -/
def WellSorted (g : Graph) (t : TypeTable) : Prop :=
  ∀ ⦃v n⦄, g.node? v = some n → n.kind.Permits t n.ty

/-- The values are well sorted in a grown table. -/
theorem WellSorted.grow {t' : TypeTable} (h : g.WellSorted t) (grows : t.GrowsTo t') :
    g.WellSorted t' :=
  fun _ _ hn => (h hn).grow grows

/-- What is left of the values is of the types and kinds that it was of. -/
theorem WellSorted.keep (h : g.WellSorted t)
    (node : ∀ {v n'}, g'.node? v = some n' →
      ∃ n, g.node? v = some n ∧ n'.ty = n.ty ∧ n.kind.Alike n'.kind) : g'.WellSorted t := by
  intro v n' hn'
  obtain ⟨n, hn, same, alike⟩ := node hn'
  rw [same]
  exact (h hn).alike alike

/-- The values are well sorted in a graph that only loses. -/
theorem WellSorted.narrow (h : g.WellSorted t) (narrows : g.Narrows g') : g'.WellSorted t := by
  refine h.keep fun hn' => ?_
  obtain ⟨n, hn, same, alike, -⟩ := narrows.node hn'
  exact ⟨n, hn, same, alike⟩

/-- Operand slots have no part in it. -/
theorem WellSorted.reslot {user : Value} {f : Node → List (Option Value)} (h : g.WellSorted t)
    (node : ∀ w, g'.node? w =
      if w = user then (g.node? w).map fun n => { n with operands := f n }
      else g.node? w) : g'.WellSorted t := by
  refine h.keep fun {w n'} hn' => ?_
  rw [node] at hn'
  split at hn'
  · obtain ⟨n, hn, rfl⟩ := Option.map_eq_some_iff.1 hn'
    exact ⟨n, hn, rfl, .refl _⟩
  · exact ⟨n', hn', rfl, .refl _⟩

/-- A new value keeps to it, if its own kind permits its type. -/
theorem WellSorted.extend {v : Value} {n : Node} (h : g.WellSorted t)
    (node : ∀ w, g'.node? w = if w = v then some n else g.node? w)
    (own : n.kind.Permits t n.ty) : g'.WellSorted t := by
  intro w m hm
  rw [node] at hm
  split at hm
  · cases hm
    exact own
  · exact h hm

end Graph

namespace Context

variable {c c' : Context}

/-- A new context is well sorted. -/
theorem wellSorted_initial (id : ContextId) : (initial id).graph.WellSorted (initial id).types := by
  intro v n hn
  simp [initial, Graph.node?, Graph.bare?, Graph.value?, Graph.initial] at hn

/-- A tame change keeps the values well sorted. -/
theorem wellSorted_of_tame (h : c.graph.WellSorted c.types) (hs : c.Sound) (ht : c.Tame c') :
    c'.graph.WellSorted c'.types := by
  cases ht with
  | types ht => exact h.grow ht.growsTo
  | constant ty k => exact h.extend (Graph.node?_create _ _ _ _) trivial
  | @create ty kind name user label =>
    refine h.extend (Graph.node?_create _ _ _ _) ?_
    cases kind with
    | block => exact label rfl
    | instruction op => cases user
    | _ => trivial
  | graph ht => exact h.narrow (ht.narrows hs.graph)
  | layout ht => exact h
  | registry functions names => exact h

/-- A chain of tame changes keeps the values well sorted. -/
theorem wellSorted_of_chain (h : c.graph.WellSorted c.types) (hs : c.Sound)
    (ht : Relation.ReflTransGen Tame c c') : c'.graph.WellSorted c'.types := by
  induction ht with
  | refl => exact h
  | tail chain step ih => exact wellSorted_of_tame ih (hs.of_chain (chain_of_tame chain)) step

/-- Emitting an instruction of a permitted type keeps the values well sorted. -/
theorem emit_wellSorted {cls : Class} {site : Site} {ty : Ty} {op : Operation}
    {operands : List (Option Value)} {i : Handle cls} (h : c.graph.WellSorted c.types)
    (hs : c.Sound) (own : (ValueKind.instruction op).Permits c.types ty)
    (run : emit site ty op operands c = .ok i c') : c'.graph.WellSorted c'.types := by
  obtain ⟨graph, _, hg, rfl, placed⟩ := emit_ok run
  obtain ⟨layout, rfl⟩ := place_ok placed
  obtain ⟨-, -, -, node⟩ := Graph.newUser_ok hs.graph hg
  exact h.extend node own

/-- The type of a phi is first-class. -/
theorem HasClass.firstClass {p : Handle .phi} {ty : Ty} (hp : c.HasClass p) (hs : c.Sound)
    (h : c.graph.WellSorted c.types) (hty : c.typeOf p.value = .ok ty) :
    c.types.IsFirstClass ty := by
  obtain ⟨n, hn, rfl⟩ := (typeOf_eq_ok_iff hs).1 hty
  have permits := h hn
  rw [Class.kind_of_phi (hp.kind hs hn)] at permits
  exact permits

/-- The type of a block is that of labels. -/
theorem HasClass.label {b : Block} (hb : c.HasClass b) (hs : c.Sound)
    (h : c.graph.WellSorted c.types) : c.IsLabel b := by
  intro ty hty
  rw [Graph.typeAt?_eq_node?] at hty
  obtain ⟨n, hn, rfl⟩ := Option.map_eq_some_iff.1 hty
  have permits := h hn
  rw [Class.kind_of_block (hb.kind hs hn)] at permits
  exact permits

/-- The pool of an intact context is sound. -/
theorem Intact.pooled (hi : c.Intact) : c.Pooled := by
  constructor
  · intro ty k v hv
    obtain ⟨name, hface⟩ := hi.pool.entry.1 hv
    obtain ⟨d, hd, -⟩ := Graph.value?_of_face? hface
    exact Graph.index_lt_of_value? hd
  · intro ty k v hv
    obtain ⟨name, hface⟩ := hi.pool.entry.1 hv
    obtain ⟨d, hd, same⟩ := Graph.value?_of_face? hface
    rw [Face.mk.injEq] at same
    rw [Graph.typeAt?_of_value? hd]
    exact .some same.1.symm

end Context

namespace Request

open Context

variable {c c' : Context} {r : Request} {a : Answer}

/-- Factories find what they rely on. -/
theorem ClassChecked.ready (hr : r.ClassChecked c) (hs : c.Sound) (hi : c.Intact)
    (h : c.graph.WellSorted c.types) : r.Ready c := by
  have label : ∀ b : Block, (Class.block, b.value) ∈ r.mentions → c.IsLabel b :=
    fun b hb => HasClass.label (hr _ hb) hs h
  cases r with
  | br site dest => exact label dest (by simp [mentions])
  | condBr site cond ifTrue ifFalse =>
    exact ⟨label ifTrue (by simp [mentions]), label ifFalse (by simp [mentions])⟩
  | switch site cond dest => exact label dest (by simp [mentions])
  | alloca site ty size => exact hi.pooled
  | _ => trivial

/-- A successful request keeps the values well sorted. -/
theorem run_wellSorted (h : c.graph.WellSorted c.types) (hs : c.Sound) (hi : c.Intact)
    (hr : r.ClassChecked c) (run : r.run c = .ok a c') : c'.graph.WellSorted c'.types := by
  -- A factory adds a value, whose type its rule permits; the rest sets slots or is tame.
  cases hf : r.isFactory with
  | true =>
    obtain ⟨i, site, c₁, ty, op, operands, -, -, supplies, -, suits, hemit⟩ := run_emits hs hf run
    have chain := chain_of_supply (chain_of_supplies supplies)
    exact emit_wellSorted (wellSorted_of_chain h hs chain) (hs.of_chain (chain_of_tame chain))
      (suits (hr.ready hs hi h)).fits.permits hemit
  | false =>
    cases ha : r.isAttaching with
    | false => exact wellSorted_of_chain h hs (run_tame hs hf ha _ _ run)
    | true =>
      cases r with
      | setOperand user index target =>
        obtain ⟨g, set, rfl⟩ := setOperand_ok (silent_eq_ok run)
        obtain ⟨d, u, e, -, -, -, edge, effect⟩ := Graph.setOperand_ok set
        -- Emptying a slot narrows the graph; filling one does not touch the type of the user.
        cases target with
        | none =>
          rw [effect]
          exact h.narrow ((Graph.Tame.clear edge).narrows hs.graph)
        | some v =>
          rw [effect.2]
          exact h.reslot (hs.graph.node?_retargeted edge v)
      | addCase i value dest =>
        obtain ⟨g₁, g₂, first, second, rfl⟩ := addCase_ok (silent_eq_ok run)
        exact h.reslot (Graph.pushPair_ok hs.graph first second).2
      | addIncoming i value b =>
        obtain ⟨g₁, g₂, first, second, rfl⟩ := addIncoming_ok (silent_eq_ok run)
        exact h.reslot (Graph.pushPair_ok hs.graph first second).2
      | _ => cases ha

end Request

namespace Context

variable {c c' : Context}

/-- The values are well sorted in a context that is reached. -/
theorem ReachedBy.wellSorted (h : ClassChecked c) : c.graph.WellSorted c.types := by
  induction h with
  | initial id => exact wellSorted_initial id
  | answered before request run ih =>
    exact Request.run_wellSorted ih before.sound before.intact request run
  | rejected before _ run ih =>
    rw [Request.run_atomic before.sound _ _ _ run]
    exact ih

/-! ## Integer constants -/

/-- Integer constants are pooled under integer types. -/
def IntsPooled (c : Context) : Prop :=
  ∀ ⦃ty k⦄, c.pool.contains (ty, .int k) = true → c.types.PartFits (· = .integer) ty

/-- A successful request keeps the integer constants pooled in integer types. -/
theorem IntsPooled.answered {r : Request} {a : Answer} (h : c.IntsPooled) (hs : c.Sound)
    (run : r.run c = .ok a c') : c'.IntsPooled := by
  intro ty k hk
  have grows : c.types.GrowsTo c'.types := growsTo_of_chain (Request.run_steps hs _ _ _ run)
  refine TypeTable.PartFits.mono grows ?_
  -- The key was there, or it is that of the constant that the request wants.
  rcases (Request.run_fills hs run).contains.1 hk with old | wanted
  · exact h old
  · obtain ⟨w, hw, key⟩ := Option.map_eq_some_iff.1 wanted
    have fits := Request.wanted_fits hs hw run
    cases w with
    | int ty' x =>
      cases key
      obtain ⟨width, -, hd⟩ := fits
      exact ⟨_, hd, rfl⟩
    | _ => cases key

/-- The integer constants of a context that is reached are pooled in integer types. -/
theorem ReachedBy.intsPooled {allowed : Context → Request → Prop} (h : ReachedBy allowed c) :
    c.IntsPooled := by
  refine h.invariant (fun id ty k hk => ?_) fun hs h _ run => h.answered hs run
  cases hk

/-- So integer constants have integer types. -/
theorem HasClass.integer {k : Handle .intConstant} {ty : Ty} (hk : c.HasClass k) (hs : c.Sound)
    (hi : c.Intact) (h : c.IntsPooled) (hty : c.typeOf k.value = .ok ty) :
    c.types.PartFits (· = .integer) ty := by
  obtain ⟨n, hn, rfl⟩ := (typeOf_eq_ok_iff hs).1 hty
  obtain ⟨x, hx⟩ := Class.kind_of_intConstant (hk.kind hs hn)
  have live : k.value ∈ c.graph.live := by
    obtain ⟨d, hd, -⟩ := Graph.value?_of_node? hn
    exact Graph.mem_live.2 ⟨d, hd⟩
  have kind : c.kindOf k.value = .ok (.constant (.int x)) := by
    rw [kindOf_of_node? hs hn, hx]
  exact h (Keyed.contains_iff.2 ⟨_, (pool_eq_some_iff hs hi).2 ⟨live, hty, kind⟩⟩)

/-! ## First-class values -/

variable {v w : Value}

/-- The kind of the type of a value. -/
def typeKind (c : Context) (v : Value) : Except Fault TypeKind := do c.types.kind (← c.typeOf v)

/-- The value is of a first-class type. -/
def FirstClass (c : Context) (v : Value) : Prop :=
  ∃ k, c.typeKind v = .ok k ∧ k.isFirstClass = true

instance : Decidable (c.FirstClass v) :=
  match h : c.typeKind v with
  | .ok k => decidable_of_iff (k.isFirstClass = true) (by simp [FirstClass, h])
  | .error _ => isFalse (by simp [FirstClass, h])

/-- A value is first-class exactly when it has a type that is. -/
theorem firstClass_iff :
    c.FirstClass v ↔ ∃ ty, c.typeOf v = .ok ty ∧ c.types.IsFirstClass ty := by
  simp only [FirstClass, typeKind, Question.bind_eq_ok_iff, TypeTable.kind_eq_ok_iff]
  constructor
  · rintro ⟨k, ⟨ty, hty, d, hd, rfl⟩, first⟩
    exact ⟨ty, hty, d, hd, first⟩
  · rintro ⟨ty, hty, d, hd, first⟩
    exact ⟨_, ⟨ty, hty, d, hd, rfl⟩, first⟩

/-- The operands of an instruction are first-class, apart from blocks and further arguments. -/
def TakesData (c : Context) (i : Instruction) : Prop :=
  ∃ op operands, c.operation i = .ok op ∧ c.operands i.value = .ok operands ∧
    ∀ {j w}, operands[j]? = some (some w) → op.holdsBlock operands.length j = false →
      ¬ op.HoldsFurther c.types operands.length j → c.FirstClass w

section

variable {cls : Class} {site : Site} {ty : Ty} {op : Operation} {operands : List (Option Value)}
  {i : Handle cls} (hs : c.Sound) (hs' : c'.Sound) (run : emit site ty op operands c = .ok i c')

include hs hs' run

/-- An emitted instruction takes first-class operands where its rule has data. -/
theorem emit_takesData
    (data : ∀ {j w}, operands[j]? = some (some w) → op.holdsBlock operands.length j = false →
      ¬ op.HoldsFurther c.types operands.length j → c.FirstClass w) :
    c'.TakesData ⟨i.value⟩ := by
  obtain ⟨types, -, kind, given⟩ := emit_data hs hs' run
  refine ⟨op, operands, operation_eq_ok_iff.2 kind, given, fun hw block few => ?_⟩
  rw [types] at few
  obtain ⟨t, ht, first⟩ := firstClass_iff.1 (data hw block few)
  exact firstClass_iff.2 ⟨t, emit_typeOf hs hs' run ht, types ▸ first⟩

omit hs' in
/-- What is given as an operand is alive. -/
theorem emit_operand (hv : some v ∈ operands) (created : v.index < c.graph.values.size) :
    ∃ t, c.typeOf v = .ok t ∧ c.graph.typeAt? v = some t := by
  obtain ⟨graph, _, built, rfl, -⟩ := emit_ok run
  obtain ⟨coherent, -, hi, node⟩ := Graph.newUser_ok hs.graph built
  -- An operand of the new instruction is alive afterwards, and it is not the new instruction.
  obtain ⟨d, hd⟩ := coherent.operand_alive ((node i.value).trans (if_pos rfl)) hv
  have old := node v
  rw [if_neg, Graph.node?_of_value? hd] at old
  · exact ⟨_, (typeOf_eq_ok_iff hs).2 ⟨_, old.symm, rfl⟩, Graph.typeAt?_of_node? old.symm⟩
  · rintro rfl
    rw [hi] at created
    exact Nat.lt_irrefl _ created

/-- What suits an instruction that is not a store is first-class. -/
theorem Suits.takesData (suits : c.Suits ty op operands) (other : op ≠ .store) :
    c'.TakesData ⟨i.value⟩ := by
  refine emit_takesData hs hs' run fun {j w} hw block few => ?_
  obtain ⟨t, ht, hslot⟩ := emit_operand hs run (List.mem_of_getElem? hw)
    (suits.created (List.mem_of_getElem? hw))
  have slot : (c.graph.slotTypes operands)[j]? = some (some t) := by
    rw [Graph.slotTypes, List.getElem?_map, hw]
    exact congrArg some hslot
  have length : (c.graph.slotTypes operands).length = operands.length := List.length_map _
  rw [← length] at block few
  exact firstClass_iff.2 ⟨t, ht, suits.fits.firstClass hs.types slot other block few t rfl⟩

end

end Context

namespace Request

open Context

variable {c c' : Context} {r : Request} {a : Answer}

/-- A factory whose answers can be stores builds a store. -/
theorem store_of_contains (hf : r.isFactory = true)
    (h : r.answerClass.contains (.instruction .store) = true) :
    ∃ site value ptr, r = .store site value ptr := by
  have stores : (r.isFactory && r.answerClass.contains (.instruction .store)) = true := by
    rw [hf, h]
    rfl
  cases r with
  | store site value ptr => exact ⟨site, value, ptr, rfl⟩
  | _ => cases stores

/-- A store takes a pointer and something accessible. -/
theorem store_takesData {site : Site} {value ptr : Value} (hs : c.Sound) (hs' : c'.Sound)
    (run : (Request.store site value ptr).run c = .ok a c') :
    ∃ i : Instruction, a = .value i.value ∧ c'.TakesData i := by
  obtain ⟨i, rfl, built⟩ := valued_eq_ok run
  obtain ⟨ty, space, -, hv, ⟨pointer, hp, data⟩, ⟨d, hd, accessible⟩, emitted⟩ :=
    buildStore_ok built
  refine ⟨⟨i.value⟩, rfl, emit_takesData hs hs' emitted fun {j w} hw _ _ => ?_⟩
  obtain rfl | rfl : w = value ∨ w = ptr := by simpa using List.mem_of_getElem? hw
  · exact firstClass_iff.2 ⟨ty, hv, d, TypeTable.data_eq_ok_iff.1 hd,
      TypeKind.isFirstClass_of_canBeAccessed accessible⟩
  · exact firstClass_iff.2 ⟨pointer, hp, _, TypeTable.data_eq_ok_iff.1 data, rfl⟩

/-- Every factory takes data where it takes no block. -/
theorem run_takesData (hs : c.Sound) (hi : c.Intact) (h : c.graph.WellSorted c.types)
    (hf : r.isFactory = true) (hr : r.ClassChecked c) (run : r.run c = .ok a c') :
    ∃ i : Instruction, a = .value i.value ∧ c'.TakesData i := by
  have hs' : c'.Sound := hs.of_chain (run_steps hs _ _ _ run)
  obtain ⟨i, site, c₁, ty, op, operands, rfl, -, supplies, takes, suits, emitted⟩ :=
    run_emits hs hf run
  have hs₁ := hs.of_chain (chain_of_tame (chain_of_supply (chain_of_supplies supplies)))
  -- The rule of a store does not tell, but its checks do.
  by_cases other : op = .store
  · rw [other] at takes
    obtain ⟨site, value, ptr, rfl⟩ := store_of_contains hf takes.kind
    exact store_takesData hs hs' run
  · exact ⟨⟨i.value⟩, rfl, (suits (hr.ready hs hi h)).takesData hs₁ hs' emitted other⟩

end Request

namespace Context

variable {c c' : Context} {v : Value}

/-! ## Edges and further arguments -/

/-- What gets operands leaves the types of all values as they are. -/
theorem Lengthens.firstClass {user : Value} {more : List (Option Value)} {graph : Graph}
    (h : c.Lengthens { c with graph } user more) (hs : c.Sound) (hs' : Sound { c with graph })
    (first : c.FirstClass v) : FirstClass { c with graph } v := by
  obtain ⟨ty, hty, first⟩ := firstClass_iff.1 first
  obtain ⟨n, hn, rfl⟩ := (typeOf_eq_ok_iff hs).1 hty
  refine firstClass_iff.2 ⟨n.ty, (typeOf_eq_ok_iff hs').2 ?_, first⟩
  by_cases hv : v = user
  · subst hv
    exact ⟨_, h.user_node hn, rfl⟩
  · exact ⟨n, ((h.node v).trans (if_neg hv)).trans hn, rfl⟩

/-- Only the arguments that there are parameters for are looked at. -/
theorem checkArguments_append {index : Nat} {params : List Ty} {fixed : List Value}
    (h : List.Forall₂ (fun param arg => c.typeOf arg = .ok param) params fixed)
    (more : List Value) : c.checkArguments index (fixed ++ more) params = .ok () := by
  induction h generalizing index with
  | nil =>
    rw [List.nil_append]
    cases more <;> rfl
  | cons first _ ih =>
    simp only [List.cons_append, checkArguments, Question.bind_eq_ok_iff, Question.lift_eq_ok_iff,
      Question.guard_eq_ok_iff]
    exact ⟨_, first, rfl, ih⟩

/-- A callee that points to a function type has it read as such. -/
theorem calleeType_eq {callee : Value} {fnType ret : Ty} {space : Nat} {params : List Ty}
    {varArg : Bool} (points : c.PointsTo callee fnType space)
    (function : c.types.data fnType = .ok (.function ret params varArg)) :
    c.calleeType callee = .ok fnType := by
  obtain ⟨pointer, hp, hd⟩ := points
  simp only [calleeType, Question.bind_eq_ok_iff, Question.lift_eq_ok_iff]
  refine ⟨pointer, hp, _, hd, Question.bind_eq_ok_iff.2 ⟨.function, ?_, if_pos rfl⟩⟩
  rw [Question.lift_eq_ok_iff, TypeTable.kind_eq_ok_iff]
  exact ⟨_, TypeTable.data_eq_ok_iff.1 function, rfl⟩

/-- A call with arguments that fit, and any further ones, is emitted. -/
theorem buildCall_eq {site : Site} {callee : Value} {fixed more : List Value} {fnType ret : Ty}
    {space : Nat} {params : List Ty} (points : c.PointsTo callee fnType space)
    (function : c.types.data fnType = .ok (.function ret params true))
    (arguments : List.Forall₂ (fun param arg => c.typeOf arg = .ok param) params fixed)
    (alive : ∀ v ∈ callee :: (fixed ++ more), v ∈ c.graph.live) :
    buildCall site callee (fixed ++ more) c =
      emit site ret (.call fnType .none .c) ((fixed ++ more ++ [callee]).map some) c := by
  have checked : c.checkAll (callee :: (fixed ++ more)) = .ok () := checkAll_eq_ok_iff.2 alive
  have count : (fixed ++ more).length = params.length ∨
      (True ∧ params.length < (fixed ++ more).length) := by
    have := arguments.length_eq
    rw [List.length_append, true_and]
    omega
  simp only [buildCall, Run.bind_apply, Run.get_apply, Run.question_apply, Run.faulting_apply,
    checked, calleeType_eq points function, function, checkArguments_append arguments]
  rw [if_pos count]
  rfl

/-- What instructions are given. -/
structure DataFirstClass (c : Context) : Prop where
  /-- A factory takes first-class values, blocks and further arguments aside. -/
  built : ∀ {r : Request} {a c'}, r.isFactory = true → r.ClassChecked c → r.run c = .ok a c' →
    ∃ i : Instruction, a = .value i.value ∧ c'.TakesData i
  /-- The value of a new case is first-class. -/
  case : ∀ {s value dest a c'}, (Request.addCase s value dest).ClassChecked c →
    (Request.addCase s value dest).run c = .ok a c' → c'.FirstClass value.value
  /-- The value of a new incoming edge is first-class. -/
  incoming : ∀ {p w b a c'}, (Request.addIncoming p w b).ClassChecked c →
    (Request.addIncoming p w b).run c = .ok a c' → c'.FirstClass w
  /-- Every value is taken as a further argument. -/
  further : ∀ {site callee fixed more fnType space ret params}, site.point.Valid c →
    site.name = none ∨ ret ≠ c.types.void → c.PointsTo callee fnType space →
    c.types.data fnType = .ok (.function ret params true) →
    List.Forall₂ (fun param arg => c.typeOf arg = .ok param) params fixed →
    (∀ v ∈ callee :: (fixed ++ more), v ∈ c.graph.live) →
    ∃ v c', (Request.call site callee (fixed ++ more)).run c = .ok (.value v) c' ∧
      c'.operation ⟨v⟩ = .ok (.call fnType .none .c) ∧
      c'.operands v = .ok ((fixed ++ more ++ [callee]).map some)

/-- In every context that class-checked requests lead to, instructions are given first-class values,
apart from blocks and from the further arguments of calls. -/
theorem ReachedBy.data_first_class (hc : ClassChecked c) : c.DataFirstClass := by
  have hs := hc.sound
  have hi := hc.intact
  have wellSorted := hc.wellSorted
  have after : ∀ {r : Request} {a c'}, r.run c = .ok a c' → c'.Sound :=
    fun run => hs.of_chain (Request.run_steps hs _ _ _ run)
  constructor
  case built =>
    intro r a c' hf hr run
    exact Request.run_takesData hs hi wellSorted hf hr run
  -- The value of a case is an integer constant, and integers are first-class.
  case case =>
    intro s value dest a c' hr run
    have hs' := after run
    have constant : c.HasClass value :=
      hr (.intConstant, value.value) (by simp [Request.mentions])
    have run := Request.silent_eq_ok run
    obtain ⟨-, -, ⟨-, ty, -, -, hty⟩, -⟩ := addCase_eq_ok_iff.1 run
    obtain ⟨g₁, g₂, first, second, rfl⟩ := addCase_ok run
    refine (lengthens_of_pushPair hs first second).firstClass hs hs' ?_
    exact firstClass_iff.2 ⟨ty, hty,
      TypeTable.isFirstClass_of_integer (constant.integer hs hi hc.intsPooled hty)⟩
  -- An incoming value has the type of its phi, which was checked when the phi was made.
  case incoming =>
    intro p w b a c' hr run
    have hs' := after run
    have phi : c.HasClass p := hr (.phi, p.value) (by simp [Request.mentions])
    have run := Request.silent_eq_ok run
    obtain ⟨-, -, ⟨ty, hw, hp⟩, -⟩ := addIncoming_eq_ok_iff.1 run
    obtain ⟨g₁, g₂, first, second, rfl⟩ := addIncoming_ok run
    refine (lengthens_of_pushPair hs first second).firstClass hs hs' ?_
    exact firstClass_iff.2 ⟨ty, hw, phi.firstClass hs wellSorted hp⟩
  case further =>
    intro site callee fixed more fnType space ret params valid named points function arguments alive
    -- All operands are alive; nothing is asked of the types of the further ones.
    have operands : ∀ o ∈ (fixed ++ more ++ [callee]).map some, ∀ v ∈ o,
        ∃ d, c.graph.value? v = some d := by
      intro o ho v hv
      obtain ⟨w, hw, rfl⟩ := List.mem_map.1 ho
      cases hv
      rw [List.mem_append, List.mem_singleton] at hw
      exact Graph.mem_live.1 (alive v (List.mem_cons.2 hw.symm))
    obtain ⟨i, c', emitted⟩ : ∃ (i : Handle .call) (c' : Context),
        emit site ret (.call fnType .none .c) ((fixed ++ more ++ [callee]).map some) c = .ok i c' :=
      emit_answered hs hc.tidy valid named operands
    have built : buildCall site callee (fixed ++ more) c = .ok i c' :=
      (buildCall_eq points function arguments alive).trans emitted
    have run : (Request.call site callee (fixed ++ more)).run c = .ok (.value i.value) c' :=
      Run.bind_eq_ok_iff.2 ⟨i, c', built, rfl⟩
    obtain ⟨-, -, kind, given⟩ := emit_data hs (after run) emitted
    exact ⟨i.value, c', run, operation_eq_ok_iff.2 kind, given⟩

/-- For instance, when a phi and a switch have edges and a function with variable arguments has been
called with a further one. -/
theorem data_first_class_after_call : ∃ c,
    replay [.functionType ⟨⟨1⟩, 0⟩ [⟨⟨1⟩, 9⟩] true, .newFunction "f" ⟨⟨1⟩, 11⟩, .newBlock none,
      .constInt ⟨⟨1⟩, 9⟩ 5, .phi {} ⟨⟨1⟩, 9⟩, .addIncoming ⟨⟨⟨1⟩, 4⟩⟩ ⟨⟨1⟩, 3⟩ ⟨⟨⟨1⟩, 2⟩⟩,
      .switch {} ⟨⟨1⟩, 4⟩ ⟨⟨⟨1⟩, 2⟩⟩, .addCase ⟨⟨⟨1⟩, 5⟩⟩ ⟨⟨⟨1⟩, 3⟩⟩ ⟨⟨⟨1⟩, 2⟩⟩,
      .call { point := .atEnd ⟨⟨⟨1⟩, 2⟩⟩ } ⟨⟨1⟩, 0⟩ [⟨⟨1⟩, 4⟩, ⟨⟨1⟩, 3⟩]] (.initial ⟨1⟩) = some c ∧
    (c.operands ⟨⟨1⟩, 6⟩ = .ok [some ⟨⟨1⟩, 4⟩, some ⟨⟨1⟩, 3⟩, some ⟨⟨1⟩, 0⟩] ∧
      c.FirstClass ⟨⟨1⟩, 4⟩ ∧ c.FirstClass ⟨⟨1⟩, 3⟩ ∧ c.FirstClass ⟨⟨1⟩, 0⟩) ∧
    c.DataFirstClass :=
  exists_replay _ _ (by decide +kernel) fun c hc _ => ReachedBy.data_first_class hc

/-- A block and an instruction without a result are passed to a function with variable arguments. -/
theorem block_and_void_passed_to_call : ∃ c a c',
    replay [.functionType ⟨⟨1⟩, 0⟩ [] true, .newFunction "f" ⟨⟨1⟩, 11⟩, .newBlock none,
      .unreachable {}] (.initial ⟨1⟩) = some c ∧
    (Request.call {} ⟨⟨1⟩, 0⟩ [⟨⟨1⟩, 1⟩, ⟨⟨1⟩, 2⟩]).run c = .ok a c' ∧
    (c'.callArg ⟨⟨⟨1⟩, 3⟩⟩ 0 = .ok (some ⟨⟨1⟩, 1⟩) ∧ c'.typeKind ⟨⟨1⟩, 1⟩ = .ok .label ∧
      c'.callArg ⟨⟨⟨1⟩, 3⟩⟩ 1 = .ok (some ⟨⟨1⟩, 2⟩) ∧ c'.typeKind ⟨⟨1⟩, 2⟩ = .ok .void ∧
      ¬ c'.FirstClass ⟨⟨1⟩, 1⟩ ∧ ¬ c'.FirstClass ⟨⟨1⟩, 2⟩) ∧
    (Request.call {} ⟨⟨1⟩, 0⟩ [⟨⟨1⟩, 1⟩, ⟨⟨1⟩, 2⟩]).ClassChecked c :=
  exists_run _ _ _ (by decide +kernel) fun _ _ _ _ checked _ _ => checked

end Context

end SsaGraph
