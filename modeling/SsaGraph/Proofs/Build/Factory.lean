import SsaGraph.Proofs.Build.Rule
import SsaGraph.Proofs.Build.Shape
import SsaGraph.Proofs.Context.Steps

/-!
# Factories emit instructions that fit their rules

A factory asks its questions, makes a type or a constant available at most, and then emits one
instruction. `Builds` says so, with the changes that come before (`Derives`, or `Stocks` for the one
that may need a constant), and that the types of the instruction are in the table, that the
instruction is of the class of the answer and has the shape of its operation, and that it fits its
type rule at that moment; for the factories that take blocks the rule holds if what they were given
as blocks is of type `label`, and for `alloca` if the pool of constants is in order. The proofs
follow the factories line by line, and read the premises of the rule off the guards that were
passed.
-/

namespace SsaGraph

open Run (Steps)

/-- The types that an operation records. -/
def Operation.types : Operation → List Ty
  | alloca allocated => [allocated]
  | elementPtr source _ => [source]
  | call fnType _ _ => [fnType]
  | _ => []

namespace Context

variable {cls : Class} {r : Context → Context → Prop} {ok : Prop} {site : Site} {c : Context}

/-- The constants in the pool that are alive have the types they are pooled under. -/
structure Pooled (c : Context) : Prop where
  /-- A pooled constant has been created. -/
  created : ∀ {ty k v}, c.pool.get? (ty, k) = some v → v.index < c.graph.values.size
  /-- A pooled constant has the type it was asked for with. -/
  typed : ∀ {ty k v}, c.pool.get? (ty, k) = some v → Slot (· = ty) (c.graph.typeAt? v)

/-- The operands suit an instruction with the given type and operation. -/
structure Suits (c : Context) (ty : Ty) (op : Operation) (operands : List (Option Value)) : Prop where
  /-- The operands have been created. -/
  created : ∀ {v}, some v ∈ operands → v.index < c.graph.values.size
  /-- The instruction fits its rule. -/
  fits : op.Fits c.types ty (c.graph.slotTypes operands)

/-- What a factory makes available before it emits its instruction. -/
inductive Derives (c : Context) : Context → Prop
  /-- A pointer type. -/
  | pointer {pointee : Ty} {space : Nat} (admits : c.types.Admits (.pointer pointee space)) :
    Derives c { c with types := (c.types.intern (.pointer pointee space)).2 }
  /-- The vector of `i1` with as many lanes as another vector. -/
  | bools {ty elem : Ty} {lanes : Nat} (vector : c.types.data? ty = some (.vector elem lanes))
    (admits : c.types.Admits (.vector c.types.int1 lanes)) :
    Derives c { c with types := (c.types.intern (.vector c.types.int1 lanes)).2 }

/-- Deriving a type supplies it. -/
theorem Derives.supply {c c' : Context} (h : c.Derives c') : c.Supply c' := by
  cases h with
  | pointer admits => exact .types (.enter rfl admits)
  | bools vector admits => exact .types (.enter rfl admits)

/-- The same, for the factory that may need a constant as well. -/
inductive Stocks (c : Context) : Context → Prop
  | derive {c' : Context} (h : c.Derives c') : Stocks c c'
  | pool {c' : Context} (h : c.Pools c') : Stocks c c'

/-- A derived type and a pooled constant are both supplied. -/
theorem Stocks.supply {c c' : Context} (h : c.Stocks c') : c.Supply c' := by
  cases h with
  | derive h => exact h.supply
  | pool h => exact h.supply

/-- A successful run makes changes `r` and then emits an instruction for the site, whose types are
in the table and which has the class of the answer and the shape of its operation; if `ok`, the
operands suit it. -/
def Builds (r : Context → Context → Prop) (ok : Prop) (site : Site) (m : Run Context (Handle cls))
    (c : Context) : Prop :=
  ∀ h c', m c = .ok h c' → ∃ c₁ ty op operands,
    Relation.ReflTransGen r c c₁ ∧
    (∀ ty' ∈ ty :: op.types, c₁.types.Has ty') ∧
    cls.Takes c₁.types op operands.length ∧
    (ok → c₁.Suits ty op operands) ∧
    emit site ty op operands c₁ = .ok h c'

namespace Builds

/-- What builds by some changes builds by any that include them. -/
protected theorem mono {r' : Context → Context → Prop} {m : Run Context (Handle cls)}
    (hm : Builds r ok site m c) (sub : ∀ c c', r c c' → r' c c') : Builds r' ok site m c := by
  intro h c' hr
  obtain ⟨c₁, ty, op, operands, chain, emitted⟩ := hm h c' hr
  exact ⟨c₁, ty, op, operands, Relation.ReflTransGen.mono sub c c₁ chain, emitted⟩

/-- What builds after deriving types builds after supplying them. -/
theorem toSupply {m : Run Context (Handle cls)} (hm : Builds Derives ok site m c) :
    Builds Supply ok site m c :=
  hm.mono fun _ _ => Derives.supply

/-- Emitting an instruction builds it, given its types, its class and its type rule. -/
theorem emit {ty : Ty} {op : Operation} {operands : List (Option Value)}
    (typed : ∀ ty' ∈ ty :: op.types, c.types.Has ty') (takes : cls.Takes c.types op operands.length)
    (suits : ok → c.Suits ty op operands) :
    Builds r ok site (emit site ty op operands : Run Context (Handle cls)) c :=
  fun _ _ h => ⟨c, ty, op, operands, .refl, typed, takes, suits, h⟩

/-- An instruction of type `void`, which records no types. -/
theorem emit_void {op : Operation} {operands : List (Option Value)} (hs : c.Sound)
    (none : op.types = []) (takes : cls.Takes c.types op operands.length)
    (suits : ok → c.Suits c.types.void op operands) :
    Builds r ok site (Context.emit site c.types.void op operands : Run Context (Handle cls)) c := by
  refine emit ?_ takes suits
  rw [none]
  exact List.forall_mem_singleton.2 (hs.types.has_primitive (by decide))

/-- A rejection builds, for it never succeeds. -/
protected theorem reject {e : Error} : Builds r ok site (reject e : Run Context (Handle cls)) c := by
  intro h c' hm
  cases hm

/-- Whatever follows a rejection is not run. -/
theorem reject_bind {α : Type} {e : Error} {f : α → Run Context (Handle cls)} :
    Builds r ok site (SsaGraph.reject e >>= f) c := by
  intro h c' hm
  cases hm

/-- What is made available comes first. -/
theorem first {α : Type} {m : Run Context α} {f : α → Run Context (Handle cls)}
    (hm : Steps r m c) (hf : ∀ a c', m c = .ok a c' → Builds r ok site (f a) c') :
    Builds r ok site (m >>= f) c := by
  intro h c'' hr
  obtain ⟨a, c', h₁, h₂⟩ := Run.bind_eq_ok_iff.1 hr
  obtain ⟨c₁, ty, op, operands, chain, emitted⟩ := hf a c' h₁ h c'' h₂
  exact ⟨c₁, ty, op, operands, (hm a c' h₁).trans chain, emitted⟩

/-- Reading the context changes nothing before the instruction. -/
theorem get_bind {f : Context → Run Context (Handle cls)} (hf : Builds r ok site (f c) c) :
    Builds r ok site (get >>= f) c := by
  intro h c' hr
  obtain ⟨_, _, h₁, h₂⟩ := Run.bind_eq_ok_iff.1 hr
  cases h₁
  exact hf h c' h₂

/-- A question changes nothing; what follows may use its answer. -/
theorem ask {α : Type} {x : Except Failure α} {f : α → Run Context (Handle cls)}
    (hf : ∀ a, x = .ok a → Builds r ok site (f a) c) : Builds r ok site (liftM x >>= f) c := by
  intro h c' hr
  obtain ⟨a, _, h₁, h₂⟩ := Run.bind_eq_ok_iff.1 hr
  obtain ⟨hx, rfl⟩ := Run.question_eq_ok_iff.1 h₁
  exact hf a hx h c' h₂

/-- A question that can only fail fatally changes nothing either. -/
theorem ask_fault {α : Type} {x : Except Fault α} {f : α → Run Context (Handle cls)}
    (hf : ∀ a, x = .ok a → Builds r ok site (f a) c) : Builds r ok site (liftM x >>= f) c := by
  intro h c' hr
  obtain ⟨a, _, h₁, h₂⟩ := Run.bind_eq_ok_iff.1 hr
  obtain ⟨hx, rfl⟩ := Run.faulting_eq_ok_iff.1 h₁
  exact hf a hx h c' h₂

/-- What follows a guard may use that it passed. -/
theorem guard {α : Type} {p : Prop} [Decidable p] {m : Run Context (Handle cls)} {e : Error}
    {f : α → Run Context (Handle cls)} (hm : p → Builds r ok site m c) :
    Builds r ok site (if p then m else (reject e >>= f)) c := by
  intro h c' hr
  obtain ⟨hp, hr⟩ := Run.guard_eq_ok_iff.1 hr
  exact hm hp h c' hr

end Builds

/-! ## What questions tell about operands -/

/-- Operands that passed the check are alive. -/
theorem alive_of_checkAll {vs : List Value} {a : Unit} (h : c.checkAll vs = .ok a) {v : Value}
    (hv : some v ∈ vs.map some) : ∃ d, c.graph.value? v = some d := by
  simp only [checkAll, List.forM_eq_forM, Question.forM_eq_ok_iff, check_eq_ok_iff] at h
  obtain ⟨w, hw, hvw⟩ := List.mem_map.1 hv
  cases hvw
  exact h v hw

/-- The same for a single operand. -/
theorem alive_of_check {w : Value} {a : Unit} (h : c.check w = .ok a) {v : Value}
    (hv : some v ∈ [some w]) : ∃ d, c.graph.value? v = some d := by
  cases List.mem_singleton.1 hv
  exact check_eq_ok_iff.1 h

/-- Operands that passed the check are values of the arena. -/
theorem created_of_checkAll {vs : List Value} {a : Unit} (h : c.checkAll vs = .ok a) {v : Value}
    (hv : some v ∈ vs.map some) : v.index < c.graph.values.size := by
  obtain ⟨d, hd⟩ := alive_of_checkAll h hv
  exact Graph.index_lt_of_value? hd

/-- An operand that passed the check is a value of the arena. -/
theorem created_of_check {w : Value} {a : Unit} (h : c.check w = .ok a) {v : Value}
    (hv : some v ∈ [some w]) : v.index < c.graph.values.size := by
  obtain ⟨d, hd⟩ := alive_of_check h hv
  exact Graph.index_lt_of_value? hd

/-- A slot that holds a value is of the type of the value. -/
theorem slot_of_typeOf {v : Value} {ty : Ty} {P : Ty → Prop} (h : c.typeOf v = .ok ty) (hp : P ty) :
    Slot P (c.graph.typeAt? v) := by
  rw [typeOf_eq_ok h]
  exact .some hp

/-- A value that passed the check for a condition has the type `i1`. -/
theorem slot_of_isBool {v : Value} (h : c.isBool v = .ok true) :
    Slot (· = c.types.int1) (c.graph.typeAt? v) := by
  simp only [isBool, Question.bind_eq_ok_iff] at h
  obtain ⟨ty, hty, h⟩ := h
  exact slot_of_typeOf hty (by simpa using h)

end Context

namespace TypeTable

/-- A type whose kind is known fits what its kind fits. -/
theorem partFits_of_kind {t : TypeTable} {ty : Ty} {k : TypeKind} {fits : TypeKind → Bool}
    (h : t.kind ty = .ok k) (hf : fits k = true) : t.PartFits fits ty := by
  obtain ⟨d, hd, rfl⟩ := kind_eq_ok_iff.1 h
  exact ⟨d, hd, hf⟩

/-- A type that passed the check for integers is one, or a vector of them. -/
theorem isIntOrIntVector_eq_ok {t : TypeTable} {ty : Ty} (h : t.isIntOrIntVector ty = .ok true) :
    t.ScalarFits (· = .integer) ty := by
  simp only [isIntOrIntVector, Question.bind_eq_ok_iff] at h
  obtain ⟨k, hk, h⟩ := h
  exact ⟨k, hk, by simpa using h⟩

/-- A type that passed the check for floats is one, or a vector of them. -/
theorem isFloatOrFloatVector_eq_ok {t : TypeTable} {ty : Ty}
    (h : t.isFloatOrFloatVector ty = .ok true) : t.ScalarFits (·.isFloatingPoint) ty := by
  simp only [isFloatOrFloatVector, Question.bind_eq_ok_iff] at h
  obtain ⟨k, hk, h⟩ := h
  exact ⟨k, hk, by simpa using h⟩

end TypeTable

namespace Context

variable {c : Context} {site : Site}

/-- What is given as a block is of type `label`. -/
def IsLabel (c : Context) (b : Block) : Prop := Slot (· = c.types.label) (c.graph.typeAt? b.value)

/-! ## Control flow -/

/-- The factory of returns builds an instruction that its type rule admits. -/
theorem buildRet_builds (hs : c.Sound) {value : Option Value} :
    Builds Derives True site (buildRet site value) c := by
  refine .get_bind ?_
  cases value with
  | none => exact .emit_void hs rfl ⟨rfl, Nat.zero_le 1⟩ fun _ => ⟨nofun, .retVoid⟩
  | some v =>
    refine .ask fun _ hv => .ask_fault fun ty hty => .ask_fault fun k hk => .guard fun hf => ?_
    refine .emit_void hs rfl ⟨rfl, Nat.le_refl 1⟩ fun _ => ⟨created_of_check hv, ?_⟩
    exact .ret (slot_of_typeOf hty (TypeTable.partFits_of_kind hk hf))

/-- The factory of branches does, if the destination is a label. -/
theorem buildBr_builds (hs : c.Sound) {dest : Block} :
    Builds Derives (c.IsLabel dest) site (buildBr site dest) c :=
  .get_bind (.ask fun _ hv => .emit_void hs rfl ⟨rfl, .inl rfl⟩ fun label =>
    ⟨created_of_check hv, .br label⟩)

/-- The factory of conditional branches does, if both destinations are labels. -/
theorem buildCondBr_builds (hs : c.Sound) {cond : Value} {ifTrue ifFalse : Block} :
    Builds Derives (c.IsLabel ifTrue ∧ c.IsLabel ifFalse) site
      (buildCondBr site cond ifTrue ifFalse) c := by
  refine .get_bind (.ask fun _ hv => .ask_fault fun b hb => .guard fun hbt => ?_)
  refine .emit_void hs rfl ⟨rfl, .inr rfl⟩ fun label => ?_
  subst hbt
  exact ⟨created_of_checkAll hv, .condBr (slot_of_isBool hb) label.1 label.2⟩

/-- The factory of switches does, if the default destination is a label. -/
theorem buildSwitch_builds (hs : c.Sound) {cond : Value} {dest : Block} :
    Builds Derives (c.IsLabel dest) site (buildSwitch site cond dest) c := by
  refine .get_bind (.ask fun _ hv => .ask_fault fun ty hty => .ask_fault fun k hk => ?_)
  refine .guard fun hint => .emit_void hs rfl ⟨rfl, Nat.le_refl 2, Nat.mod_self 2⟩ fun label =>
    ⟨created_of_checkAll hv, ?_⟩
  refine .switch ty (TypeTable.partFits_of_kind hk (by simpa using hint)) ?_ (Nat.le_refl 2)
  exact .cons (slot_of_typeOf hty rfl) label .nil

/-- The factory of unreachables does. -/
theorem buildUnreachable_builds (hs : c.Sound) : Builds Derives True site (buildUnreachable site) c :=
  .get_bind (.emit_void hs rfl ⟨rfl, rfl⟩ fun _ => ⟨nofun, .unreachable⟩)

/-- The factory of phis does. -/
theorem buildPhi_builds {ty : Ty} : Builds Derives True site (buildPhi site ty) c := by
  refine .get_bind (.ask fun _ _ => .ask_fault fun k hk => .guard fun hf => ?_)
  refine .emit (List.forall_mem_singleton.2 (TypeTable.has_of_kind hk)) ⟨rfl, rfl⟩ fun _ => ?_
  exact ⟨nofun, .phi (TypeTable.partFits_of_kind hk hf) .nil⟩

/-- A callee points to the function type that is read from it. -/
theorem calleeType_eq_ok {callee : Value} {fnType : Ty} (h : c.calleeType callee = .ok fnType) :
    Slot (c.types.PointsTo fnType) (c.graph.typeAt? callee) := by
  simp only [calleeType, Question.bind_eq_ok_iff, Question.lift_eq_ok_iff,
    TypeTable.data_eq_ok_iff] at h
  obtain ⟨ty, hty, d, hd, h⟩ := h
  cases d with
  | pointer pointee space =>
    simp only [Question.bind_eq_ok_iff] at h
    obtain ⟨k, -, h⟩ := h
    split at h
    · cases h
      exact slot_of_typeOf hty ⟨space, hd⟩
    · simp at h
  | _ => simp at h

/-- Arguments that passed the check are, as far as there are parameters, of the parameters' types.
-/
theorem checkArguments_eq_ok {index : Nat} {args : List Value} {params : List Ty} {a : Unit}
    (h : c.checkArguments index args params = .ok a) (len : params.length ≤ args.length) :
    List.Forall₂ (fun param arg => Slot (· = param) arg) params
      (c.graph.slotTypes ((args.take params.length).map some)) := by
  induction params generalizing index args with
  | nil => simp [Graph.slotTypes]
  | cons param params ih =>
    cases args with
    | nil => simp at len
    | cons arg args =>
      simp only [checkArguments, Question.bind_eq_ok_iff, Question.lift_eq_ok_iff,
        Question.guard_eq_ok_iff] at h
      obtain ⟨ty, hty, rfl, h⟩ := h
      exact .cons (slot_of_typeOf hty rfl) (ih h (by simpa using len))

/-- The factory of calls builds an instruction that its type rule admits. -/
theorem buildCall_builds (hs : c.Sound) {callee : Value} {args : List Value} :
    Builds Derives True site (buildCall site callee args) c := by
  refine .get_bind (.ask fun _ hv => .ask fun fnType hfn => .ask_fault fun d hd => ?_)
  rw [TypeTable.data_eq_ok_iff] at hd
  -- The callee has a pointer to a function type; no other data gets this far.
  cases d with
  | function ret params varArg =>
    have typed : ∀ ty ∈ [ret, fnType], c.types.Has ty :=
      List.forall_mem_cons.2 ⟨(hs.types.admits hd).1.has, List.forall_mem_singleton.2 ⟨_, hd⟩⟩
    refine .guard fun hlen => .ask fun _ hargs => ?_
    have len : params.length ≤ args.length := by omega
    have count : ((args ++ [callee]).map some).length = args.length + 1 := by simp
    refine .emit typed ⟨rfl, ret, params, varArg, hd, ?_, fun hv => ?_⟩ fun _ =>
      ⟨fun hmem => ?_, ?_⟩
    · omega
    · have : args.length = params.length := by simpa [hv] using hlen
      omega
    · exact created_of_checkAll hv (by simpa [or_comm] using hmem)
    -- The rule of a call has three parts: fixed arguments, further arguments, and the callee.
    have split : c.graph.slotTypes ((args ++ [callee]).map some) =
        c.graph.slotTypes ((args.take params.length).map some) ++
          c.graph.slotTypes ((args.drop params.length).map some) ++ [c.graph.typeAt? callee] := by
      unfold Graph.slotTypes
      rw [← List.map_append, ← List.map_append, List.take_append_drop, List.map_append,
        List.map_append]
      rfl
    rw [split]
    refine .call hd (checkArguments_eq_ok hargs len) (fun hv => ?_) (calleeType_eq_ok hfn)
    have : args.length = params.length := by simpa [hv] using hlen
    simp [Graph.slotTypes, ← this]
  | _ => exact .reject

/-! ## Arithmetic and casts -/

/-- The factory of binary operations builds an instruction that its type rule admits. -/
theorem buildBinary_builds {op : Opcode} {lhs rhs : Value} :
    Builds Derives True site (buildBinary site op lhs rhs) c := by
  -- The opcode is checked first, so the operation below is one of a binary opcode.
  unfold buildBinary
  split
  · rename_i hbinary
    have takes : Class.binary.Takes c.types (.binary ⟨op, hbinary⟩) 2 :=
      ⟨hbinary, Opcode.arity_of_isBinary hbinary⟩
    refine .get_bind (.ask fun _ hv => .ask_fault fun ty hl => .ask_fault fun ty' hr => ?_)
    refine .guard fun heq => ?_
    subst heq
    split
    · -- The classifier that the code asks is the list of operators in the rule.
      rename_i hfloat
      refine .ask_fault fun b hb => .guard fun hbt => ?_
      subst hbt
      have float := TypeTable.isFloatOrFloatVector_eq_ok hb
      refine .emit (List.forall_mem_singleton.2 float.has) takes fun _ =>
        ⟨created_of_checkAll hv, ?_⟩
      exact .floatBinary (Opcode.isFloatBinary_iff.1 hfloat) float (slot_of_typeOf hl rfl)
        (slot_of_typeOf hr rfl)
    · rename_i hfloat
      refine .ask_fault fun b hb => .guard fun hbt => ?_
      subst hbt
      have integer := TypeTable.isIntOrIntVector_eq_ok hb
      refine .emit (List.forall_mem_singleton.2 integer.has) takes fun _ =>
        ⟨created_of_checkAll hv, ?_⟩
      exact .intBinary (mt Opcode.isFloatBinary_iff.2 hfloat) integer (slot_of_typeOf hl rfl)
        (slot_of_typeOf hr rfl)
  · exact .reject

/-- The type of a comparison is found or entered, and nothing else changes. -/
theorem boolLike_ok (hs : c.Sound) {ty result : Ty} {c' : Context}
    (h : boolLike ty c = .ok result c') :
    ∃ types, c' = { c with types } ∧ c.types.GrowsTo types ∧ types.BoolLike ty result := by
  simp only [boolLike, Run.bind_eq_ok_iff, Run.get_apply, Run.faulting_eq_ok_iff] at h
  obtain ⟨_, _, h₀, ⟨elem, lanes⟩, _, ⟨hshape, rfl⟩, h⟩ := h
  cases h₀
  simp only [TypeTable.shape, Question.bind_eq_ok_iff, TypeTable.data_eq_ok_iff] at hshape
  obtain ⟨d, hd, hshape⟩ := hshape
  -- Of the types only a vector has its own shape in the answer.
  cases d with
  | vector elem' lanes' =>
    cases hshape
    obtain ⟨types, ht, rfl⟩ := onTypes_ok h
    have grows : c.types.GrowsTo types := (TypeTable.vectorType_gets _ _).growsTo ht
    refine ⟨types, rfl, grows, .inl ⟨elem, lanes', grows.structural hd rfl, ?_⟩⟩
    rw [grows.int1_eq]
    exact (TypeTable.vectorType_gets _ _).data? hs.types ht
  | _ =>
    cases hshape
    cases h
    refine ⟨c.types, rfl, .refl _, .inr ⟨_, hd, ?_, rfl⟩⟩
    intro hk
    cases hk

/-- The type of a comparison is a chain of types that are asked for. -/
theorem boolLike_derives {ty : Ty} : Steps Derives (boolLike ty) c := by
  refine .get_bind (.ask_fault fun s hs => ?_)
  simp only [TypeTable.shape, Question.bind_eq_ok_iff, TypeTable.data_eq_ok_iff] at hs
  obtain ⟨d, hd, hs⟩ := hs
  -- A comparison of scalars needs no new type, since `i1` is always there.
  cases d with
  | vector elem lanes =>
    cases hs
    intro result c' run
    obtain ⟨types, asked, rfl⟩ := onTypes_ok run
    obtain ⟨admits, hi⟩ := (TypeTable.vectorType_gets _ _).eq_ok_iff.1 asked
    have step := Derives.bools hd admits
    rw [hi] at step
    exact .single step
  | _ =>
    cases hs
    exact .pure

/-- The type of a comparison is supplied. -/
theorem boolLike_supply {ty : Ty} : Steps Supply (boolLike ty) c :=
  boolLike_derives.mono fun _ _ => Derives.supply

/-- A comparison is emitted after its type has been made available. -/
theorem emitComparison_builds (hs : c.Sound) {operand : Ty} {op : Operation}
    {operands : List (Option Value)} (none : op.types = [])
    (takes : ∀ {types}, cls.Takes types op operands.length)
    (suits : ∀ {types result}, c.types.GrowsTo types → types.BoolLike operand result →
      Suits { c with types } result op operands) :
    Builds Derives True site
      (do emit site (← boolLike operand) op operands : Run Context (Handle cls)) c := by
  refine .first boolLike_derives fun result c' hb => ?_
  have hs' := hs.supplies (boolLike_supply result c' hb)
  obtain ⟨types, rfl, grows, like⟩ := boolLike_ok hs hb
  refine .emit ?_ takes fun _ => suits grows like
  rw [none]
  exact List.forall_mem_singleton.2 (like.has hs'.types)

/-- The factory of integer comparisons builds an instruction that its type rule admits. -/
theorem buildIcmp_builds (hs : c.Sound) {pred : IntPredicate} {lhs rhs : Value} :
    Builds Derives True site (buildIcmp site pred lhs rhs) c := by
  refine .get_bind (.ask fun _ hv => .ask_fault fun ty hl => .ask_fault fun ty' hr => ?_)
  refine .guard fun heq => .ask_fault fun k hk => .guard fun hint => .ask fun _ _ => ?_
  subst heq
  refine emitComparison_builds hs rfl ⟨rfl, rfl⟩ fun grows like => ⟨created_of_checkAll hv, ?_⟩
  exact .icmp ty (grows.scalarFits ⟨k, hk, by simpa using hint⟩) (slot_of_typeOf hl rfl)
    (slot_of_typeOf hr rfl) like

/-- The factory of float comparisons does. -/
theorem buildFcmp_builds (hs : c.Sound) {pred : FloatPredicate} {lhs rhs : Value} :
    Builds Derives True site (buildFcmp site pred lhs rhs) c := by
  refine .get_bind (.ask fun _ hv => .ask_fault fun ty hl => .ask_fault fun ty' hr => ?_)
  refine .guard fun heq => .ask_fault fun b hf => .guard fun hbt => .ask fun _ _ => ?_
  subst heq hbt
  refine emitComparison_builds hs rfl ⟨rfl, rfl⟩ fun grows like => ⟨created_of_checkAll hv, ?_⟩
  exact .fcmp ty (grows.scalarFits (TypeTable.isFloatOrFloatVector_eq_ok hf))
    (slot_of_typeOf hl rfl) (slot_of_typeOf hr rfl) like

/-- The factory of selects does. -/
theorem buildSelect_builds {cond ifTrue ifFalse : Value} :
    Builds Derives True site (buildSelect site cond ifTrue ifFalse) c := by
  refine .get_bind (.ask fun _ hv => .ask_fault fun b hb => .guard fun hbt => ?_)
  refine .ask_fault fun ty hl => .ask_fault fun ty' hr => .guard fun heq => ?_
  refine .ask_fault fun k hk => .guard fun hf => ?_
  refine .emit (List.forall_mem_singleton.2 (TypeTable.has_of_kind hk)) ⟨rfl, rfl⟩ fun _ => ?_
  refine ⟨created_of_checkAll hv, ?_⟩
  subst hbt heq
  exact .select (TypeTable.partFits_of_kind hk hf) (slot_of_isBool hb) (slot_of_typeOf hl rfl)
    (slot_of_typeOf hr rfl)

/-- The factory of casts does. -/
theorem buildCast_builds {op : Opcode} {value : Value} {ty : Ty} :
    Builds Derives True site (buildCast site op value ty) c := by
  unfold buildCast
  split
  · rename_i hcast
    refine .get_bind (.ask fun _ hv => .ask fun _ _ => .ask_fault fun source hs => ?_)
    refine .ask_fault fun b hb => .guard fun hbt => ?_
    refine .emit (List.forall_mem_singleton.2 (TypeTable.has_of_isValidCast hb))
      ⟨hcast, Opcode.arity_of_isCast hcast⟩ fun _ => ?_
    refine ⟨created_of_check hv, ?_⟩
    subst hbt
    exact .cast (slot_of_typeOf hs hb)
  · exact .reject

/-! ## Memory -/

/-- An operand whose parts are read has the type of a pointer with these parts. -/
theorem pointerParts_eq_ok {op : Opcode} {ptr : Value} {pointee : Ty} {space : Nat}
    (h : c.pointerParts op ptr = .ok (pointee, space)) :
    Slot (fun ty => c.types.data? ty = some (.pointer pointee space)) (c.graph.typeAt? ptr) := by
  simp only [pointerParts, Question.bind_eq_ok_iff, Question.lift_eq_ok_iff,
    TypeTable.data_eq_ok_iff] at h
  obtain ⟨ty, hty, d, hd, h⟩ := h
  cases d with
  | pointer pointee' space' =>
    cases h
    exact slot_of_typeOf hty hd
  | _ => simp at h

/-- A type that is asked whether it can be stored is in the table. -/
theorem has_of_isStorable {ty : Ty} {b : Bool} (h : c.isStorable ty = .ok b) : c.types.Has ty := by
  simp only [isStorable, Question.bind_eq_ok_iff] at h
  obtain ⟨k, hk, -⟩ := h
  exact TypeTable.has_of_kind hk

/-- The factory of loads builds an instruction that its type rule admits. -/
theorem buildLoad_builds {ptr : Value} : Builds Derives True site (buildLoad site ptr) c := by
  refine .get_bind (.ask fun _ hv => .ask fun ⟨ty, space⟩ hp => .ask_fault fun b hb => ?_)
  refine .guard fun _ => .emit (List.forall_mem_singleton.2 (has_of_isStorable hb)) ⟨rfl, rfl⟩
    fun _ => ⟨created_of_check hv, ?_⟩
  exact .load ((pointerParts_eq_ok hp).mono (fun _ h => ⟨space, h⟩) (.refl _))

/-- The factory of stores does. -/
theorem buildStore_builds (hs : c.Sound) {value ptr : Value} :
    Builds Derives True site (buildStore site value ptr) c := by
  refine .get_bind (.ask fun _ ha => .ask fun ⟨pointee, space⟩ hp => .ask_fault fun ty hv => ?_)
  refine .guard fun heq => .ask_fault fun k _ => .guard fun _ => ?_
  refine .emit_void hs rfl ⟨rfl, rfl⟩ fun _ => ?_
  have heq : pointee = ty := heq
  subst heq
  refine ⟨created_of_checkAll ha, .store pointee (slot_of_typeOf hv rfl) ?_⟩
  exact ((pointerParts_eq_ok hp).mono (fun _ h => ⟨space, h⟩) (.refl _))

/-- Asking for a pointer type derives it. -/
theorem pointerType_derives {pointee : Ty} {space : Nat} :
    Steps Derives (onTypes (TypeTable.pointerType pointee space)) c := by
  intro ty c' run
  obtain ⟨types, asked, rfl⟩ := onTypes_ok run
  obtain ⟨admits, hi⟩ := (TypeTable.pointerType_gets pointee space).eq_ok_iff.1 asked
  have step := Derives.pointer admits
  rw [hi] at step
  exact .single step

/-- Asking for a pointer type supplies it. -/
theorem pointerType_supply {pointee : Ty} {space : Nat} :
    Steps Supply (onTypes (TypeTable.pointerType pointee space)) c :=
  pointerType_derives.mono fun _ _ => Derives.supply

/-- Indices that passed the check have integer types. -/
theorem checkIndices_eq_ok {indices : List Value} {a : Unit} (h : c.checkIndices indices = .ok a) :
    ∀ i ∈ c.graph.slotTypes (indices.map some), Slot (c.types.PartFits (· = .integer)) i := by
  simp only [checkIndices, List.forM_eq_forM, Question.forM_eq_ok_iff, checkIndex,
    Question.bind_eq_ok_iff, Question.lift_eq_ok_iff, Question.guard_last_eq_ok_iff] at h
  intro slot hslot
  simp only [Graph.slotTypes, List.map_map, List.mem_map, Function.comp_apply] at hslot
  obtain ⟨i, hi, rfl⟩ := hslot
  obtain ⟨ty, hty, k, hk, hint, -⟩ := h i hi
  exact slot_of_typeOf hty (TypeTable.partFits_of_kind hk (by simpa using hint))

/-- What a pointer points to is in the table. -/
theorem has_of_pointerParts (hs : c.Sound) {op : Opcode} {ptr : Value} {pointee : Ty} {space : Nat}
    (h : c.pointerParts op ptr = .ok (pointee, space)) : c.types.Has pointee := by
  simp only [pointerParts, Question.bind_eq_ok_iff, Question.lift_eq_ok_iff,
    TypeTable.data_eq_ok_iff] at h
  obtain ⟨ty, -, d, hd, h⟩ := h
  cases d with
  | pointer pointee' space' =>
    cases h
    exact (hs.types.admits hd).has
  | _ => simp at h

/-- The factory of element pointers builds an instruction that its type rule admits. -/
theorem buildElementPtr_builds (hs : c.Sound) {ptr : Value} {indices : List Value}
    {inbounds : Bool} : Builds Derives True site (buildElementPtr site ptr indices inbounds) c := by
  refine .get_bind (.ask fun _ hv => .ask fun ⟨source, space⟩ hp => ?_)
  dsimp only
  split
  · exact .reject_bind
  · rename_i hne
    refine .ask fun _ hi => .ask fun target _ => .ask fun _ _ => ?_
    -- The result's type comes first; the facts about the operands are about the smaller table and
    -- grow with it.
    refine .first pointerType_derives fun ty c' ht => ?_
    obtain ⟨types, ht', rfl⟩ := onTypes_ok ht
    have grows : c.types.GrowsTo types := (TypeTable.pointerType_gets _ _).growsTo ht'
    have pointer := (TypeTable.pointerType_gets _ _).data? hs.types ht'
    have typed : ∀ ty' ∈ [ty, source], types.Has ty' :=
      List.forall_mem_cons.2 ⟨⟨_, pointer⟩,
        List.forall_mem_singleton.2 (grows.has (has_of_pointerParts hs hp))⟩
    have count : 2 ≤ ((ptr :: indices).map some).length := by
      have := List.length_pos_iff.2 (mt List.isEmpty_iff.2 hne)
      simp only [List.map_cons, List.length_cons, List.length_map]
      omega
    refine .emit typed ⟨rfl, count⟩ fun _ => ⟨created_of_checkAll hv, ?_⟩
    refine .elementPtr pointer ?_ (fun i hmem => ?_) ?_
    · exact (pointerParts_eq_ok hp).mono (fun _ h => grows.structural h rfl) (.refl _)
    · exact (checkIndices_eq_ok hi i hmem).mono (fun _ h => h.mono grows) (.refl i)
    · simpa [Graph.slotTypes] using hne

/-- A constant that is asked for is a value of the arena. -/
theorem constant_created {ty : Ty} {k : Constant} {v : Value} {c' : Context} (hp : c.Pooled)
    (h : constant ty k c = .ok v c') : v.index < c'.graph.values.size := by
  rcases constant_cases h with ⟨hv, rfl⟩ | ⟨-, rfl, rfl⟩
  · exact hp.created hv
  · simp [Graph.push]

/-- A constant that is alive has the type it was asked for with. -/
theorem constant_typed {ty : Ty} {k : Constant} {v : Value} {c' : Context} (hp : c.Pooled)
    (h : constant ty k c = .ok v c') : Slot (· = ty) (c'.graph.typeAt? v) := by
  rcases constant_cases h with ⟨hv, rfl⟩ | ⟨-, rfl, rfl⟩
  · exact hp.typed hv
  · rw [Graph.typeAt?_push]
    exact .some rfl

/-- A request for a constant keeps types, layout and context. -/
theorem constant_frame {ty : Ty} {k : Constant} {v : Value} {c' : Context}
    (h : constant ty k c = .ok v c') :
    c'.types = c.types ∧ c'.layout = c.layout ∧ c'.graph.ctx = c.graph.ctx := by
  rcases constant_cases h with ⟨-, rfl⟩ | ⟨-, rfl, rfl⟩ <;> exact ⟨rfl, rfl, rfl⟩

/-- An integer constant is asked for in an integer type of at most 64 bits. -/
theorem constInt_ok {ty : Ty} {x : Nat} {h : Handle .intConstant} {c' : Context}
    (hm : constInt ty x c = .ok h c') :
    ∃ width, c.types.data? ty = some (.integer width) ∧ width ≤ 64 ∧
      constant ty (.int (.ofNat width x)) c = .ok h.value c' := by
  simp only [constInt, Run.bind_eq_ok_iff, Run.get_apply, Run.question_eq_ok_iff,
    Run.faulting_eq_ok_iff] at hm
  obtain ⟨_, _, h₀, _, _, ⟨-, rfl⟩, d, _, ⟨hd, rfl⟩, hm⟩ := hm
  cases h₀
  cases d with
  | integer width =>
    simp only [Run.guard_eq_ok_iff, Run.bind_eq_ok_iff] at hm
    obtain ⟨fits, v, c₁, hv, hm⟩ := hm
    cases hm
    exact ⟨width, TypeTable.data_eq_ok_iff.1 hd, fits, hv⟩
  | _ => simp at hm

/-- The factory of allocas with a size builds an instruction that its type rule admits. -/
theorem buildAlloca_sized_builds (hs : c.Sound) {ty : Ty} {size : Value} :
    Builds Derives c.Pooled site (buildAlloca site ty (some size)) c := by
  refine .get_bind (.ask fun _ _ => ?_)
  refine .ask fun _ hv => .ask_fault fun nty hn => .ask_fault fun k hk => .guard fun hint => ?_
  refine .ask_fault fun b hb => .guard fun _ => .ask fun _ _ => ?_
  refine .first pointerType_derives fun ptr c' ht => ?_
  obtain ⟨types, ht', rfl⟩ := onTypes_ok ht
  have grows : c.types.GrowsTo types := (TypeTable.pointerType_gets _ _).growsTo ht'
  have pointer := (TypeTable.pointerType_gets _ _).data? hs.types ht'
  have typed : ∀ ty' ∈ [ptr, ty], types.Has ty' :=
    List.forall_mem_cons.2 ⟨⟨_, pointer⟩,
      List.forall_mem_singleton.2 (grows.has (has_of_isStorable hb))⟩
  refine .emit typed ⟨rfl, rfl⟩ fun _ => ⟨created_of_check hv, .alloca pointer (slot_of_typeOf hn ?_)⟩
  exact (TypeTable.partFits_of_kind hk (by simpa using hint)).mono grows

/-- Without a size, the slot is for the constant one of type `i32` many elements. -/
theorem buildAlloca_builds (hs : c.Sound) {ty : Ty} :
    Builds Stocks c.Pooled site (buildAlloca site ty none) c := by
  refine .get_bind (.ask fun _ _ => .ask_fault fun b hb => .guard fun _ => .ask fun _ _ => ?_)
  refine .first (pointerType_derives.mono fun _ _ => .derive) fun ptr c₁ ht => ?_
  refine .first (constInt_pools.mono fun _ _ => .pool) fun one c₂ hone => ?_
  obtain ⟨types, ht', rfl⟩ := onTypes_ok ht
  -- Two supplies come before the instruction: the type of the result and the constant for the size.
  have grows : c.types.GrowsTo types := (TypeTable.pointerType_gets _ _).growsTo ht'
  have pointer := (TypeTable.pointerType_gets _ _).data? hs.types ht'
  obtain ⟨width, -, -, hk⟩ := constInt_ok hone
  have hsame : c₂.types = types := (constant_frame hk).1
  have int32 : types.data? c.types.int32 = some (.integer 32) :=
    grows.structural (hs.types.primitive rfl) rfl
  rw [← hsame] at grows pointer int32
  have typed : ∀ ty' ∈ [ptr, ty], c₂.types.Has ty' :=
    List.forall_mem_cons.2 ⟨⟨_, pointer⟩,
      List.forall_mem_singleton.2 (grows.has (has_of_isStorable hb))⟩
  -- The pool gives the constant with the type that it is pooled under.
  refine .emit typed ⟨rfl, rfl⟩ fun pooled => ?_
  have pooled : Pooled { c with types } := ⟨pooled.created, pooled.typed⟩
  refine ⟨fun hmem => ?_, .alloca pointer ((constant_typed pooled hk).mono ?_ (.refl _))⟩
  · cases List.mem_singleton.1 hmem
    exact constant_created pooled hk
  · rintro _ rfl
    exact ⟨_, int32, rfl⟩

end Context

end SsaGraph
