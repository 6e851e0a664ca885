import SsaGraph.Proofs.Canonical
import SsaGraph.Proofs.Course
import SsaGraph.Proofs.Type.Stratified

/-!
# Type tables are stratified

What all type tables have in common, however they came about: each type is made of types that may be
there, of smaller index unless it is an identified struct, the text of each type comes to an end,
and the sizes of types have a bound (`TypeTable.Stratified`).

The first two rest on what a change of the table keeps, and hold after any history. The bound on
sizes needs that vectors are asked for with lane counts below 2^32. Nothing but such a request
brings in another lane count: what is derived from a vector has its lanes, half of them, or twice as
many if that stays below the bound; a comparison of vectors has their lanes; and all other requests
enter no vectors, or leave the table alone.
-/

namespace SsaGraph

open Run (Steps)

namespace Context

variable {c c' : Context}

/-! ## Lane counts -/

/-- A step after which the lane counts of the type table are below their bound if they were
before. -/
def KeepsLanes (c c' : Context) : Prop := c.types.KeepsLanes c'.types

/-- A change that leaves the table keeps the lanes. -/
theorem KeepsLanes.of_types_eq (h : c'.types = c.types) : c.KeepsLanes c' := by
  intro fit
  rw [h]
  exact fit

/-- A chain of changes that keep the lanes keeps them. -/
theorem KeepsLanes.of_chain (h : Relation.ReflTransGen KeepsLanes c c') : c.KeepsLanes c' := by
  induction h with
  | refl => exact fun fit => fit
  | tail _ step ih => exact fun fit => step (ih fit)

/-- A comparison of vectors has their lanes, and a pointer type has none. -/
theorem Derives.keepsLanes (h : c.Derives c') : c.KeepsLanes c' := by
  cases h with
  | pointer _ => exact TypeTable.keepsLanes_intern (by simp)
  | bools vector _ =>
    refine TypeTable.keepsLanes_intern fun fit elem lanes heq => ?_
    cases heq
    exact fit.lt vector

/-- Pooling a constant keeps the lanes. -/
theorem Pools.keepsLanes (h : c.Pools c') : c.KeepsLanes c' := by
  cases h with
  | constant _ _ => exact .of_types_eq rfl

/-- What is stocked for an instruction keeps the lanes. -/
theorem Stocks.keepsLanes (h : c.Stocks c') : c.KeepsLanes c' := by
  cases h with
  | derive h => exact h.keepsLanes
  | pool h => exact h.keepsLanes

/-- A run on the table keeps the lanes of the context. -/
theorem onTypes_keepsLanes {α : Type} {m : Run TypeTable α}
    (h : Steps TypeTable.KeepsLanes m c.types) : Steps KeepsLanes (onTypes m) c :=
  .on rfl (fun _ _ step => step) h

/-- Emitting an instruction leaves the types alone. -/
theorem emit_types {cls : Class} {site : Site} {ty : Ty} {op : Operation}
    {operands : List (Option Value)} {h : Handle cls} (run : emit site ty op operands c = .ok h c') :
    c'.types = c.types := by
  obtain ⟨g, _, -, rfl, placed⟩ := emit_ok run
  obtain ⟨layout, rfl⟩ := place_ok placed
  rfl

end Context

namespace Request

open Context

variable {c c' : Context} {r : Request} {a : Answer}

/-- Vectors are asked for with lane counts below the bound. -/
def LanesFit : Request → Prop
  | vectorType _ lanes => lanes < laneLimit
  | _ => True

/-- A request for a type. -/
theorem supply_keepsLanes (hs : c.Sound) (hr : r.isSupply = true) (fits : r.LanesFit) :
    Steps KeepsLanes r.run c := by
  cases hd : r.description? with
  | some d =>
    obtain ⟨m, hm, gets, -⟩ := run_gets hd
    rw [hm]
    refine .bind (onTypes_keepsLanes (gets.lanes_steps fun _ elem lanes heq => ?_)) fun _ _ _ => .pure
    subst heq
    -- Only a request for a vector type names a number of lanes.
    cases r with
    | vectorType elem' lanes' =>
      cases hd
      exact fits
    | _ => cases hd
  | none =>
    have reformed : ∀ {α : Type} {m : Run TypeTable α}, Steps TypeTable.Reforms m c.types →
        Steps KeepsLanes (onTypes m) c := fun h =>
      onTypes_keepsLanes (h.mono fun _ _ => TypeTable.Reforms.keepsLanes)
    have pooled : ∀ {cls : Class} {m : Run Context (Handle cls)}, Steps Pools m c →
        Steps KeepsLanes (valued m) c := fun h =>
      valued_steps (h.mono fun _ _ => Pools.keepsLanes)
    cases r with
    | createStruct name =>
      exact .bind (reformed (TypeTable.createStruct_steps name _)) fun _ _ _ => .pure
    | createStructWithBody name fields packed =>
      exact .bind (reformed (TypeTable.createStructWithBody_steps name fields packed _))
        fun _ _ _ => .pure
    | setStructBody ty fields packed =>
      exact silent_steps (reformed (TypeTable.setStructBody_steps ty fields packed _))
    | setStructName ty name =>
      exact silent_steps (reformed (TypeTable.setStructName_steps ty name _))
    | deriveVector how ty =>
      exact .bind (onTypes_keepsLanes (TypeTable.deriveVector_keepsLanes how ty _))
        fun _ _ _ => .pure
    | constInt ty x => exact pooled constInt_pools
    | constBool b => exact pooled (constBool_pools hs)
    | constFloat ty bits => exact pooled constFloat_pools
    | constNull ty => exact pooled constNull_pools
    | undef ty => exact pooled undef_pools
    | integerType | functionType | pointerType | arrayType | vectorType | literalStruct => cases hd
    | _ => cases hr

/-- A request with fitting lanes keeps the lanes. -/
theorem run_keepsLanes (hs : c.Sound) (fits : r.LanesFit) (run : r.run c = .ok a c') :
    c.KeepsLanes c' := by
  cases hf : r.isFactory with
  | true =>
    obtain ⟨i, site, c₁, ty, op, operands, -, -, chain, -, -, emitted⟩ := run_emits hs hf run
    -- A factory asks for types before it emits, but never for a vector with more lanes than one it
    -- has.
    have first : c.KeepsLanes c₁ := .of_chain
      (Relation.ReflTransGen.mono (fun _ _ h => (Supplies.stocks h).keepsLanes) c c₁ chain)
    exact fun fit => KeepsLanes.of_types_eq (emit_types emitted) (first fit)
  | false =>
    cases hsupply : r.isSupply with
    | true => exact .of_chain (supply_keepsLanes hs hsupply fits a c' run)
    | false =>
      cases hg : r.isAttaching || r.isReplacing with
      | true =>
        obtain ⟨graph, rfl⟩ := run_graph hg run
        exact .of_types_eq rfl
      | false =>
        obtain ⟨ha, hr⟩ := Bool.or_eq_false_iff.1 hg
        cases hn : r.isCreation with
        | true =>
          cases r with
          -- A new function asks for the pointer type to its type, and for nothing else.
          | newFunction name ty =>
            obtain ⟨f, -, made⟩ := valued_eq_ok run
            obtain ⟨ptr, types, _, _, _, _, _, asked, -, -, -, -, -, rfl⟩ := newFunction_ok made
            exact (TypeTable.pointerType_gets ty 0).keepsLanes (by simp) asked
          | newBlock name =>
            obtain ⟨b, -, made⟩ := valued_eq_ok run
            obtain ⟨-, rfl⟩ := newBlock_ok made
            exact .of_types_eq rfl
          | _ => cases hn
        | false => exact .of_types_eq (types_of_local (run_local hs hf ha hr hsupply hn _ _ run))

end Request

namespace TypeTable

variable {t : TypeTable}

/-- The types of a table are built from one another, beginning with those that are made of none. -/
structure Stratified (t : TypeTable) : Prop where
  /-- A function returns no function, label or metadata, and takes what is first-class. -/
  function : ∀ {ty ret params varArg}, t.data ty = .ok (.function ret params varArg) →
    (∃ k, t.kind ret = .ok k ∧ k ≠ .function ∧ k ≠ .label ∧ k ≠ .metadata) ∧
      ∀ p ∈ params, ∃ k, t.kind p = .ok k ∧ k.isFirstClass = true
  /-- A pointer points to no void, label or metadata. -/
  pointer : ∀ {ty pointee space}, t.data ty = .ok (.pointer pointee space) →
    ∃ k, t.kind pointee = .ok k ∧ k ≠ .void ∧ k ≠ .label ∧ k ≠ .metadata
  /-- The elements of an array are first-class. -/
  array : ∀ {ty elem len}, t.data ty = .ok (.array elem len) →
    ∃ k, t.kind elem = .ok k ∧ k.isFirstClass = true
  /-- The fields of a struct are first-class. -/
  struct : ∀ {ty d body}, t.data ty = .ok d → d.body? = some body →
    ∀ field ∈ body.fields, ∃ k, t.kind field = .ok k ∧ k.isFirstClass = true
  /-- A vector has lanes, of integers, floating point numbers or pointers. -/
  vector : ∀ {ty elem lanes}, t.data ty = .ok (.vector elem lanes) → 1 ≤ lanes ∧
    ∃ k, t.kind elem = .ok k ∧ (k = .integer ∨ k.isFloatingPoint = true ∨ k = .pointer)
  /-- An integer has at least one bit and at most 2^24 - 1. -/
  integer : ∀ {ty bits}, t.data ty = .ok (.integer bits) → 1 ≤ bits ∧ bits ≤ 2 ^ 24 - 1
  /-- A type that is not an identified struct comes after the types it is made of. -/
  order : ∀ {ty d}, t.data ty = .ok d → d.isNominal = false →
    ∀ part ∈ d.contained, part.index < ty.index
  /-- Types that contain each other in a cycle do so through the body of an identified struct. -/
  cycle : ∀ {ty path}, List.IsChain t.Contains (ty :: path ++ [ty]) →
    ∃ w ∈ ty :: path, ∃ name body, t.data w = .ok (.identified name (some body))
  /-- The rules for the text of a type come to an end, with the text that is displayed. -/
  text : ∀ {ty d}, t.data ty = .ok d → ∀ s, t.Shows ty s ↔ s = t.display ty
  /-- The size of a type is below 2^56. -/
  bits : ∀ {ty d}, t.data ty = .ok d → ∃ n, t.primitiveBits ty = .ok n ∧ n < 2 ^ 56
  /-- The element width in the shape of a vector is the size of its elements, and below 2^32. -/
  width : ∀ {ty elem lanes}, t.data ty = .ok (.vector elem lanes) →
    ∃ n, t.vectorShape ty = .ok (elem, n, lanes) ∧ t.primitiveBits elem = .ok n ∧ n < 2 ^ 32 ∧
      lanes < 2 ^ 32 ∧ t.primitiveBits ty = .ok (n * lanes)

/-- A part that fits has a kind that does. -/
theorem PartFits.exists_kind {fits : TypeKind → Bool} {P : TypeKind → Prop} {ty : Ty}
    (h : t.PartFits fits ty) (imp : ∀ k, fits k = true → P k) : ∃ k, t.kind ty = .ok k ∧ P k := by
  obtain ⟨d, hd, hk⟩ := h
  exact ⟨d.kind, kind_eq_ok_iff.2 ⟨d, hd, rfl⟩, imp _ hk⟩

/-- A well-formed table in order, with fitting lanes, is stratified. -/
theorem WellFormed.stratified (hw : t.WellFormed) (ho : t.Ordered) (fit : t.LanesFit) :
    t.Stratified := by
  constructor
  · intro ty ret params varArg hd
    obtain ⟨hret, hparams⟩ := hw.admits (data_eq_ok_iff.1 hd)
    refine ⟨hret.exists_kind ?_, fun p hp => (hparams p hp).exists_kind fun _ h => h⟩
    intro k hk
    cases k <;> simp_all [TypeKind.canBeReturned]
  · intro ty pointee space hd
    have hpointee : t.PartFits _ pointee := hw.admits (data_eq_ok_iff.1 hd)
    refine hpointee.exists_kind fun k hk => ?_
    cases k <;> simp_all [TypeKind.canBePointee]
  · intro ty elem len hd
    have helem : t.PartFits _ elem := hw.admits (data_eq_ok_iff.1 hd)
    exact helem.exists_kind fun _ h => h
  · intro ty d body hd hbody field hfield
    have admits := hw.admits (data_eq_ok_iff.1 hd)
    have hfields : ∀ f ∈ body.fields, t.PartFits (·.canBeField) f := by
      cases d with
      | literal body' =>
        cases hbody
        exact admits
      | identified name body' =>
        cases hbody
        exact admits
      | _ => cases hbody
    exact (hfields field hfield).exists_kind fun _ h => h
  · intro ty elem lanes hd
    obtain ⟨hlanes, helem⟩ := hw.admits (data_eq_ok_iff.1 hd)
    refine ⟨hlanes, helem.exists_kind fun k hk => ?_⟩
    cases k <;> simp_all [TypeKind.canBeLane, TypeKind.isFloatingPoint]
  · intro ty bits hd
    exact hw.admits (data_eq_ok_iff.1 hd)
  · intro ty d hd
    exact ho.lt (data_eq_ok_iff.1 hd)
  · intro ty path cycle
    -- Along a cycle the index cannot always fall, and it rises only in the body of an identified
    -- struct.
    simpa only [data_eq_ok_iff] using ho.exists_identified_of_cycle cycle
  · intro ty d hd s
    exact ho.shows_iff hw ⟨d, data_eq_ok_iff.1 hd⟩
  · intro ty d hd
    exact fit.primitiveBits_lt hw ⟨d, data_eq_ok_iff.1 hd⟩
  · intro ty elem lanes hd
    rw [data_eq_ok_iff] at hd
    obtain ⟨n, shape, elem, small, size⟩ := hw.vectorShape_eq_ok hd
    exact ⟨n, shape, elem, by omega, fit.lt hd, size⟩

end TypeTable

namespace Context

variable {c : Context}

/-- In a reached context the parts of a type are older than the type, structs apart. -/
theorem ReachedBy.ordered {allowed : Context → Request → Prop} (h : ReachedBy allowed c) :
    c.types.Ordered :=
  h.types_invariant TypeTable.ordered_initial TypeTable.Change.ordered

/-- If no request asks for more lanes than the limit, no vector has more. -/
theorem ReachedBy.lanesFit (h : ReachedBy (fun _ r => r.LanesFit) c) : c.types.LanesFit :=
  h.invariant TypeTable.lanesFit_initial fun hs fit fits run =>
    Request.run_keepsLanes hs fits run fit

/-- In every context, whatever requests with lane counts that fit led to it, the types are
stratified. -/
theorem ReachedBy.types_stratified (hc : ReachedBy (fun _ r => r.LanesFit) c) :
    c.types.Stratified :=
  hc.sound.types.stratified hc.ordered hc.lanesFit

/-- For instance, when two structs point to each other and there is a vector. -/
theorem types_stratified_after_recursion : ∃ c,
    replay [.createStruct (some "a"), .createStruct (some "b"), .pointerType ⟨⟨1⟩, 11⟩ 0,
      .pointerType ⟨⟨1⟩, 12⟩ 0, .setStructBody ⟨⟨1⟩, 11⟩ [⟨⟨1⟩, 14⟩] false,
      .setStructBody ⟨⟨1⟩, 12⟩ [⟨⟨1⟩, 13⟩] false, .vectorType ⟨⟨1⟩, 3⟩ 4]
      (.initial ⟨1⟩) = some c ∧
    (c.types.data? ⟨⟨1⟩, 11⟩ = some (.identified (some "a") (some ⟨[⟨⟨1⟩, 14⟩], false⟩)) ∧
      c.types.data? ⟨⟨1⟩, 14⟩ = some (.pointer ⟨⟨1⟩, 12⟩ 0) ∧
      c.types.data? ⟨⟨1⟩, 12⟩ = some (.identified (some "b") (some ⟨[⟨⟨1⟩, 13⟩], false⟩)) ∧
      c.types.data? ⟨⟨1⟩, 13⟩ = some (.pointer ⟨⟨1⟩, 11⟩ 0) ∧
      c.types.data? ⟨⟨1⟩, 15⟩ = some (.vector ⟨⟨1⟩, 3⟩ 4)) ∧
    c.types.Stratified := by
  refine exists_reached (fun _ r => r.LanesFit) _ ⟨1⟩ (fun _ r hr _ => ?_)
    (by decide +kernel) fun c hc _ => ReachedBy.types_stratified hc
  revert r
  simp [Request.LanesFit, laneLimit]

end Context

end SsaGraph
