import SsaGraph.Proofs.Graph.Change
import SsaGraph.Proofs.Layout
import SsaGraph.Proofs.Type.Request

/-!
# Changes of a context

A context changes through the changes of its parts. `Tame` collects those that neither fill an
operand slot nor create an instruction, and `Change` adds the other changes of the graph. Among the
tame ones, `Quiet` are those that point no use anywhere and make no constant, `Local` the quiet ones
that create no value and leave the type table alone, `Grows` those of the type table, `Pools` those
that make a constant, and `Supply` the last two together. `Sound` is what every change keeps: the
parts belong to the context, the type table is well-formed, operand slots and use lists agree, and
the layout lists values of the context only.

The second half takes requests on a part, and questions, to the context.
-/

namespace SsaGraph

namespace Context

/-- The layout lists values of the context. -/
def Owns (c : Context) (l : Layout) : Prop := l.Members (·.ctx = c.graph.ctx)

/-- A change that neither fills an operand slot nor creates an instruction. -/
inductive Tame (c : Context) : Context → Prop
  | types {types : TypeTable} (h : c.types.Change types) : Tame c { c with types }
  /-- A constant is created and entered into the pool. -/
  | constant (ty : Ty) (k : Constant) :
    Tame c { c with
      graph := (c.graph.push ⟨ty, none, .constant k, [], none, 0⟩).2
      pool := c.pool.insert (ty, k) ⟨c.graph.ctx, c.graph.values.size⟩ }
  /-- A value is created that is not an instruction; a block is of type `label`. -/
  | create {ty : Ty} {kind : ValueKind} (name : Option String) (user : kind.isUser = false)
    (label : kind = .block → ty = c.types.label) :
    Tame c { c with graph := (c.graph.push ⟨ty, name, kind, [], none, 0⟩).2 }
  | graph {graph : Graph} (h : c.graph.Tame graph) : Tame c { c with graph }
  | layout {layout : Layout} (h : c.Owns c.layout → c.Owns layout) : Tame c { c with layout }
  | registry (functions : List Func) (names : Keyed String Func) :
    Tame c { c with functions, names }

/-- A tame change that points no use anywhere and makes no constant. -/
inductive Quiet (c : Context) : Context → Prop
  | graph {graph : Graph} (h : c.graph.Trim graph) : Quiet c { c with graph }
  /-- A value without operands is created. -/
  | create {ty : Ty} {name : Option String} {kind : ValueKind} {c' : Context} (h : c.Tame c')
    (graph : c'.graph = (c.graph.push ⟨ty, name, kind, [], none, 0⟩).2) (pool : c'.pool = c.pool) :
    Quiet c c'
  /-- The graph stays as it is. -/
  | aside {c' : Context} (h : c.Tame c') (graph : c'.graph = c.graph) (pool : c'.pool = c.pool) :
    Quiet c c'

/-- A quiet change is tame. -/
theorem Quiet.tame {c c' : Context} (h : c.Quiet c') : c.Tame c' := by
  cases h with
  | graph h => exact .graph h.tame
  | create h _ _ => exact h
  | aside h _ _ => exact h

/-- A quiet change that creates no value and leaves the type table as it is. -/
structure Local (c c' : Context) : Prop where
  /-- The change points no use anywhere and makes no constant. -/
  quiet : c.Quiet c'
  /-- The types are the same. -/
  types : c'.types = c.types
  /-- No value is created. -/
  size : c'.graph.values.size = c.graph.values.size

/-- A change that makes a type available. -/
inductive Grows (c : Context) : Context → Prop
  | types {types : TypeTable} (h : c.types.Change types) : Grows c { c with types }

/-- Growth of the type table is quiet. -/
theorem Grows.quiet {c c' : Context} (h : c.Grows c') : c.Quiet c' := by
  cases h with
  | types h => exact .aside (.types h) rfl rfl

/-- A change that makes a type or a constant available. -/
inductive Supply (c : Context) : Context → Prop
  | types {types : TypeTable} (h : c.types.Change types) : Supply c { c with types }
  /-- A constant that the pool does not have is created and entered. -/
  | constant {ty : Ty} {k : Constant} (typed : c.types.Has ty) (new : c.pool.get? (ty, k) = none) :
    Supply c { c with
      graph := (c.graph.push ⟨ty, none, .constant k, [], none, 0⟩).2
      pool := c.pool.insert (ty, k) ⟨c.graph.ctx, c.graph.values.size⟩ }

/-- Growth of the type table is a supply. -/
theorem Grows.supply {c c' : Context} (h : c.Grows c') : c.Supply c' := by
  cases h with
  | types h => exact .types h

/-- A change that makes a constant available. -/
inductive Pools (c : Context) : Context → Prop
  /-- A constant that the pool does not have is created and entered. -/
  | constant {ty : Ty} {k : Constant} (typed : c.types.Has ty) (new : c.pool.get? (ty, k) = none) :
    Pools c { c with
      graph := (c.graph.push ⟨ty, none, .constant k, [], none, 0⟩).2
      pool := c.pool.insert (ty, k) ⟨c.graph.ctx, c.graph.values.size⟩ }

/-- A pooled constant is a supply. -/
theorem Pools.supply {c c' : Context} (h : c.Pools c') : c.Supply c' := by
  cases h with
  | constant typed new => exact .constant typed new

/-- A supply is tame. -/
theorem Supply.tame {c c' : Context} (h : c.Supply c') : c.Tame c' := by
  cases h with
  | types h => exact .types h
  | constant _ _ => exact .constant _ _

/-- A change of any sort. -/
inductive Change (c : Context) : Context → Prop
  | tame {c' : Context} (h : c.Tame c') : Change c c'
  | graph {graph : Graph} (h : c.graph.Change graph) : Change c { c with graph }

/-! ## Soundness -/

/-- The parts of a context belong together and are in order. -/
structure Sound (c : Context) : Prop where
  /-- The types are those of the context. -/
  typesCtx : c.types.ctx = c.id
  /-- The values are those of the context. -/
  graphCtx : c.graph.ctx = c.id
  /-- The type table is well-formed. -/
  types : c.types.WellFormed
  /-- Operand slots and use lists agree. -/
  graph : c.graph.Coherent
  /-- What the layout lists belongs to the context. -/
  layout : c.Owns c.layout

/-- A new context is sound. -/
theorem sound_initial (id : ContextId) : (initial id).Sound := by
  refine ⟨rfl, rfl, TypeTable.wellFormed_initial id, Graph.coherent_initial id, ?_, ?_⟩
  · intro f b hb
    cases hb
  · intro b i hi
    cases hi

/-- A tame change keeps a context sound. -/
theorem Tame.sound {c c' : Context} (h : c.Tame c') (hs : c.Sound) : c'.Sound := by
  cases h with
  | types h =>
    exact ⟨h.growsTo.ctx.trans hs.typesCtx, hs.graphCtx, h.wellFormed hs.types, hs.graph, hs.layout⟩
  | constant ty k =>
    exact ⟨hs.typesCtx, hs.graphCtx, hs.types, hs.graph.create ty _ none, hs.layout⟩
  | create name user label =>
    exact ⟨hs.typesCtx, hs.graphCtx, hs.types, hs.graph.create _ _ name, hs.layout⟩
  | graph h =>
    -- The layout names values of the context by its number, which no change of the graph touches.
    obtain ⟨hg, hctx⟩ := h.coherent hs.graph
    refine ⟨hs.typesCtx, hctx.trans hs.graphCtx, hs.types, hg, ?_⟩
    have := hs.layout
    unfold Owns at this ⊢
    rwa [hctx]
  | layout h => exact ⟨hs.typesCtx, hs.graphCtx, hs.types, hs.graph, h hs.layout⟩
  | registry functions names =>
    exact ⟨hs.typesCtx, hs.graphCtx, hs.types, hs.graph, hs.layout⟩

/-- A change keeps a context sound. -/
theorem Change.sound {c c' : Context} (h : c.Change c') (hs : c.Sound) : c'.Sound := by
  cases h with
  | tame h => exact h.sound hs
  | graph h =>
    obtain ⟨hg, hctx⟩ := h.coherent hs.graph
    refine ⟨hs.typesCtx, hctx.trans hs.graphCtx, hs.types, hg, ?_⟩
    have := hs.layout
    unfold Owns at this ⊢
    rwa [hctx]

/-- What every change keeps holds after a chain of changes. -/
theorem Sound.of_chain {c c' : Context} (hs : c.Sound) (h : Relation.ReflTransGen Change c c') :
    c'.Sound := by
  induction h with
  | refl => exact hs
  | tail _ h ih => exact h.sound ih

/-- A chain of supplies is one of tame changes. -/
theorem chain_of_supply {c c' : Context} (h : Relation.ReflTransGen Supply c c') :
    Relation.ReflTransGen Tame c c' := by
  induction h with
  | refl => exact .refl
  | tail _ h ih => exact ih.tail h.tame

/-- A chain of local changes is one of quiet changes. -/
theorem quiets_of_local {c c' : Context} (h : Relation.ReflTransGen Local c c') :
    Relation.ReflTransGen Quiet c c' :=
  Relation.ReflTransGen.mono (fun _ _ => Local.quiet) c c' h

/-- A chain of local changes is one of tame changes. -/
theorem chain_of_local {c c' : Context} (h : Relation.ReflTransGen Local c c') :
    Relation.ReflTransGen Tame c c' := by
  induction h with
  | refl => exact .refl
  | tail _ h ih => exact ih.tail h.quiet.tame

/-- A chain of tame changes is one of changes. -/
theorem chain_of_tame {c c' : Context} (h : Relation.ReflTransGen Tame c c') :
    Relation.ReflTransGen Change c c' := by
  induction h with
  | refl => exact .refl
  | tail _ h ih => exact ih.tail (.tame h)

/-- Types and constants that are made available keep a context sound. -/
theorem Sound.supplies {c c' : Context} (hs : c.Sound) (h : Relation.ReflTransGen Supply c c') :
    c'.Sound :=
  hs.of_chain (chain_of_tame (chain_of_supply h))

/-- Local changes keep a context sound. -/
theorem Sound.locals {c c' : Context} (hs : c.Sound) (h : Relation.ReflTransGen Local c c') :
    c'.Sound :=
  hs.of_chain (chain_of_tame (chain_of_local h))

/-! ## Types over time -/

/-- Local changes keep the types. -/
theorem types_of_local {c c' : Context} (h : Relation.ReflTransGen Local c c') :
    c'.types = c.types := by
  induction h with
  | refl => rfl
  | tail _ h ih => exact h.types.trans ih

/-- Local changes create no value. -/
theorem size_of_local {c c' : Context} (h : Relation.ReflTransGen Local c c') :
    c'.graph.values.size = c.graph.values.size := by
  induction h with
  | refl => rfl
  | tail _ h ih => exact h.size.trans ih

/-- What every change of a type table keeps is kept whatever happens to the context. -/
theorem types_of_chain {P : TypeTable → Prop} (step : ∀ {t t'}, t.Change t' → P t → P t')
    {c c' : Context} (h : Relation.ReflTransGen Change c c') (hp : P c.types) : P c'.types := by
  induction h with
  | refl => exact hp
  | tail _ h ih =>
    cases h with
    | graph _ => exact ih
    | tame h =>
      cases h with
      | types h => exact step h ih
      | _ => exact ih

/-- Whatever happens to a context, its type table only grows. -/
theorem growsTo_of_chain {c c' : Context} (h : Relation.ReflTransGen Change c c') :
    c.types.GrowsTo c'.types :=
  types_of_chain (P := c.types.GrowsTo) (fun step grows => grows.trans step.growsTo) h (.refl _)

end Context

/-! ## Requests on a part -/

open Run (Steps)

namespace Context

variable {α : Type} {c : Context}

/-- What changes the type table grows the context. -/
theorem onTypes_grows {m : Run TypeTable α} (h : Steps TypeTable.Change m c.types) :
    Steps Grows (onTypes m) c :=
  .on rfl (fun _ _ ht => .types ht) h

/-- What changes the type table makes quiet changes. -/
theorem onTypes_steps {m : Run TypeTable α} (h : Steps TypeTable.Change m c.types) :
    Steps Quiet (onTypes m) c :=
  (onTypes_grows h).mono fun _ _ => Grows.quiet

/-- What trims the graph makes local changes. -/
theorem onGraph_steps {m : Run Graph α} (h : Steps Graph.Trim m c.graph) :
    Steps Local (onGraph m) c :=
  .on rfl (fun _ _ hg => ⟨.graph hg, rfl, hg.tame.size_eq⟩) h

/-- What keeps the owners in the layout makes local changes. -/
theorem onLayout_steps {m : Run Layout α}
    (h : ∀ {a l}, m c.layout = .ok a l → c.Owns c.layout → c.Owns l) :
    Steps Local (onLayout m) c := by
  intro a c' hm
  obtain ⟨l, hl, rfl⟩ := Run.on_eq_ok_iff.1 hm
  exact .single ⟨.aside (.layout (h hl)) rfl rfl, rfl, rfl⟩

/-- A successful request on the graph, seen from the context. -/
theorem onGraph_ok {m : Run Graph α} {c' : Context} {a : α} (h : onGraph m c = .ok a c') :
    ∃ g, m c.graph = .ok a g ∧ c' = { c with graph := g } :=
  Run.on_eq_ok_iff.1 h

/-- A run on the type table changes nothing else. -/
theorem onTypes_ok {m : Run TypeTable α} {c' : Context} {a : α} (h : onTypes m c = .ok a c') :
    ∃ t, m c.types = .ok a t ∧ c' = { c with types := t } :=
  Run.on_eq_ok_iff.1 h

/-- A new value is pushed on the arena with its data. -/
theorem newValue_ok {ty : Ty} {kind : ValueKind} {name : Option String} {c' : Context} {v : Value}
    (h : onGraph (Graph.newValue ty kind name) c = .ok v c') :
    v = ⟨c.graph.ctx, c.graph.values.size⟩ ∧
      c' = { c with graph := (c.graph.push ⟨ty, name, kind, [], none, 0⟩).2 } := by
  obtain ⟨g, hg, rfl⟩ := onGraph_ok h
  cases hg
  exact ⟨rfl, rfl⟩

/-- Creating a value that uses no others is a quiet change. -/
theorem newValue_steps {ty : Ty} {kind : ValueKind} (name : Option String)
    (user : kind.isUser = false) (label : kind = .block → ty = c.types.label) :
    Steps Quiet (onGraph (Graph.newValue ty kind name)) c := by
  intro v c' h
  obtain ⟨-, rfl⟩ := newValue_ok h
  exact .single (.create (.create name user label) rfl rfl)

/-- A value that passes the check is one of the context. -/
theorem check_eq_ok_iff {v : Value} {a : Unit} :
    c.check v = .ok a ↔ ∃ d, c.graph.value? v = some d :=
  Graph.check_eq_ok_iff

/-- A handle that passed the check is of the context. -/
theorem ctx_of_check {v : Value} {a : Unit} (h : c.check v = .ok a) : v.ctx = c.graph.ctx := by
  obtain ⟨d, hd⟩ := check_eq_ok_iff.1 h
  exact Graph.ctx_of_value? hd

/-! ## Questions -/

/-- A value whose data are read is alive with these data. -/
theorem valueData_eq_ok {v : Value} {d : ValueData} (h : c.valueData v = .ok d) :
    c.graph.value? v = some d := by
  unfold valueData at h
  split at h
  · cases h
  · exact Graph.value_eq_ok_iff.1 h

/-- A value whose type is read has this type in the graph. -/
theorem typeOf_eq_ok {v : Value} {ty : Ty} (h : c.typeOf v = .ok ty) :
    c.graph.typeAt? v = some ty := by
  simp only [typeOf, Question.bind_eq_ok_iff] at h
  obtain ⟨d, hd, h⟩ := h
  cases h
  exact Graph.typeAt?_of_value? (valueData_eq_ok hd)

/-- In a sound context the data are read exactly of live values. -/
theorem valueData_eq_ok_iff (hs : c.Sound) {v : Value} {d : ValueData} :
    c.valueData v = .ok d ↔ c.graph.value? v = some d := by
  refine ⟨valueData_eq_ok, fun h => ?_⟩
  have hctx : v.ctx = c.id := (Graph.ctx_of_value? h).trans hs.graphCtx
  rw [valueData, if_neg (by simp [hctx])]
  exact Graph.value_eq_ok_iff.2 h

/-- The operand slots that are read are those of the graph. -/
theorem operandSlots_eq_ok (hs : c.Sound) {v : Value} {us : List Use}
    (h : c.operandSlots v = .ok us) : ∀ i, us[i]? = c.graph.slot? (v, i) := by
  simp only [operandSlots, Question.bind_eq_ok_iff, valueData_eq_ok_iff hs] at h
  obtain ⟨d, hd, h⟩ := h
  cases h
  intro i
  simp [Graph.slot?, hd]

/-- The operand slots of a live value are answered with what they hold. -/
theorem operands_eq_ok (hs : c.Sound) {v : Value} {d : ValueData}
    (hd : c.graph.value? v = some d) : c.operands v = .ok (d.operands.map c.graph.target?) := by
  simp only [operands, operandSlots, Question.bind_eq_ok_iff, valueData_eq_ok_iff hs]
  refine ⟨d.operands, ⟨d, hd, rfl⟩, Question.mapM_eq_ok fun u hu => ?_⟩
  obtain ⟨i, hi⟩ := List.mem_iff_getElem?.1 hu
  obtain ⟨t, ht⟩ := hs.graph.owned (v := v) (i := i) (by simpa [Graph.slot?, hd] using hi)
  simp [useData, Graph.edge_eq_ok_iff, Graph.target?, ht]

/-- A slot holds a value exactly when the slot's edge points to it. -/
theorem operandAt_eq_ok_iff (hs : c.Sound) {u v : Value} {i : Nat} :
    c.operandAt u i = .ok (some v) ↔
      ∃ x, c.graph.slot? (u, i) = some x ∧ c.graph.edge? x = some ⟨u, i, some v⟩ := by
  simp only [operandAt, Graph.operand, Question.bind_eq_ok_iff, valueData_eq_ok_iff hs,
    Graph.value_eq_ok_iff]
  constructor
  · rintro ⟨d, hd, d', hd', h⟩
    rw [hd] at hd'
    cases hd'
    cases hx : d.operands[i]? with
    | none => simp [hx] at h
    | some x =>
      simp only [hx, Question.bind_eq_ok_iff, Graph.edge_eq_ok_iff] at h
      obtain ⟨e, he, ht⟩ := h
      have hslot : c.graph.slot? (u, i) = some x := by simp [Graph.slot?, hd, hx]
      -- A slot holds its own edge, so the edge found there belongs to this operand.
      obtain ⟨t, ht'⟩ := hs.graph.owned hslot
      rw [ht'] at he
      cases he
      cases ht
      exact ⟨x, hslot, ht'⟩
  · rintro ⟨x, hx, he⟩
    obtain ⟨d, hd, hx⟩ := Option.bind_eq_some_iff.1 hx
    refine ⟨d, hd, d, hd, ?_⟩
    simp only at hx
    simp only [hx, Question.bind_eq_ok_iff, Graph.edge_eq_ok_iff]
    exact ⟨_, he, rfl⟩

end Context

end SsaGraph
