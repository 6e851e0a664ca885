import SsaGraph.World
import SsaGraph.Proofs.Arrangement
import SsaGraph.Proofs.Mirror

/-!
# Every stored handle resolves

A world has several contexts, and a request to one of them may be made with handles of another. The
worlds considered here are those that requests lead to whose handles pass `World.handle`: a handle
of a live value, of whatever context, is of its class. `Closed` says of a context that every handle
it stores anywhere belongs to it and resolves: types are in its table, and values are alive in it
and of the class that the place is for. The main result is that all contexts of such a world are
closed, and numbered differently, so that no handle of one context is ever stored in another.

A handle of another context, or of a value that is gone, is not of any class in the context that
gets it. So each context of a world has a history of class-checked requests
(`Reachable.classChecked`), and the rest is about one context.
-/

namespace SsaGraph

namespace Context

variable {c c' : Context}

/-! ## Handles that resolve -/

/-- The type belongs to the context and has a place in its table. -/
def ResolvesType (c : Context) (ty : Ty) : Prop := ty.ctx = c.id ∧ ty.index < c.types.size

/-- The value belongs to the context and is a live value of the class. -/
def Resolves (c : Context) (cls : Class) (v : Value) : Prop := v.ctx = c.id ∧ c.isa cls v = .ok true

/-- A type of the table resolves. -/
theorem resolvesType_of_has (hs : c.Sound) {ty : Ty} (h : c.types.Has ty) : c.ResolvesType ty := by
  obtain ⟨d, hd⟩ := h
  exact ⟨(TypeTable.ctx_of_data? hd).trans hs.typesCtx, TypeTable.index_lt_of_data? hd⟩

/-- A value of a class resolves in this class. -/
theorem resolves_of_has (hs : c.Sound) {cls : Class} {v : Value} (h : c.graph.Has cls v) :
    c.Resolves cls v := by
  obtain ⟨d, hd⟩ := h.value?
  exact ⟨(Graph.ctx_of_value? hd).trans hs.graphCtx, (isa_eq_true_iff hs).2 h⟩

/-- Every handle that a context stores resolves in it. -/
structure Closed (c : Context) : Prop where
  /-- The types that types are made of, and the fields of structs among them. -/
  contained : ∀ d ∈ c.types.types, ∀ part ∈ d.contained, c.ResolvesType part
  /-- The types that are known by their descriptions, and what the descriptions are made of. -/
  known : ∀ {d ty}, c.types.known.get? d = some ty →
    c.ResolvesType ty ∧ ∀ part ∈ d.contained, c.ResolvesType part
  /-- The structs that are known by their names. -/
  structNames : ∀ {name ty}, c.types.names.get? name = some ty → c.ResolvesType ty
  /-- The types of values, and those that functions and instructions record. -/
  valueTypes : ∀ {v d}, c.graph.value? v = some d → ∀ ty ∈ d.ty :: d.kind.types, c.ResolvesType ty
  /-- The arguments of functions. -/
  arguments : ∀ {v d fnType args}, c.graph.value? v = some d → d.kind = .function fnType args →
    ∀ a ∈ args, c.Resolves .argument a.value
  /-- The functions of arguments. -/
  parents : ∀ {v d f index}, c.graph.value? v = some d → d.kind = .argument f index →
    c.Resolves .function f.value
  /-- The operand slots of values. -/
  slots : ∀ {v d}, c.graph.value? v = some d → ∀ u ∈ d.operands, ∃ e, c.useData u = .ok e ∧ e.user = v
  /-- The owners of use edges. -/
  users : ∀ {u e}, c.useData u = .ok e → c.Resolves .instruction e.user
  /-- The targets of use edges. -/
  targets : ∀ {u e v}, c.useData u = .ok e → e.target = some v → c.Resolves .value v
  /-- The blocks that have a list of instructions. -/
  blockLists : ∀ {b}, c.layout.contents.lists.contains b = true → c.Resolves .block b.value
  /-- The functions that have a list of blocks. -/
  functionLists : ∀ {f}, c.layout.bodies.lists.contains f = true → c.Resolves .function f.value
  /-- The instructions in lists. -/
  instructions : ∀ {b}, ∀ i ∈ c.layout.instructions b, c.Resolves .instruction i.value
  /-- The blocks in lists. -/
  blocks : ∀ {f}, ∀ b ∈ c.layout.blocks f, c.Resolves .block b.value
  /-- The instructions that have a parent, and the parent. -/
  parentBlocks : ∀ {i b}, c.layout.parentBlock? i = some b →
    c.Resolves .instruction i.value ∧ c.Resolves .block b.value
  /-- The blocks that have a parent, and the parent. -/
  parentFunctions : ∀ {b f}, c.layout.parentFunction? b = some f →
    c.Resolves .block b.value ∧ c.Resolves .function f.value
  /-- The constants in the pool, and the types they are pooled under. -/
  pool : ∀ {ty k v}, c.pool.get? (ty, k) = some v → c.ResolvesType ty ∧ c.Resolves .constant v
  /-- The functions in the order of their creation. -/
  functions : ∀ f ∈ c.functions, c.Resolves .function f.value
  /-- The functions that are known by their names. -/
  names : ∀ {name f}, c.names.get? name = some f → c.Resolves .function f.value

/-! ## The parts of a context -/

/-- The types that a type contains resolve. -/
theorem contained_resolves (hs : c.Sound) {d : TypeData} (h : ∃ ty, c.types.data? ty = some d) :
    ∀ part ∈ d.contained, c.ResolvesType part := by
  obtain ⟨ty, hd⟩ := h
  exact fun part hpart => resolvesType_of_has hs ((hs.types.admits hd).has_contained part hpart)

/-- In every context that class-checked requests lead to, every stored handle resolves. -/
theorem ReachedBy.closed (hc : ClassChecked c) : c.Closed := by
  have hs := hc.sound
  have hi := hc.intact
  have resolves : ∀ {cls v}, c.graph.Has cls v → c.Resolves cls v := resolves_of_has hs
  have resolvesType : ∀ {ty}, c.types.Has ty → c.ResolvesType ty := resolvesType_of_has hs
  exact
    -- Each place where a handle is stored has its own part of the invariant.
    { contained := fun d hd => by
        obtain ⟨i, hi⟩ := Array.mem_iff_getElem?.1 hd
        exact contained_resolves hs ⟨⟨c.types.ctx, i⟩, by simpa [TypeTable.data?] using hi⟩
      known := fun h => by
        have hd := (hs.types.known.1 h).1
        exact ⟨resolvesType ⟨_, hd⟩, contained_resolves hs ⟨_, hd⟩⟩
      structNames := fun h => by
        obtain ⟨body, hd⟩ := hs.types.named h
        exact resolvesType ⟨_, hd⟩
      valueTypes := fun hv ty hty => resolvesType (hi.types.has (Graph.face?_of_value? hv) ty hty)
      arguments := fun {v d fnType args} hv hkind a ha => by
        have hface := Graph.face?_of_value? hv
        rw [hkind] at hface
        exact resolves (hi.arguments.has_argument hface ha)
      parents := fun {v d f index} hv hkind => by
        have hface := Graph.face?_of_value? hv
        rw [hkind] at hface
        obtain ⟨_, _, _, _, hf, -⟩ := hi.arguments.parent hface
        exact resolves ⟨_, hf, rfl⟩
      slots := fun {v d} hv u hu => by
        obtain ⟨i, hi⟩ := List.mem_iff_getElem?.1 hu
        obtain ⟨t, ht⟩ := hs.graph.owned (v := v) (i := i) (by simpa [Graph.slot?, hv] using hi)
        exact ⟨_, Graph.edge_eq_ok_iff.2 ht, rfl⟩
      -- The two ends of an edge: the user owns the slot, and the target is kept alive by its uses.
      users := fun he =>
        resolves (Graph.OnlyUsers.has_instruction hc.onlyUsers
          (hs.graph.owner (Graph.edge_eq_ok_iff.1 he)))
      targets := fun he ht => by
        obtain ⟨d, hd⟩ := hs.graph.alive (Graph.edge_eq_ok_iff.1 he) ht
        exact resolves (Graph.has_iff.2 ⟨d, hd, rfl⟩)
      blockLists := fun h => resolves (hi.layout.block.1 h)
      functionLists := fun h => resolves (hi.layout.function.1 h)
      -- The layout lists live handles, and its parents are the owners of its lists.
      instructions := fun i h => resolves (hi.layout.instruction_of_mem h)
      blocks := fun b h => resolves (hi.layout.block_of_mem h)
      parentBlocks := fun h => by
        have hmem := hi.layout.contents.owner.1 h
        exact ⟨resolves (hi.layout.instruction_of_mem hmem), resolves (hi.layout.has_block hmem)⟩
      parentFunctions := fun h => by
        have hmem := hi.layout.bodies.owner.1 h
        exact ⟨resolves (hi.layout.block_of_mem hmem), resolves (hi.layout.has_function hmem)⟩
      pool := fun h => by
        obtain ⟨name, hv⟩ := hi.pool.entry.1 h
        exact ⟨resolvesType (hi.types.has hv _ List.mem_cons_self), resolves ⟨_, hv, rfl⟩⟩
      functions := fun f hf => resolves (hi.functions.mem.1 hf)
      names := fun h => by
        obtain ⟨x, hx, hkind, -⟩ := hi.functions.entry.1 h
        exact resolves ⟨x, hx, hkind⟩ }

/-- A request leaves the number of the context as it is. -/
theorem id_of_chain (hs : c.Sound) (h : Relation.ReflTransGen Change c c') : c'.id = c.id :=
  calc
    c'.id = c'.types.ctx := (hs.of_chain h).typesCtx.symm
    _ = c.types.ctx := (growsTo_of_chain h).ctx
    _ = c.id := hs.typesCtx

end Context

/-! ## Worlds -/

namespace World

variable {w w' : World} {i : Nat} {c : Context}

/-- The handles of the request pass their checks. -/
def Accepts (w : World) (r : Request) : Prop := ∀ m ∈ r.mentions, w.handle m.1 m.2 = .ok ⟨m.2⟩

/-- The worlds that new contexts and requests lead to, if the handles of the requests pass their
checks. A handle may be one of another context than that of the request. -/
inductive Reachable : World → Prop
  | empty : Reachable .empty
  | newContext {w : World} (before : Reachable w) : Reachable w.newContext
  | answered {w w' : World} {index : Nat} {r : Request} {a : Option Answer} (before : Reachable w)
    (accepts : w.Accepts r) (run : request index r w = .ok a w') : Reachable w'
  | rejected {w w' : World} {index : Nat} {r : Request} {e : Error} (before : Reachable w)
    (accepts : w.Accepts r) (run : request index r w = .error (.rejected e) w') : Reachable w'

/-- The contexts are numbered in order, and class-checked requests led to them. -/
def Orderly (w : World) : Prop :=
  ∀ i c, w.contexts[i]? = some c → c.id = ⟨i + 1⟩ ∧ Context.ClassChecked c

/-- A context of the world is found by its number. -/
theorem Orderly.owner? (h : w.Orderly) (hc : w.contexts[i]? = some c) :
    w.owner? ⟨i + 1⟩ = some c := by
  obtain ⟨hi, rfl⟩ := Array.getElem?_eq_some_iff.1 hc
  refine Array.find?_eq_some_iff_getElem.2 ⟨by simp [(h i _ hc).1], i, hi, rfl, fun j hj => ?_⟩
  have hj' : w.contexts[j]? = some w.contexts[j] := Array.getElem?_eq_getElem (by omega)
  have hne : j ≠ i := by omega
  simp [(h j _ hj').1, hne]

/-- A handle that passed its check is of its class in the context that gets it. -/
theorem Orderly.classChecked (h : w.Orderly) (hc : w.contexts[i]? = some c) {r : Request}
    (accepts : w.Accepts r) : r.ClassChecked c := by
  obtain ⟨id, checked⟩ := h i c hc
  intro m hm b hb
  -- A value that is alive in the context has the context's number, so its class was checked there.
  obtain ⟨d, hd, -⟩ := (Context.isa_eq_ok_iff checked.sound).1 hb
  have hctx : m.2.ctx = ⟨i + 1⟩ := by
    rw [Graph.ctx_of_value? hd, checked.sound.graphCtx, id]
  have handle := accepts m hm
  simp only [World.handle, hctx, h.owner? hc, Graph.contains, hd, Option.isSome_some,
    if_true] at handle
  rw [(Context.narrow_eq_ok handle).2] at hb
  cases hb
  rfl

/-- A new context gets the next number. -/
theorem Orderly.newContext (h : w.Orderly) : w.newContext.Orderly := by
  intro i c hc
  rw [World.newContext, Array.getElem?_push] at hc
  split at hc
  · cases hc
    subst i
    exact ⟨rfl, .initial _⟩
  · exact h i c hc

/-- A context gives way to one that its number and a class-checked request led to. -/
theorem Orderly.replace (h : w.Orderly) {c' : Context} (id : c'.id = ⟨i + 1⟩)
    (checked : Context.ClassChecked c') : (⟨w.contexts.setIfInBounds i c'⟩ : World).Orderly := by
  intro j d hd
  rw [Array.getElem?_setIfInBounds] at hd
  split at hd
  · subst j
    split at hd
    · cases hd
      exact ⟨id, checked⟩
    · cases hd
  · exact h j d hd

/-- A world stays orderly when a request is answered. -/
theorem Orderly.answered (h : w.Orderly) {r : Request} {a : Option Answer} (accepts : w.Accepts r)
    (run : request i r w = .ok a w') : w'.Orderly := by
  unfold request at run
  split at run
  · cases run
    exact h
  · rename_i c hc
    obtain ⟨id, checked⟩ := h i c hc
    split at run
    · rename_i hrun
      cases run
      have chain := Request.run_steps checked.sound _ _ _ hrun
      exact h.replace ((Context.id_of_chain checked.sound chain).trans id)
        (.answered checked (h.classChecked hc accepts) hrun)
    · cases run

/-- A rejected request leaves all contexts as they were. -/
theorem Orderly.rejected (h : w.Orderly) {r : Request} {e : Error}
    (run : request i r w = .error (.rejected e) w') : w'.Orderly := by
  unfold request at run
  split at run
  · cases run
  · rename_i c hc
    obtain ⟨id, checked⟩ := h i c hc
    split at run
    · cases run
    · rename_i hrun
      cases run
      rw [Request.run_atomic checked.sound _ _ _ hrun]
      exact h.replace id checked

/-- A reachable world is orderly. -/
theorem Reachable.orderly (h : w.Reachable) : w.Orderly := by
  induction h with
  | empty =>
    intro i c hc
    simp [World.empty] at hc
  | newContext _ ih => exact ih.newContext
  | answered _ accepts run ih => exact ih.answered accepts run
  | rejected _ _ run ih => exact ih.rejected run

/-- In every world that is reached with handles that pass their checks, each context has its own
number, and every handle that it stores resolves in it. -/
theorem Reachable.isolated (h : w.Reachable) (hc : w.contexts[i]? = some c) :
    c.id = ⟨i + 1⟩ ∧ c.Closed := by
  obtain ⟨id, checked⟩ := h.orderly i c hc
  exact ⟨id, checked.closed⟩

/-- What can happen to a world. -/
inductive Event where
  /-- A context is created. -/
  | create
  /-- A request is made to the context at a position. -/
  | ask (index : Nat) (r : Request)

instance (w : World) (r : Request) : Decidable (w.Accepts r) :=
  inferInstanceAs (Decidable (∀ m ∈ r.mentions, w.handle m.1 m.2 = .ok ⟨m.2⟩))

/-- The world that events lead to, one after the other, if all handles pass their checks and nothing
is a fault; a request may be rejected. -/
def replay : List Event → World → Option World
  | [], w => some w
  | .create :: es, w => replay es w.newContext
  | .ask index r :: es, w =>
    if w.Accepts r then
      match request index r w with
      | .ok _ w => replay es w
      | .error (.rejected _) w => replay es w
      | .error (.fatal _) _ => none
    else none

/-- What a replay of events leads to is reachable. -/
theorem reachable_of_replay {es : List Event} (h : replay es w = some w') (hw : w.Reachable) :
    w'.Reachable := by
  -- On the events; the replay goes on after a rejection and stops at a request with unknown
  -- handles.
  induction es generalizing w with
  | nil =>
    cases h
    exact hw
  | cons e es ih =>
    cases e with
    | create => exact ih h hw.newContext
    | ask index r =>
      rw [replay] at h
      split at h
      · rename_i accepts
        split at h
        · rename_i run
          exact ih h (.answered hw accepts run)
        · rename_i run
          exact ih h (.rejected hw accepts run)
        · cases h
      · cases h

/-- What events lead to from the empty world, with something that can be seen of a context and
something that holds of it in all reachable worlds. -/
theorem exists_replay {es : List Event} {P Q : Context → Prop} [DecidablePred P]
    (h : (((replay es .empty).bind (·.contexts[i]?)).any fun c => decide (P c)) = true)
    (hQ : ∀ {w : World} {c}, w.Reachable → w.contexts[i]? = some c → Q c) :
    ∃ w c, replay es .empty = some w ∧ w.contexts[i]? = some c ∧ P c ∧ Q c := by
  obtain ⟨c, hc, hP⟩ := (Option.any_eq_true ..).1 h
  obtain ⟨w, hw, hc⟩ := Option.bind_eq_some_iff.1 hc
  exact ⟨w, c, hw, hc, of_decide_eq_true hP, hQ (reachable_of_replay hw .empty) hc⟩

/-- For instance, when a value of one context was offered as an operand in another. -/
theorem isolated_after_foreign_operand : ∃ w c,
    replay [.create, .create, .ask 0 (.undef ⟨⟨1⟩, 9⟩), .ask 1 (.undef ⟨⟨2⟩, 9⟩),
      .ask 1 (.ret {} (some ⟨⟨2⟩, 0⟩)), .ask 1 (.setOperand ⟨⟨2⟩, 1⟩ 0 (some ⟨⟨1⟩, 0⟩))]
      .empty = some w ∧ w.contexts[1]? = some c ∧
    c.operands ⟨⟨2⟩, 1⟩ = .ok [some ⟨⟨2⟩, 0⟩] ∧ c.id = ⟨2⟩ ∧ c.Closed :=
  exists_replay (by decide +kernel) fun hw hc => Reachable.isolated hw hc

end World

end SsaGraph
