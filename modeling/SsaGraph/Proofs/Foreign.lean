import SsaGraph.Proofs.Integrity
import SsaGraph.Proofs.Refusal

/-!
# Worlds keep handles apart

What happens when a handle of one context is passed to another, in every world that can be reached
with handles that pass their checks. `Guarded` says it of one of the contexts: a request with a
foreign handle is rejected, and neither that context nor any other changes, as long as all its
handles are those of live values, each of its class, and of types. There is one exception. A case is
added to a `switch`, and an incoming edge to a `phi`, without a check of the instruction, so that
the run ends if the instruction is the only foreign handle; `addIncoming_ends_the_run` is an
instance.

Contexts are numbered differently (`Orderly`). So a handle that carries the number of a context is
live there if it is live anywhere.
-/

namespace SsaGraph

/-- At least one handle of the request carries another number. -/
def Request.Foreign (id : ContextId) (r : Request) : Prop :=
  (∃ m ∈ r.mentions, m.2.ctx ≠ id) ∨ ∃ ty ∈ r.types, ty.ctx ≠ id

namespace World

variable {w : World} {i : Nat} {c : Context}

/-- Each handle of the request is that of a live value of its class, or of a type, in one of the
contexts. -/
structure Live (w : World) (r : Request) : Prop where
  /-- The values are alive and of their classes. -/
  values : ∀ m ∈ r.mentions, ∃ b ∈ w.contexts, b.isa m.1 m.2 = .ok true
  /-- The types are there. -/
  types : ∀ ty ∈ r.types, ∃ b ∈ w.contexts, ∃ d, b.types.data ty = .ok d

/-! ## Numbers -/

/-- Contexts with the same number are the same. -/
theorem Orderly.eq_of_id_eq (h : w.Orderly) {b : Context} (hb : b ∈ w.contexts)
    (hc : w.contexts[i]? = some c) (id : b.id = c.id) : b = c := by
  obtain ⟨j, hj⟩ := Array.mem_iff_getElem?.1 hb
  rw [(h j b hj).1, (h i c hc).1, ContextId.mk.injEq] at id
  have hij : j = i := by omega
  rw [hij, hc] at hj
  exact (Option.some.inj hj).symm

/-- The contexts of a world are numbered in the order of their creation. -/
theorem Orderly.exists_context (h : w.Orderly) (hi : i < w.contexts.size) :
    ∃ c, w.contexts[i]? = some c ∧ c.id = ⟨i + 1⟩ := by
  have hc : w.contexts[i]? = some w.contexts[i] := Array.getElem?_eq_getElem hi
  exact ⟨_, hc, (h i _ hc).1⟩

/-- The contexts of a world are sound. -/
theorem Orderly.sound (h : w.Orderly) {b : Context} (hb : b ∈ w.contexts) : b.Sound := by
  obtain ⟨j, hj⟩ := Array.mem_iff_getElem?.1 hb
  exact (h j b hj).2.sound

/-- A value that is alive somewhere is alive in the context whose number it carries. -/
theorem Orderly.knows (h : w.Orderly) (hc : w.contexts[i]? = some c) {cls : Class} {v : Value}
    (live : ∃ b ∈ w.contexts, b.isa cls v = .ok true) : c.Knows cls v := by
  obtain ⟨b, hb, isa⟩ := live
  have has := (Context.isa_eq_true_iff (h.sound hb)).1 isa
  obtain ⟨d, hd⟩ := has.value?
  intro own
  have id : b.id = c.id :=
    calc b.id = b.graph.ctx := (h.sound hb).graphCtx.symm
      _ = v.ctx := (Graph.ctx_of_value? hd).symm
      _ = c.graph.ctx := own
      _ = c.id := (h i c hc).2.sound.graphCtx
  rw [h.eq_of_id_eq hb hc id] at has
  exact has

/-- A context knows the types that live in any context of the world. -/
theorem Orderly.knowsType (h : w.Orderly) (hc : w.contexts[i]? = some c) {ty : Ty}
    (live : ∃ b ∈ w.contexts, ∃ d, b.types.data ty = .ok d) : c.types.Knows ty := by
  obtain ⟨b, hb, d, hd⟩ := live
  rw [TypeTable.data_eq_ok_iff] at hd
  intro own
  have id : b.id = c.id :=
    calc b.id = b.types.ctx := (h.sound hb).typesCtx.symm
      _ = ty.ctx := (TypeTable.ctx_of_data? hd).symm
      _ = c.types.ctx := own
      _ = c.id := (h i c hc).2.sound.typesCtx
  rw [h.eq_of_id_eq hb hc id] at hd
  exact ⟨d, hd⟩

/-! ## Requests -/

/-- A request that fails and leaves its context as it was leaves the world as it was. -/
theorem request_eq_error {r : Request} {e : Failure} (hc : w.contexts[i]? = some c)
    (run : r.run c = .error e c) : request i r w = .error e w := by
  have same : w.contexts.setIfInBounds i c = w.contexts := by
    refine Array.ext_getElem? fun j => ?_
    rw [Array.getElem?_setIfInBounds]
    split
    · rename_i hij
      subst hij
      obtain ⟨hi, -⟩ := Array.getElem?_eq_some_iff.1 hc
      rw [if_pos hi, hc]
    · rfl
  simp only [request, hc, run, same]

/-- A request that adds own operands to a foreign instruction ends the run. -/
theorem Orderly.request_misdirected (h : w.Orderly) (hc : w.contexts[i]? = some c) {r : Request}
    {v : Value} (live : w.Live r) (misdirected : r.Misdirected c.id v) :
    request i r w = .error (.fatal (.foreignValue v)) w := by
  have hs : c.Sound := (h i c hc).2.sound
  rw [← hs.graphCtx] at misdirected
  exact request_eq_error hc
    (Request.run_misdirected hs (fun m hm => h.knows hc (live.values m hm)) misdirected)

/-- What a context of a world makes of the handles of others. -/
structure Guarded (w : World) (i : Nat) (c : Context) : Prop where
  /-- A request with a foreign handle is rejected, and all contexts are left as they were. -/
  rejected : ∀ {r : Request}, r.isFallible = true → w.Live r → r.Foreign c.id →
    (∀ v, ¬ r.Misdirected c.id v) → ∃ e, request i r w = .error (.rejected e) w
  /-- So is the check of a foreign value, -/
  check : ∀ {v : Value}, v.ctx ≠ c.id → c.check v = .error (.rejected (.foreignValue v))
  /-- the question for one of its operands, -/
  operand : ∀ {v : Value} {index : Nat}, v.ctx ≠ c.id →
    c.operand v index = .error (.rejected (.foreignValue v))
  /-- the check of a foreign type, -/
  checkType : ∀ {ty : Ty}, ty.ctx ≠ c.id →
    c.types.check ty = .error (.rejected (.foreignType ty.index))
  /-- the question for a part of it, -/
  typeAtIndex : ∀ {ty : Ty} {index : Nat}, ty.ctx ≠ c.id →
    c.types.typeAtIndex ty index = .error (.rejected (.foreignType ty.index))
  /-- and its comparison with another type. -/
  layoutIdentical : ∀ {a b : Ty}, a.ctx ≠ c.id ∨ b.ctx ≠ c.id →
    ∃ e, c.types.isLayoutIdentical a b = .error (.rejected e)
  /-- A request that adds own operands to a foreign instruction ends the run. -/
  fatal : ∀ {r : Request} {v : Value}, w.Live r → r.Misdirected c.id v →
    request i r w = .error (.fatal (.foreignValue v)) w

/-- In every world that is reached with handles that pass their checks, each context is guarded. -/
theorem Reachable.guarded (h : w.Reachable) (hc : w.contexts[i]? = some c) : w.Guarded i c := by
  have hs : c.Sound := (h.orderly i c hc).2.sound
  have hi : c.Intact := (h.orderly i c hc).2.intact
  -- Every context guards its queries by these two checks.
  have check : ∀ {v : Value}, v.ctx ≠ c.id → c.check v = .error (.rejected (.foreignValue v)) := by
    intro v foreign
    rw [← hs.graphCtx] at foreign
    exact if_pos foreign
  have checkType : ∀ {ty : Ty}, ty.ctx ≠ c.id →
      c.types.check ty = .error (.rejected (.foreignType ty.index)) := by
    intro ty foreign
    rw [← hs.typesCtx] at foreign
    exact if_neg foreign
  constructor
  case check => exact check
  case checkType => exact checkType
  case rejected =>
    intro r fallible live foreign directed
    rw [← hs.graphCtx] at directed
    have foreign : ¬ ((∀ m ∈ r.mentions, m.2.ctx = c.graph.ctx) ∧
        ∀ ty ∈ r.types, ty.ctx = c.types.ctx) := by
      rintro ⟨values, types⟩
      rcases foreign with ⟨m, hm, hne⟩ | ⟨ty, hty, hne⟩
      · exact hne ((values m hm).trans hs.graphCtx)
      · exact hne ((types ty hty).trans hs.typesCtx)
    -- A request with a foreign handle is refused, and a refusal leaves the context as it was.
    obtain ⟨e, c', run⟩ := Request.run_refuses hs hi
      (fun m hm => h.orderly.knows hc (live.values m hm))
      (fun ty hty => h.orderly.knowsType hc (live.types ty hty)) foreign fallible directed
    have same : c' = c := Request.run_atomic hs r e c' run
    rw [same] at run
    exact ⟨e, request_eq_error hc run⟩
  case fatal => exact h.orderly.request_misdirected hc
  -- The queries that can fail make the check before they read anything.
  case operand =>
    intro v index foreign
    rw [Context.operand, check foreign]
    rfl
  case typeAtIndex =>
    intro ty index foreign
    rw [TypeTable.typeAtIndex, checkType foreign]
    rfl
  case layoutIdentical =>
    intro a b foreign
    -- The first handle is checked first; if it passes, the foreign one is the second.
    by_cases own : a.ctx = c.types.ctx
    · have foreign : b.ctx ≠ c.id := by
        rw [own, hs.typesCtx] at foreign
        exact foreign.resolve_left fun hne => hne rfl
      have passes : c.types.check a = .ok () := TypeTable.check_eq_ok_iff.2 own
      refine ⟨.foreignType b.index, ?_⟩
      rw [TypeTable.isLayoutIdentical, passes, checkType foreign]
      rfl
    · rw [hs.typesCtx] at own
      refine ⟨.foreignType a.index, ?_⟩
      rw [TypeTable.isLayoutIdentical, checkType own]
      rfl

/-- What events lead to from the empty world, with something that can be seen of it and something
that then holds of all reachable worlds. -/
theorem exists_reached {es : List Event} {P Q : World → Prop} [DecidablePred P]
    (h : ((replay es .empty).any fun w => decide (P w)) = true)
    (hQ : ∀ {w : World}, w.Reachable → P w → Q w) : ∃ w, replay es .empty = some w ∧ P w ∧ Q w := by
  obtain ⟨w, hw, hP⟩ := (Option.any_eq_true ..).1 h
  have hP : P w := of_decide_eq_true hP
  exact ⟨w, hw, hP, hQ (reachable_of_replay hw .empty) hP⟩

/-- For instance, a `ret` of an own value that is to be put at the end of a foreign block. -/
theorem rejected_at_foreign_block : ∃ w,
    replay [.create, .create, .ask 0 (.undef ⟨⟨1⟩, 9⟩), .ask 1 (.newBlock none)] .empty = some w ∧
    (w.contexts.size = 2 ∧
      ∀ m ∈ (Request.ret { point := .atEnd ⟨⟨⟨2⟩, 0⟩⟩ } (some ⟨⟨1⟩, 0⟩)).mentions,
        ∃ b ∈ w.contexts, b.isa m.1 m.2 = .ok true) ∧
    ∃ e, request 0 (.ret { point := .atEnd ⟨⟨⟨2⟩, 0⟩⟩ } (some ⟨⟨1⟩, 0⟩)) w =
      .error (.rejected e) w := by
  refine exists_reached (by decide +kernel) fun {w} reached live => ?_
  obtain ⟨c, hc, id⟩ := reached.orderly.exists_context (i := 0) (by omega)
  refine (Reachable.guarded reached hc).rejected rfl ⟨live.2, nofun⟩ (.inl ?_) nofun
  refine ⟨(.block, ⟨⟨2⟩, 0⟩), .head _, ?_⟩
  rw [id]
  decide

/-- Nothing is rejected when an incoming edge of own handles is added to a foreign `phi`: the run
ends. -/
theorem addIncoming_ends_the_run : ∃ w,
    replay [.create, .create, .ask 1 (.phi {} ⟨⟨2⟩, 9⟩), .ask 0 (.undef ⟨⟨1⟩, 9⟩),
      .ask 0 (.newBlock none)] .empty = some w ∧
    (w.contexts.size = 2 ∧
      ∀ m ∈ (Request.addIncoming ⟨⟨⟨2⟩, 0⟩⟩ ⟨⟨1⟩, 0⟩ ⟨⟨⟨1⟩, 1⟩⟩).mentions,
        ∃ b ∈ w.contexts, b.isa m.1 m.2 = .ok true) ∧
    ¬ ∃ e w', request 0 (.addIncoming ⟨⟨⟨2⟩, 0⟩⟩ ⟨⟨1⟩, 0⟩ ⟨⟨⟨1⟩, 1⟩⟩) w =
      .error (.rejected e) w' := by
  refine exists_reached (by decide +kernel) fun {w} reached live => ?_
  obtain ⟨c, hc, id⟩ := reached.orderly.exists_context (i := 0) (by omega)
  have ends := reached.orderly.request_misdirected hc ⟨live.2, nofun⟩
    (.addIncoming (by rw [id]; decide) (by rw [id]) (by rw [id]))
  rintro ⟨e, w', rejected⟩
  rw [ends] at rejected
  cases rejected

end World

end SsaGraph
