import SsaGraph.Proofs.Graph.Order
import SsaGraph.Proofs.Mirror

/-!
# Uses are listed newest first

`Turn.attached` tells which operand slots a turn attaches, and in what order: a factory the operands
of its instruction, `addCase` and `addIncoming` the value and then the block, `setOperand` its slot,
and `replaceAllUses` the slots that the old value is used in, as they are listed. All others attach
nothing, whatever they detach or erase. `Course.uses_newest_first` says that at any time of any
history the uses of a value are the operand slots that hold it, the one attached last coming first.
-/

namespace SsaGraph

namespace Context

/-- The operand slots that a value is used in, as its uses are listed. -/
def useSlots (c : Context) (v : Value) : List (Value × Nat) :=
  match c.uses v with
  | .ok us => us.filterMap fun u => (c.graph.edge? u).map Edge.slot
  | .error _ => []

/-- The operand slots of a value that hold something, in order. -/
def filledSlots (c : Context) (v : Value) : List (Value × Nat) :=
  match c.operands v with
  | .ok operands => Graph.filledFrom v 0 operands
  | .error _ => []

/-- The number of operand slots of a value. -/
def numSlots (c : Context) (v : Value) : Nat := (c.graph.slotsOf v).length

end Context

/-- The operand slots that a turn attaches, one after the other. To replace the uses of a value by
the value itself attaches nothing; to set a slot to what it holds attaches it. -/
def Turn.attached (t : Turn) : List (Value × Nat) :=
  match t.request with
  | .setOperand user index target => target.toList.map fun _ => (user, index)
  | .addCase i _ _ =>
    [(i.value, t.before.numSlots i.value), (i.value, t.before.numSlots i.value + 1)]
  | .addIncoming i _ _ =>
    [(i.value, t.before.numSlots i.value), (i.value, t.before.numSlots i.value + 1)]
  | .replaceAllUses old new => if old = new then [] else t.before.useSlots old
  | r =>
    match t.answer with
    | .value v => if r.isFactory then t.after.filledSlots v else []
    | _ => []

namespace Context

variable {c c' : Context} {r : Request} {a : Answer} {log : List (Value × Nat)}

/-- A factory attaches the slots of its instruction that it has filled. -/
theorem attached_of_factory {v : Value} (hr : r.isFactory = true) :
    Turn.attached ⟨c, r, .value v, c'⟩ = c'.filledSlots v := by
  cases r with
  | setOperand | addCase | addIncoming | replaceAllUses => cases hr
  | _ => simp [Turn.attached, hr]

/-- A request that neither makes, attaches nor replaces anything attaches nothing. -/
theorem attached_of_quiet (hf : r.isFactory = false) (ha : r.isAttaching = false)
    (hr : r.isReplacing = false) : Turn.attached ⟨c, r, a, c'⟩ = [] := by
  cases r with
  | setOperand | addCase | addIncoming => cases ha
  | replaceAllUses => cases hr
  | _ => cases a <;> simp [Turn.attached, hf]

/-- Two new operands are attached one after the other. -/
theorem pushTwice_ordered {g g₁ g' : Graph} {user x y : Value} {a b : Unit} (ho : g.Ordered log)
    (hc : g.Coherent) (first : Graph.pushOperand user x g = .ok a g₁)
    (second : Graph.pushOperand user y g₁ = .ok b g') :
    g'.Ordered (log ++
      [(user, (g.slotsOf user).length), (user, (g.slotsOf user).length + 1)]) := by
  obtain ⟨hc₁, -⟩ := Graph.pushOperand_ok hc first
  have both := Graph.pushOperand_ordered (Graph.pushOperand_ordered ho hc first) hc₁ second
  rw [Graph.length_slotsOf_of_pushOperand hc first] at both
  simpa using both

/-- The slots that a new instruction has are those of the operands it was given. -/
theorem filledSlots_of_newUser (hs : c.Sound) {g : Graph} (hc : g.Coherent) {ty : Ty}
    {op : Operation} {name : Option String} {operands : List (Option Value)} {v : Value}
    (run : Graph.newUser ty op name operands g = .ok v c.graph) :
    c.filledSlots v = Graph.filledFrom v 0 operands := by
  obtain ⟨-, -, -, node⟩ := Graph.newUser_ok hc run
  obtain ⟨d, hd, heq⟩ := Graph.value?_of_node? ((node v).trans (if_pos rfl))
  have hoperands : operands = d.operands.map c.graph.target? := congrArg Node.operands heq
  rw [filledSlots, operands_eq_ok hs hd, ← hoperands]

/-- The slots that a value is used in, as the graph lists its uses. -/
theorem useSlots_of_uses (hs : c.Sound) {v : Value} {us : List Use}
    (h : c.graph.uses v = .ok us) :
    c.useSlots v = us.filterMap fun u => (c.graph.edge? u).map Edge.slot := by
  have hd : ∃ d, c.graph.value? v = some d := by
    simp only [Graph.uses, Question.bind_eq_ok_iff, Graph.value_eq_ok_iff] at h
    obtain ⟨d, hd, -⟩ := h
    exact ⟨d, hd⟩
  obtain ⟨d, hd⟩ := hd
  have huses : c.uses v = .ok us := by
    simp [uses, (valueData_eq_ok_iff hs).2 hd, h]
  rw [useSlots, huses]

/-- A turn keeps the use lists in the order of the log, to which it adds what it attaches. -/
theorem ordered_turn (hs : c.Sound) (ho : c.graph.Ordered log) (run : r.run c = .ok a c') :
    c'.graph.Ordered (log ++ Turn.attached ⟨c, r, a, c'⟩) := by
  have hs' : c'.Sound := hs.of_chain (Request.run_steps hs r a c' run)
  have effect := Request.run_effect hs run
  generalize hg : c'.graph = g' at effect
  -- By the effect of the request on the edges: a new user, single slots, a replacement, or none.
  cases effect with
  | @factory _ g₁ _ _ _ _ _ _ factory supply built =>
    subst hg
    have quiets := Graph.quiets_of_creates supply
    have hc₁ : g₁.Coherent := hs.graph.quiets quiets
    rw [attached_of_factory factory, filledSlots_of_newUser hs' hc₁ built]
    exact Graph.newUser_ordered (ho.quiets hs.graph quiets) hc₁ built
  | setOperand set => exact Graph.setOperand_ordered ho hs.graph set
  | addCase first second => exact pushTwice_ordered ho hs.graph first second
  | addIncoming first second => exact pushTwice_ordered ho hs.graph first second
  | @replaceAllUses old new _ _ replaced =>
    by_cases heq : old = new
    · subst heq
      have same : g' = c.graph := by
        simp only [Graph.replaceAllUses] at replaced
        cases replaced
        rfl
      simp [Turn.attached, same, ho]
    · obtain ⟨us, huses, ordered⟩ := Graph.replaceAllUses_ordered ho hs.graph heq replaced
      simp only [Turn.attached, if_neg heq, useSlots_of_uses hs huses]
      exact ordered
  | quiet hf ha hr chain =>
    rw [attached_of_quiet hf ha hr, List.append_nil]
    exact ho.quiets hs.graph chain

/-- After any course the use lists are ordered by the log of attachments. -/
theorem Course.ordered {id : ContextId} {ts : List Turn}
    (course : Course (fun _ _ => True) (.initial id) ts c) :
    c.graph.Ordered (ts.flatMap Turn.attached) := by
  refine course.invariant (P := fun ts c => c.graph.Ordered (ts.flatMap Turn.attached)) (.initial id)
    (Graph.ordered_initial id) fun {ts c₁ c₂ r a} _ reached ordered _ run => ?_
  rw [List.flatMap_append, List.flatMap_singleton]
  exact ordered_turn reached.sound ordered run

/-- The uses of a value are those of the listed operand slots, and these are the slots that hold the
value, in strictly decreasing order of the last time that each was attached. -/
structure NewestFirst (c : Context) (log : List (Value × Nat)) (v : Value) (us : List Use)
    (slots : List (Value × Nat)) : Prop where
  /-- The uses are those of the value. -/
  uses : c.uses v = .ok us
  /-- The uses are, one by one, those of the slots. -/
  data : us.mapM c.useData = .ok (slots.map fun slot => ⟨slot.1, slot.2, some v⟩)
  /-- The slots are those that hold the value. -/
  mem : ∀ user i, (user, i) ∈ slots ↔ c.operandAt user i = .ok (some v)
  /-- Each slot has been attached. -/
  attached : ∀ slot ∈ slots, ∃ time, LastAt log slot time
  /-- The slot that was attached last at a later time comes first. -/
  decreasing : slots.Pairwise (AttachedAfter log)

/-- At any time of any history, the uses of a live value are listed newest first. -/
theorem Course.uses_newest_first {id : ContextId} {ts : List Turn} {v : Value}
    (course : Course (fun _ _ => True) (.initial id) ts c) (hv : v ∈ c.graph.live) :
    ∃ us slots, c.NewestFirst (ts.flatMap Turn.attached) v us slots := by
  have hs : c.Sound := (course.reachedBy (.initial id)).sound
  have ordered := course.ordered
  obtain ⟨d, hd⟩ := Graph.mem_live.1 hv
  obtain ⟨us, hus⟩ := hs.graph.lists hd
  have huses : c.uses v = .ok us := by
    simp [Context.uses, (valueData_eq_ok_iff hs).2 hd, hus.uses_eq hd]
  -- Each use in the list has an edge that points to the value; its slot is the one it is listed for.
  let slotOf (u : Use) : Value × Nat := ((c.graph.edge? u).map Edge.slot).getD (v, 0)
  have edge : ∀ u ∈ us, c.graph.edge? u = some ⟨(slotOf u).1, (slotOf u).2, some v⟩ := by
    intro u hu
    obtain ⟨⟨user, i, t⟩, he, rfl⟩ := hus.mem.1 hu
    simp [slotOf, he, Edge.slot]
  -- In turn: the slots of the uses, which operands they are, and their order in the log.
  refine ⟨us, us.map slotOf, huses, ?_, fun user i => ?_, ?_, ?_⟩
  · rw [List.map_map]
    exact Question.mapM_eq_ok fun u hu => Graph.edge_eq_ok_iff.2 (edge u hu)
  · rw [operandAt_eq_ok_iff hs, List.mem_map]
    constructor
    · rintro ⟨u, hu, heq⟩
      have he := edge u hu
      rw [heq] at he
      exact ⟨u, hs.graph.owner he, he⟩
    · rintro ⟨u, -, he⟩
      exact ⟨u, hus.mem.2 ⟨_, he, rfl⟩, by simp [slotOf, he, Edge.slot]⟩
  · intro slot hslot
    obtain ⟨u, hu, rfl⟩ := List.mem_map.1 hslot
    exact ordered.attached (edge u hu) rfl
  · rw [List.pairwise_map]
    exact (ordered.newest hd hus).imp_of_mem fun hx hy after => after _ _ (edge _ hx) (edge _ hy)

/-- For instance, after the first operand of an addition was set to what it was, its value replaced
by another, and a `ret` of that value erased. -/
theorem uses_newest_first_after_replaceAllUses : ∃ ts c,
    record [.constInt ⟨⟨1⟩, 9⟩ 5, .constInt ⟨⟨1⟩, 9⟩ 7, .binary {} .add ⟨⟨1⟩, 0⟩ ⟨⟨1⟩, 0⟩,
      .ret {} (some ⟨⟨1⟩, 0⟩), .setOperand ⟨⟨1⟩, 2⟩ 0 (some ⟨⟨1⟩, 0⟩),
      .replaceAllUses ⟨⟨1⟩, 0⟩ ⟨⟨1⟩, 1⟩, .eraseInstruction ⟨⟨⟨1⟩, 3⟩⟩] (.initial ⟨1⟩) =
        some (ts, c) ∧
    (⟨⟨1⟩, 1⟩ ∈ c.graph.live ∧ c.uses ⟨⟨1⟩, 1⟩ = .ok [⟨1, 0⟩, ⟨0, 0⟩] ∧
      [⟨1, 0⟩, ⟨0, 0⟩].mapM c.useData =
        .ok [⟨⟨⟨1⟩, 2⟩, 1, some ⟨⟨1⟩, 1⟩⟩, ⟨⟨⟨1⟩, 2⟩, 0, some ⟨⟨1⟩, 1⟩⟩]) ∧
    c.NewestFirst (ts.flatMap Turn.attached) ⟨⟨1⟩, 1⟩ [⟨1, 0⟩, ⟨0, 0⟩]
      [(⟨⟨1⟩, 2⟩, 1), (⟨⟨1⟩, 2⟩, 0)] := by
  refine exists_record _ _ (by decide +kernel) fun ts c course seen => ?_
  obtain ⟨alive, uses, data⟩ := seen
  obtain ⟨us, slots, newest⟩ :=
    Course.uses_newest_first (course.mono fun _ _ _ => trivial) alive
  obtain rfl : us = _ := Except.ok.inj (newest.uses.symm.trans uses)
  have heq := Except.ok.inj (newest.data.symm.trans data)
  obtain rfl : slots = [(⟨⟨1⟩, 2⟩, 1), (⟨⟨1⟩, 2⟩, 0)] := by
    refine List.map_injective_iff.2 (fun x y h => ?_) heq
    simpa [Prod.ext_iff] using h
  exact newest

end Context

end SsaGraph
