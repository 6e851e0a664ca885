import SsaGraph.Proofs.Erasure
import SsaGraph.Proofs.Graph.Redirect

/-!
# Pointing operands elsewhere

What the requests do that only point operand slots elsewhere: `setOperand`, `dropAllUses`,
`dropAllReferences` and `replaceAllUses`. Each of them says where every slot points to afterwards,
and what the use list of every value is. All else is as it was (`Redirects`): the values with their
types, names and operand slots, the use handles with their users, and the other parts of the
context.

A value may be replaced by one that uses it, and an instruction may be emptied that uses itself. In
the latter case its own use list is one of those that lose uses.
-/

namespace SsaGraph

namespace Graph

variable {g g' : Graph} {aim : Use → Edge → Option Value} {relist : Value → List Use → List Use}

/-- The edge of a use is the one in the arena, and a missing one is an error. -/
theorem edge_eq (g : Graph) (u : Use) :
    g.edge u = match g.edge? u with
      | some e => .ok e
      | none => .error (.missingUse u) := by
  unfold edge linked edge?
  cases g.linked? u <;> rfl

/-- Redirecting uses leaves the same values alive. -/
theorem Redirects.contains_eq (h : g.Redirects g' aim relist) (v : Value) :
    g'.contains v = g.contains v := by
  have := congrArg Option.isSome (h.bare v)
  simpa [bare?, contains] using this

/-- Redirecting uses leaves the list of live values. -/
theorem Redirects.live_eq (h : g.Redirects g' aim relist) : g'.live = g.live := by
  rw [live, live, h.size, h.ctx]
  exact List.filter_congr fun v _ => h.contains_eq v

/-- Redirecting uses leaves the number of values. -/
theorem Redirects.numValues_eq (h : g.Redirects g' aim relist) : g'.numValues = g.numValues := by
  have same : g'.values.map Option.isSome = g.values.map Option.isSome := by
    refine Array.ext (by simpa using h.size) fun i hi hi' => ?_
    rw [Array.size_map] at hi hi'
    have := h.contains_eq ⟨g.ctx, i⟩
    simpa [contains, value?, h.ctx, hi, hi'] using this
  calc g'.values.countP Option.isSome = (g'.values.map Option.isSome).countP id := by
        rw [Array.countP_map]; rfl
    _ = (g.values.map Option.isSome).countP id := by rw [same]
    _ = g.values.countP Option.isSome := by rw [Array.countP_map]; rfl

/-- Redirecting uses leaves the number of edges. -/
theorem Redirects.numEdges_eq (h : g.Redirects g' aim relist) : g'.numEdges = g.numEdges := by
  rw [numEdges, numEdges, h.size_slots, h.free]

end Graph

namespace Context

variable {c c' : Context} {v : Value} {d : ValueData} {us : List Use}

/-- From `c` to `c'` operand slots have come to point to where `aim` says. The use lists follow, and
nothing else has changed. -/
structure Redirects (c c' : Context) (aim : Edge → Option Value) : Prop where
  /-- The types, the layout, the constants and the functions are the same. -/
  rest : c' = { c with graph := c'.graph }
  /-- The same values are alive. -/
  live : c'.graph.live = c.graph.live
  /-- There are as many values. -/
  numValues : c'.graph.numValues = c.graph.numValues
  /-- There are as many edges. -/
  numEdges : c'.graph.numEdges = c.graph.numEdges
  /-- The values keep their types. -/
  type : ∀ v, c'.typeOf v = c.typeOf v
  /-- The values keep their names. -/
  name : ∀ v, c'.nameOf v = c.nameOf v
  /-- The values are what they were. -/
  kind : ∀ v, c'.kindOf v = c.kindOf v
  /-- The values keep their operand slots. -/
  operandSlots : ∀ v, c'.operandSlots v = c.operandSlots v
  /-- The use handles keep their users and operand numbers, and those that are stale remain so. -/
  useData : ∀ u, c'.useData u = (fun e => { e with target := aim e }) <$> c.useData u
  /-- Each value counts its uses. -/
  numUses : ∀ {v us}, c'.uses v = .ok us → c'.numUses v = .ok us.length

section

variable {g' : Graph} {aim : Use → Edge → Option Value} {relist : Value → List Use → List Use}
  {goal : Edge → Option Value}

/-- The use list of a live value, before and after. -/
theorem uses_of_redirects (hs : c.Sound) (hs' : c'.Sound)
    (h : c.graph.Redirects c'.graph aim relist) (hd : c.graph.value? v = some d)
    (hus : c.graph.Lists v d us) : c.uses v = .ok us ∧ c'.uses v = .ok (relist v us) := by
  obtain ⟨d', hd', hus'⟩ := h.lists hd hus
  constructor
  · simp [uses, (valueData_eq_ok_iff hs).2 hd, hus.uses_eq hd]
  · simp [uses, (valueData_eq_ok_iff hs').2 hd', hus'.uses_eq hd']

/-- Every live value has a use list, before and after. -/
theorem exists_uses_of_redirects (hs : c.Sound) (hs' : c'.Sound)
    (h : c.graph.Redirects c'.graph aim relist) (hv : v ∈ c.graph.live) :
    ∃ d us, c.graph.Lists v d us ∧ c.uses v = .ok us ∧ c'.uses v = .ok (relist v us) := by
  obtain ⟨d, hd⟩ := Graph.mem_live.1 hv
  obtain ⟨us, hus⟩ := hs.graph.lists hd
  exact ⟨d, us, hus, uses_of_redirects hs hs' h hd hus⟩

/-- Redirecting uses keeps the data of each value, apart from its use list. -/
theorem valueData_of_redirects (h : c.graph.Redirects g' aim relist) (v : Value) :
    (·.bare) <$> valueData { c with graph := g' } v = (·.bare) <$> c.valueData v := by
  -- A foreign handle is missed in both contexts, so only the arenas are to be compared.
  unfold valueData
  split
  · rfl
  · have bare := h.bare v
    unfold Graph.bare? at bare
    unfold Graph.value
    cases hd : c.graph.value? v with
    | none =>
      rw [hd] at bare
      rw [Option.map_eq_none_iff.1 bare]
    | some d =>
      rw [hd] at bare
      obtain ⟨d', hd', heq⟩ := Option.map_eq_some_iff.1 bare
      rw [hd']
      exact congrArg Except.ok heq

/-- What a redirection of the graph is for the context. -/
theorem redirects_of_graph (hs' : Sound { c with graph := g' })
    (h : c.graph.Redirects g' aim relist)
    (same : ∀ {x e}, c.graph.edge? x = some e → aim x e = goal e) :
    c.Redirects { c with graph := g' } goal := by
  -- Type, name, kind and operand slots are part of the data that is kept.
  have data : ∀ {α : Type} (f : ValueData → α) (v : Value), (∀ d, f d.bare = f d) →
      f <$> valueData { c with graph := g' } v = f <$> c.valueData v := by
    intro α f v hf
    have := congrArg (f <$> ·) (valueData_of_redirects h v)
    simpa [Functor.map_map, hf] using this
  refine ⟨rfl, h.live_eq, h.numValues_eq, h.numEdges_eq, fun v => data (·.ty) v fun _ => rfl,
    fun v => data (·.name) v fun _ => rfl, fun v => data (·.kind) v fun _ => rfl,
    fun v => data (·.operands) v fun _ => rfl, fun u => ?_, fun {v us} hu => ?_⟩
  · rw [useData, useData, Graph.edge_eq, Graph.edge_eq, h.edge]
    cases hu : c.graph.edge? u with
    | none => rfl
    | some e =>
      rw [Option.map_some, same hu]
      rfl
  · simp only [uses, Question.bind_eq_ok_iff] at hu
    obtain ⟨d, hd, hu⟩ := hu
    have hd' := (valueData_eq_ok_iff hs').1 hd
    obtain ⟨us', hus'⟩ := hs'.graph.lists hd'
    obtain rfl : us' = us := Except.ok.inj ((hus'.uses_eq hd').symm.trans hu)
    simp [numUses, hd, hus'.count]

/-- The operands of a live value, before and after. -/
theorem Redirects.operands (h : c.Redirects c' goal) (hs : c.Sound) (hv : v ∈ c.graph.live) :
    ∃ ops, c.operands v = .ok ops ∧
      c'.operands v = .ok (ops.mapIdx fun i target => goal ⟨v, i, target⟩) := by
  obtain ⟨d, hd⟩ := Graph.mem_live.1 hv
  have slots : c.operandSlots v = .ok d.operands := by
    simp [Context.operandSlots, (valueData_eq_ok_iff hs).2 hd]
  have edge : ∀ {i x}, d.operands[i]? = some x → ∃ t, c.graph.edge? x = some ⟨v, i, t⟩ :=
    fun {i x} hx => hs.graph.owned (by simpa [Graph.slot?, hd] using hx)
  refine ⟨_, operands_eq_ok hs hd, ?_⟩
  -- The slots of the user stay, and each of them has its edge before and after.
  have after : c'.operands v = .ok (d.operands.map fun x => (c.graph.edge? x).bind goal) := by
    simp only [Context.operands, h.operandSlots, slots, Question.bind_eq_ok_iff]
    refine ⟨_, rfl, Question.mapM_eq_ok fun x hx => ?_⟩
    obtain ⟨i, hi⟩ := List.mem_iff_getElem?.1 hx
    obtain ⟨t, ht⟩ := edge hi
    rw [h.useData, Context.useData, Graph.edge_eq_ok_iff.2 ht, ht]
    rfl
  rw [after]
  congr 1
  -- The two lists agree at each position, the number of the slot included.
  refine List.ext_getElem? fun i => ?_
  rw [List.getElem?_mapIdx, List.getElem?_map, List.getElem?_map]
  cases hx : d.operands[i]? with
  | none => rfl
  | some x =>
    obtain ⟨t, ht⟩ := edge hx
    simp [Graph.target?, ht]

end

end Context

namespace Request

open Context

variable {c : Context} {g' : Graph}

/-- A silent request on the graph changes nothing but the graph. -/
theorem silent_onGraph {m : Run Graph Unit} (h : m c.graph = .ok () g') :
    silent (onGraph m) c = .ok .unit { c with graph := g' } := by
  rw [silent, Run.bind_eq_ok_iff]
  exact ⟨(), _, Run.on_eq_ok_iff.2 ⟨g', h, rfl⟩, rfl⟩

/-! When the values are alive, the requests are what the graph makes of them. -/

/-- For live values the request is the operation on the graph. -/
theorem run_replaceAllUses {old new : Value} (ho : old ∈ c.graph.live) (hn : new ∈ c.graph.live) :
    (Request.replaceAllUses old new).run c = silent (onGraph (Graph.replaceAllUses old new)) c := by
  simp only [Request.run, silent, Context.replaceAllUses, Run.bind_apply, Run.get_apply,
    Run.question_apply, check_of_live ho, check_of_live hn]

/-- For a live value the request is the operation on the graph. -/
theorem run_dropAllUses {w : Value} (hw : w ∈ c.graph.live) :
    (Request.dropAllUses w).run c = silent (onGraph (Graph.dropAllUses w)) c := by
  simp only [Request.run, silent, Context.dropAllUses, Run.bind_apply, Run.get_apply,
    Run.question_apply, check_of_live hw]

/-- For a live user the request is the operation on the graph. -/
theorem run_dropAllReferences {u : Value} (hu : u ∈ c.graph.live) :
    (Request.dropAllReferences u).run c = silent (onGraph (Graph.dropAllReferences u)) c := by
  simp only [Request.run, silent, Context.dropAllReferences, Run.bind_apply, Run.get_apply,
    Run.question_apply, check_of_live hu]

/-- For a live user and target the request is the operation on the graph. -/
theorem run_setOperand {u : Value} {i : Nat} {target : Option Value} (hu : u ∈ c.graph.live)
    (ht : ∀ v ∈ target, v ∈ c.graph.live) :
    (Request.setOperand u i target).run c =
      silent (onGraph (Graph.setOperand u i target)) c := by
  have targets : c.checkAll target.toList = .ok () := by
    apply Question.forM_eq_ok_iff.2
    intro v hv
    exact check_of_live (ht v (by simpa using hv))
  simp only [Request.run, silent, Context.setOperand, Run.bind_apply, Run.get_apply,
    Run.question_apply, check_of_live hu, targets]

end Request

namespace Context

variable {c : Context}

/-- If where a slot points to only depends on where it pointed to, so do the operands. -/
theorem Redirects.operands_map {c' : Context} {f : Option Value → Option Value}
    (h : c.Redirects c' fun e => f e.target) (hs : c.Sound) {v : Value} (hv : v ∈ c.graph.live) :
    ∃ ops, c.operands v = .ok ops ∧ c'.operands v = .ok (ops.map f) := by
  obtain ⟨ops, before, after⟩ := h.operands hs hv
  refine ⟨ops, before, after.trans ?_⟩
  congr 1
  exact List.ext_getElem? fun i => by simp

/-- If the slots of a value point to where they pointed, it keeps its operands. -/
theorem Redirects.operands_eq {c' : Context} {goal : Edge → Option Value} (h : c.Redirects c' goal)
    (hs : c.Sound) {v : Value} (hv : v ∈ c.graph.live) (same : ∀ i target, goal ⟨v, i, target⟩ = target) :
    c'.operands v = c.operands v := by
  obtain ⟨ops, before, after⟩ := h.operands hs hv
  rw [before, after]
  congr 1
  exact List.ext_getElem? fun i => by simp [same]

/-! ## Replacing a value -/

/-- From `c` to `c'` all uses of `old` have been pointed to `new`. -/
structure Replaced (c c' : Context) (old new : Value) : Prop where
  /-- The slots that pointed to `old` point to `new`, and all else is as it was. -/
  redirects : c.Redirects c' fun e => if e.target = some old then some new else e.target
  /-- In each list of operands, `old` is replaced by `new`. -/
  operands : ∀ v ∈ c.graph.live, ∃ ops, c.operands v = .ok ops ∧
    c'.operands v = .ok (ops.map fun o => if o = some old then some new else o)
  /-- The uses of `old` have come before those of `new`, the first of them last. -/
  uses : ∃ us ws, c.uses old = .ok us ∧ c.uses new = .ok ws ∧
    c'.uses old = .ok [] ∧ c'.uses new = .ok (us.reverse ++ ws)
  /-- The other values keep their uses. -/
  others : ∀ v ∈ c.graph.live, v ≠ old → v ≠ new → c'.uses v = c.uses v

/-- Replacing a value by another of its type has exactly this effect. If the other one was not used,
the context is restored when it is replaced by the first. -/
theorem Reachable.replaceAllUses_exact (hc : c.Reachable) {old new : Value}
    (ho : old ∈ c.graph.live) (hn : new ∈ c.graph.live) (hne : old ≠ new)
    (hty : c.typeOf old = c.typeOf new) :
    ∃ c', (Request.replaceAllUses old new).run c = .ok .unit c' ∧ c.Replaced c' old new ∧
      (c.uses new = .ok [] → (Request.replaceAllUses new old).run c' = .ok .unit c) := by
  have hs := hc.sound
  obtain ⟨d, hd⟩ := Graph.mem_live.1 ho
  obtain ⟨dn, hdn⟩ := Graph.mem_live.1 hn
  obtain ⟨us, hus⟩ := hs.graph.lists hd
  obtain ⟨ws, hws⟩ := hs.graph.lists hdn
  have hty : d.ty = dn.ty := by
    simpa [typeOf, (valueData_eq_ok_iff hs).2 hd, (valueData_eq_ok_iff hs).2 hdn] using hty
  obtain ⟨g', replaced, -, -, redirects⟩ :=
    Graph.replaceAllUses_redirects hs.graph hne hd hdn hty hus
  have run := (Request.run_replaceAllUses ho hn).trans (Request.silent_onGraph replaced)
  have hs' : Sound { c with graph := g' } := hs.of_chain (Request.run_steps hs _ _ _ run)
  -- The uses of `old` are those that point to it.
  have frame : c.Redirects { c with graph := g' } fun e =>
      if e.target = some old then some new else e.target := by
    refine redirects_of_graph hs' redirects fun {x e} hx => ?_
    simp only [hus.mem_iff_target hx]
  obtain ⟨usesOld, usesOld'⟩ := uses_of_redirects hs hs' redirects hd hus
  obtain ⟨usesNew, usesNew'⟩ := uses_of_redirects hs hs' redirects hdn hws
  refine ⟨_, run, ⟨frame, fun v hv => frame.operands_map hs hv, ⟨us, ws, ?_⟩, fun v hv hold hnew => ?_⟩,
    fun unused => ?_⟩
  · -- The uses of `old` come in front of those of `new`, in reverse order.
    rw [if_neg hne] at usesOld'
    rw [if_pos rfl] at usesNew'
    refine ⟨usesOld, usesNew, usesOld'.trans ?_, usesNew'⟩
    congr 1
    simp
  · obtain ⟨_, vs, hvs, before, after⟩ := exists_uses_of_redirects hs hs' redirects hv
    rw [after, before, if_neg hnew, hus.filter_not_mem hvs (Ne.symm hold)]
  · -- If `new` had no uses, going back takes exactly the redirected ones, and reverses them again.
    rw [unused] at usesNew
    obtain rfl : [] = ws := Except.ok.inj usesNew
    have back := Graph.replaceAllUses_back hs.graph hne hd hdn hty hws replaced
    have live : g'.live = c.graph.live := redirects.live_eq
    rw [Request.run_replaceAllUses (c := { c with graph := g' }) (live ▸ hn) (live ▸ ho)]
    exact Request.silent_onGraph back

/-- For instance, when the other value uses the first in both its operands, and so does a third. -/
theorem replaceAllUses_exact_of_user : ∃ c,
    replay [.undef ⟨⟨1⟩, 9⟩, .binary {} .add ⟨⟨1⟩, 0⟩ ⟨⟨1⟩, 0⟩, .binary {} .sub ⟨⟨1⟩, 0⟩ ⟨⟨1⟩, 0⟩]
      (.initial ⟨1⟩) = some c ∧
    (⟨⟨1⟩, 0⟩ ∈ c.graph.live ∧ ⟨⟨1⟩, 1⟩ ∈ c.graph.live ∧
      c.typeOf ⟨⟨1⟩, 0⟩ = c.typeOf ⟨⟨1⟩, 1⟩ ∧
      c.uses ⟨⟨1⟩, 0⟩ = .ok [⟨3, 0⟩, ⟨2, 0⟩, ⟨1, 0⟩, ⟨0, 0⟩] ∧ c.uses ⟨⟨1⟩, 1⟩ = .ok []) ∧
    ∃ c', (Request.replaceAllUses ⟨⟨1⟩, 0⟩ ⟨⟨1⟩, 1⟩).run c = .ok .unit c' ∧
      c.Replaced c' ⟨⟨1⟩, 0⟩ ⟨⟨1⟩, 1⟩ ∧
      (c.uses ⟨⟨1⟩, 1⟩ = .ok [] →
        (Request.replaceAllUses ⟨⟨1⟩, 1⟩ ⟨⟨1⟩, 0⟩).run c' = .ok .unit c) :=
  exists_replay _ _ (by decide +kernel) fun _ hc ⟨ho, hn, hty, _, _⟩ =>
    Reachable.replaceAllUses_exact (hc.mono fun _ _ _ => trivial) ho hn (by decide) hty

/-! ## Setting an operand -/

/-- From `c` to `c'` operand slot `i` of `u`, whose use is `x`, has been pointed to `target`. -/
structure OperandSet (c c' : Context) (u : Value) (i : Nat) (x : Use) (target : Option Value) :
    Prop where
  /-- The slot points to the target, and all else is as it was. -/
  redirects : c.Redirects c' fun e => if e.slot = (u, i) then target else e.target
  /-- The operand is the target, and the other operands are what they were. -/
  operands : ∃ ops, c.operands u = .ok ops ∧ c'.operands u = .ok (ops.set i target)
  /-- The other values keep their operands. -/
  otherOperands : ∀ v ∈ c.graph.live, v ≠ u → c'.operands v = c.operands v
  /-- The use leaves its list, and the list of the target has it first. -/
  uses : ∀ v ∈ c.graph.live, ∃ us, c.uses v = .ok us ∧
    c'.uses v = .ok (if target = some v then x :: us.erase x else us.erase x)
  /-- The values that the slot neither pointed to nor points to keep their uses. -/
  otherUses : ∀ v ∈ c.graph.live, c.operandAt u i ≠ .ok (some v) → target ≠ some v →
    c'.uses v = c.uses v

/-- When one slot points elsewhere, one operand of its user is another. -/
theorem mapIdx_slot_eq_set (ops : List (Option Value)) (u : Value) (i : Nat) (target : Option Value) :
    ops.mapIdx (fun j o => if (⟨u, j, o⟩ : Edge).slot = (u, i) then target else o) =
      ops.set i target := by
  refine List.ext_getElem? fun j => ?_
  rw [List.getElem?_mapIdx, List.getElem?_set]
  by_cases hj : i = j
  · subst hj
    cases hop : ops[i]? with
    | none => simp [List.getElem?_eq_none_iff.1 hop]
    | some o => simp [(List.getElem?_eq_some_iff.1 hop).1, Edge.slot]
  · rw [if_neg hj]
    cases ops[j]? with
    | none => rfl
    | some o => simp [Edge.slot, Ne.symm hj]

/-- An operand of an instruction can be set to any value, and to none. -/
theorem Reachable.setOperand_set (hc : c.Reachable) {u : Value} {i : Nat} {target : Option Value}
    {slots : List Use} {x : Use} (hu : u ∈ c.graph.live) (ht : ∀ v ∈ target, v ∈ c.graph.live)
    (isa : c.isa .instruction u = .ok true) (hslots : c.operandSlots u = .ok slots)
    (hx : slots[i]? = some x) :
    ∃ c', (Request.setOperand u i target).run c = .ok .unit c' ∧ c.OperandSet c' u i x target := by
  have hs := hc.sound
  obtain ⟨d, hd, hk⟩ := (isa_eq_ok_iff hs).1 isa
  have hslot : c.graph.slot? (u, i) = some x := by rw [← operandSlots_eq_ok hs hslots, hx]
  obtain ⟨old, he⟩ := hs.graph.owned hslot
  have hop : d.operands[i]? = some x := by simpa [Graph.slot?, hd] using hslot
  have alive : ∀ v ∈ target, ∃ d, c.graph.value? v = some d :=
    fun v hv => Graph.mem_live.1 (ht v hv)
  obtain ⟨g', set, -, redirects⟩ := Graph.setOperand_redirects hs.graph hd hk hop alive
  have run := (Request.run_setOperand hu ht).trans (Request.silent_onGraph set)
  have hs' : Sound { c with graph := g' } := hs.of_chain (Request.run_steps hs _ _ _ run)
  -- The use of the slot is the one whose edge records it.
  have frame : c.Redirects { c with graph := g' } fun e =>
      if e.slot = (u, i) then target else e.target := by
    refine redirects_of_graph hs' redirects fun {y e} hy => ?_
    have same : y = x ↔ e.slot = (u, i) := by
      constructor
      · rintro rfl
        rw [he] at hy
        cases hy
        rfl
      · intro heq
        by_contra hne
        exact hs.graph.slot_ne hy he hne heq
    simp only [same]
  -- The use goes to the front of the list of its new target and leaves the list of the old one.
  have lists : ∀ v ∈ c.graph.live, ∃ dv us, c.graph.Lists v dv us ∧ c.uses v = .ok us ∧
      Context.uses { c with graph := g' } v =
        .ok (if target = some v then x :: us.erase x else us.erase x) := by
    intro v hv
    obtain ⟨dv, us, hus, before, after⟩ := exists_uses_of_redirects hs hs' redirects hv
    have erased : us.erase x = us.filter (· ≠ x) := by
      rw [hus.nodup.erase_eq_filter]
      exact List.filter_congr fun y _ => by simp [bne, beq_eq_decide]
    exact ⟨dv, us, hus, before, by rw [after, erased]⟩
  refine ⟨_, run, frame, ?_, fun v hv hvu => ?_, fun v hv => ?_, fun v hv apart hne => ?_⟩
  · obtain ⟨ops, before, after⟩ := frame.operands hs hu
    exact ⟨ops, before, by rw [after, mapIdx_slot_eq_set]⟩
  · exact frame.operands_eq hs hv fun j t => if_neg fun heq => hvu (congrArg Prod.fst heq)
  · obtain ⟨_, us, -, before, after⟩ := lists v hv
    exact ⟨us, before, after⟩
  · obtain ⟨_, us, hus, before, after⟩ := lists v hv
    -- A value that was not in the slot does not list its use, so nothing is erased from its list.
    have hout : x ∉ us := by
      intro hmem
      obtain rfl : old = some v := (hus.mem_iff_target he).1 hmem
      exact apart ((operandAt_eq_ok_iff hs).2 ⟨x, hslot, he⟩)
    rw [before, after, if_neg hne, List.erase_of_not_mem hout]

/-- What is no operand of an instruction cannot be set. -/
theorem Reachable.setOperand_refused (hc : c.Reachable) {u : Value} {i : Nat}
    {target : Option Value} {slots : List Use} (hu : u ∈ c.graph.live)
    (ht : ∀ v ∈ target, v ∈ c.graph.live) (hslots : c.operandSlots u = .ok slots)
    (h : ¬ (c.isa .instruction u = .ok true ∧ i < slots.length)) :
    ∃ e, (Request.setOperand u i target).run c = .error (.rejected e) c := by
  have hs := hc.sound
  obtain ⟨d, hd⟩ := Graph.mem_live.1 hu
  obtain rfl : d.operands = slots := by
    simpa [Context.operandSlots, (valueData_eq_ok_iff hs).2 hd] using hslots
  have outside : d.kind.isUser = true → d.operands.length ≤ i := by
    intro hk
    by_contra hlt
    exact h ⟨(isa_eq_ok_iff hs).2 ⟨d, hd, hk⟩, by omega⟩
  obtain ⟨e, refused⟩ := Graph.setOperand_rejected hd outside
  refine ⟨e, ?_⟩
  rw [Request.run_setOperand hu ht, Request.silent, Run.bind_apply, onGraph, Run.on, refused]

/-! ## Emptying slots -/

/-- From `c` to `c'` all uses of `w` have been emptied. -/
structure UsesDropped (c c' : Context) (w : Value) : Prop where
  /-- The slots that pointed to `w` are empty, and all else is as it was. -/
  redirects : c.Redirects c' fun e => if e.target = some w then none else e.target
  /-- In each list of operands, `w` is missing. -/
  operands : ∀ v ∈ c.graph.live, ∃ ops, c.operands v = .ok ops ∧
    c'.operands v = .ok (ops.map fun o => if o = some w then none else o)
  /-- The value is not used. -/
  uses : c'.uses w = .ok []
  /-- The other values keep their uses. -/
  otherUses : ∀ v ∈ c.graph.live, v ≠ w → c'.uses v = c.uses v

/-- From `c` to `c'` all operand slots of `u` have been emptied. -/
structure ReferencesDropped (c c' : Context) (u : Value) : Prop where
  /-- The slots of `u` are empty, and all else is as it was. -/
  redirects : c.Redirects c' fun e => if e.user = u then none else e.target
  /-- There are as many operands as before. -/
  operands : ∃ ops, c.operands u = .ok ops ∧ c'.operands u = .ok (List.replicate ops.length none)
  /-- The other values keep their operands. -/
  otherOperands : ∀ v ∈ c.graph.live, v ≠ u → c'.operands v = c.operands v
  /-- The uses by `u` leave all lists. -/
  uses : ∀ v ∈ c.graph.live, ∃ us, c.uses v = .ok us ∧
    c'.uses v = .ok (us.filter fun x => !c.ownedBy [u] x)
  /-- What `u` does not use keeps its uses; this may be `u`. -/
  otherUses : ∀ v ∈ c.graph.live, (∀ ops, c.operands u = .ok ops → some v ∉ ops) →
    c'.uses v = c.uses v

/-- All uses of a value can be emptied. -/
theorem Reachable.dropAllUses_drops (hc : c.Reachable) {w : Value} (hw : w ∈ c.graph.live) :
    ∃ c', (Request.dropAllUses w).run c = .ok .unit c' ∧ c.UsesDropped c' w := by
  have hs := hc.sound
  obtain ⟨d, hd⟩ := Graph.mem_live.1 hw
  obtain ⟨us, hus⟩ := hs.graph.lists hd
  obtain ⟨g', dropped, -, redirects⟩ := Graph.dropAllUses_redirects hs.graph hd hus
  have run := (Request.run_dropAllUses hw).trans (Request.silent_onGraph dropped)
  have hs' : Sound { c with graph := g' } := hs.of_chain (Request.run_steps hs _ _ _ run)
  -- The uses of `w` are those that point to it.
  have frame : c.Redirects { c with graph := g' } fun e =>
      if e.target = some w then none else e.target := by
    refine redirects_of_graph hs' redirects fun {x e} hx => ?_
    simp only [hus.mem_iff_target hx]
  refine ⟨_, run, frame, fun v hv => frame.operands_map hs hv, ?_, fun v hv hne => ?_⟩
  · obtain ⟨-, after⟩ := uses_of_redirects hs hs' redirects hd hus
    rw [after]
    congr 1
    simp
  · obtain ⟨_, vs, hvs, before, after⟩ := exists_uses_of_redirects hs hs' redirects hv
    rw [before, after, hus.filter_not_mem hvs (Ne.symm hne)]

/-- All operand slots of a value can be emptied. -/
theorem Reachable.dropAllReferences_drops (hc : c.Reachable) {u : Value} (hu : u ∈ c.graph.live) :
    ∃ c', (Request.dropAllReferences u).run c = .ok .unit c' ∧ c.ReferencesDropped c' u := by
  have hs := hc.sound
  obtain ⟨d, hd⟩ := Graph.mem_live.1 hu
  obtain ⟨g', dropped, -, redirects⟩ := Graph.dropAllReferences_redirects hs.graph hd
  have run := (Request.run_dropAllReferences hu).trans (Request.silent_onGraph dropped)
  have hs' : Sound { c with graph := g' } := hs.of_chain (Request.run_steps hs _ _ _ run)
  -- The operands of `u` are the uses whose edges have it as their user.
  have own : ∀ {x e}, c.graph.edge? x = some e → (x ∈ d.operands ↔ e.user = u) := by
    intro x e hx
    have slots : c.graph.slotsOf u = d.operands := by simp [Graph.slotsOf, hd]
    rw [← slots, hs.graph.mem_slotsOf_iff hx]
  have frame : c.Redirects { c with graph := g' } fun e =>
      if e.user = u then none else e.target := by
    refine redirects_of_graph hs' redirects fun {x e} hx => ?_
    simp only [own hx]
  -- Every use list loses the slots of `u`, its own list like any other.
  have lists : ∀ v ∈ c.graph.live, ∃ dv us, c.graph.Lists v dv us ∧ c.uses v = .ok us ∧
      Context.uses { c with graph := g' } v = .ok (us.filter fun x => !c.ownedBy [u] x) := by
    intro v hv
    obtain ⟨dv, us, hus, before, after⟩ := exists_uses_of_redirects hs hs' redirects hv
    refine ⟨dv, us, hus, before, after.trans ?_⟩
    congr 1
    refine List.filter_congr fun x hx => ?_
    obtain ⟨e, he, -⟩ := hus.mem.1 hx
    simp [ownedBy, Context.useData, Graph.edge_eq_ok_iff.2 he, own he]
  refine ⟨_, run, frame, ?_, fun v hv hvu => ?_, fun v hv => ?_, fun v hv unused => ?_⟩
  · obtain ⟨ops, before, after⟩ := frame.operands hs hu
    refine ⟨ops, before, after.trans ?_⟩
    congr 1
    refine List.ext_getElem (by simp) fun j _ _ => ?_
    simp
  · exact frame.operands_eq hs hv fun j t => if_neg hvu
  · obtain ⟨_, us, -, before, after⟩ := lists v hv
    exact ⟨us, before, after⟩
  · obtain ⟨dv, us, hus, before, after⟩ := lists v hv
    rw [before, after]
    congr 1
    refine List.filter_eq_self.2 fun x hx => ?_
    obtain ⟨e, he, target⟩ := hus.mem.1 hx
    -- A slot of `u` that held `v` would be one of the operands.
    have hne : e.user ≠ u := by
      intro huser
      refine unused _ (operands_eq_ok hs hd) (List.mem_map.2 ⟨x, (own he).2 huser, ?_⟩)
      simp [Graph.target?, he, target]
    simp [ownedBy, Context.useData, Graph.edge_eq_ok_iff.2 he, hne]

/-- What the requests do that point the operands of one instruction elsewhere, or the uses of one
value nowhere. -/
structure Retargets (c : Context) : Prop where
  /-- An operand of an instruction can be set to any value, and to none. -/
  set : ∀ {u i target slots x}, u ∈ c.graph.live → (∀ v ∈ target, v ∈ c.graph.live) →
    c.isa .instruction u = .ok true → c.operandSlots u = .ok slots → slots[i]? = some x →
    ∃ c', (Request.setOperand u i target).run c = .ok .unit c' ∧ c.OperandSet c' u i x target
  /-- What is no operand of an instruction cannot be set. -/
  notSet : ∀ {u i target slots}, u ∈ c.graph.live → (∀ v ∈ target, v ∈ c.graph.live) →
    c.operandSlots u = .ok slots → ¬ (c.isa .instruction u = .ok true ∧ i < slots.length) →
    ∃ e, (Request.setOperand u i target).run c = .error (.rejected e) c
  /-- All uses of a value can be emptied. -/
  dropUses : ∀ w ∈ c.graph.live, ∃ c', (Request.dropAllUses w).run c = .ok .unit c' ∧
    c.UsesDropped c' w
  /-- All operand slots of a value can be emptied. -/
  dropReferences : ∀ u ∈ c.graph.live, ∃ c', (Request.dropAllReferences u).run c = .ok .unit c' ∧
    c.ReferencesDropped c' u

/-- In every context, operands are set and slots emptied with exactly these effects. -/
theorem Reachable.retargets_exactly (hc : c.Reachable) : c.Retargets := by
  constructor
  · intro u i target slots x hu ht isa hslots hx
    exact hc.setOperand_set hu ht isa hslots hx
  · intro u i target slots hu ht hslots h
    exact hc.setOperand_refused hu ht hslots h
  · intro w hw
    exact hc.dropAllUses_drops hw
  · intro u hu
    exact hc.dropAllReferences_drops hu

/-- For instance, when a phi is its own incoming value and both operands of a sum. -/
theorem retargets_exactly_after_self_use : ∃ c,
    replay [.phi {} ⟨⟨1⟩, 9⟩, .newBlock none, .addIncoming ⟨⟨⟨1⟩, 0⟩⟩ ⟨⟨1⟩, 0⟩ ⟨⟨⟨1⟩, 1⟩⟩,
      .binary {} .add ⟨⟨1⟩, 0⟩ ⟨⟨1⟩, 0⟩] (.initial ⟨1⟩) = some c ∧
    (c.isa .instruction ⟨⟨1⟩, 0⟩ = .ok true ∧ c.operandSlots ⟨⟨1⟩, 0⟩ = .ok [⟨0, 0⟩, ⟨1, 0⟩] ∧
      c.uses ⟨⟨1⟩, 0⟩ = .ok [⟨3, 0⟩, ⟨2, 0⟩, ⟨0, 0⟩]) ∧
    c.Retargets :=
  exists_replay _ _ (by decide +kernel) fun _ hc _ =>
    Reachable.retargets_exactly (hc.mono fun _ _ _ => trivial)

/-- An instruction that uses itself does not keep its own use list when its operand slots are
emptied. -/
theorem dropAllReferences_shortens_own_uses : ∃ c,
    replay [.phi {} ⟨⟨1⟩, 9⟩, .newBlock none, .addIncoming ⟨⟨⟨1⟩, 0⟩⟩ ⟨⟨1⟩, 0⟩ ⟨⟨⟨1⟩, 1⟩⟩]
      (.initial ⟨1⟩) = some c ∧
    (⟨⟨1⟩, 0⟩ ∈ c.graph.live ∧ c.uses ⟨⟨1⟩, 0⟩ = .ok [⟨0, 0⟩] ∧
      c.ownedBy [⟨⟨1⟩, 0⟩] ⟨0, 0⟩ = true) ∧
    ∃ c', (Request.dropAllReferences ⟨⟨1⟩, 0⟩).run c = .ok .unit c' ∧
      c'.uses ⟨⟨1⟩, 0⟩ = .ok [] := by
  refine exists_replay _ _ (by decide +kernel) fun c hc ⟨alive, uses, owned⟩ => ?_
  obtain ⟨c', run, dropped⟩ :=
    Reachable.dropAllReferences_drops (hc.mono fun _ _ _ => trivial) alive
  obtain ⟨us, before, after⟩ := dropped.uses _ alive
  obtain rfl : [⟨0, 0⟩] = us := Except.ok.inj (uses.symm.trans before)
  refine ⟨c', run, after.trans ?_⟩
  simp [owned]

end Context

end SsaGraph
