import SsaGraph.Proofs.Graph.Face
import SsaGraph.Proofs.History

/-!
# Operand slots and use lists mirror each other

`Mirrors` says what can be seen of the use-def graph from outside, through the questions a context
answers. The uses of a value are the operand slots that hold it, each once, and as many as the count
says; an operand slot has an edge of its own that records it; and the arena has one edge for each
operand slot of a live instruction, so that no slot of the arena is lost or given up twice. All of
it holds in every reachable context.

Coherence gives all but the last, which is a matter of counting. The arena slots in use and the
vacant ones, written one after the other, are the numbers below the length of the arena in some
order (`Coherent.perm_range`), and there are as many of the former as there are operand slots.
-/

namespace SsaGraph

namespace Graph

variable {g g' : Graph}

/-! ## Counting operand slots -/

/-- The live values that are instructions. -/
def liveUsers (g : Graph) : List Value := g.live.filter fun v => (g.value? v).any (·.kind.isUser)

/-- A value is listed as live exactly when it is alive. -/
theorem mem_live {v : Value} : v ∈ g.live ↔ ∃ d, g.value? v = some d := by
  rw [live, List.mem_filter, contains, Option.isSome_iff_exists]
  constructor
  · exact And.right
  · rintro ⟨d, hd⟩
    refine ⟨List.mem_map.2 ⟨v.index, List.mem_range.2 (index_lt_of_value? hd), ?_⟩, d, hd⟩
    rw [← ctx_of_value? hd]

/-- No value is listed as live twice. -/
theorem nodup_live (g : Graph) : g.live.Nodup := by
  refine .filter _ (List.nodup_range.map ?_)
  intro i j h
  simpa using h

/-- Operand slots that have their edges at one place of the arena are one slot. -/
theorem Coherent.slot_eq (hc : g.Coherent) {v w : Value} {i j : Nat} {x y : Use}
    (hx : g.slot? (v, i) = some x) (hy : g.slot? (w, j) = some y) (h : x.index = y.index) :
    v = w ∧ i = j := by
  obtain ⟨t, ht⟩ := hc.owned hx
  obtain ⟨t', ht'⟩ := hc.owned hy
  obtain rfl := eq_of_index_eq ht ht' h
  rw [ht] at ht'
  cases ht'
  exact ⟨rfl, rfl⟩

/-- The places of the arena that operand slots use. -/
def places (g : Graph) : List Nat := g.live.flatMap fun v => (g.slotsOf v).map (·.index)

/-- A place is taken exactly when some operand slot has its edge there. -/
theorem mem_places {k : Nat} : k ∈ g.places ↔ ∃ v i u, g.slot? (v, i) = some u ∧ u.index = k := by
  simp only [places, List.mem_flatMap, List.mem_map]
  constructor
  · rintro ⟨v, -, u, hu, rfl⟩
    obtain ⟨i, hi⟩ := mem_slotsOf.1 hu
    exact ⟨v, i, u, hi, rfl⟩
  · rintro ⟨v, i, u, hu, rfl⟩
    obtain ⟨d, hd, -⟩ := Option.bind_eq_some_iff.1 hu
    exact ⟨v, mem_live.2 ⟨d, hd⟩, u, mem_slotsOf.2 ⟨i, hu⟩, rfl⟩

/-- No two operand slots have their edges in one place. -/
theorem Coherent.nodup_places (hc : g.Coherent) : g.places.Nodup := by
  refine List.nodup_flatMap.2 ⟨fun v _ => ?_, ?_⟩
  · refine List.nodup_iff_getElem?_ne_getElem?.2 fun i j hij hj heq => ?_
    rw [List.length_map] at hj
    have hlt : i < (g.slotsOf v).length := by omega
    have hx := List.getElem?_eq_getElem hlt
    have hy := List.getElem?_eq_getElem hj
    rw [List.getElem?_map, List.getElem?_map, hx, hy] at heq
    rw [slotsOf_getElem?] at hx hy
    -- Slots of one value differ by their number, slots of different values by their value.
    have := (hc.slot_eq hx hy (by simpa using heq)).2
    omega
  · refine (nodup_live g).imp fun {v w} hne => ?_
    rintro k hk hk'
    obtain ⟨x, hx, rfl⟩ := List.mem_map.1 hk
    obtain ⟨y, hy, hxy⟩ := List.mem_map.1 hk'
    obtain ⟨i, hi⟩ := mem_slotsOf.1 hx
    obtain ⟨j, hj⟩ := mem_slotsOf.1 hy
    exact hne (hc.slot_eq hi hj hxy.symm).1

/-- The places in use and the vacant ones are all places, each once. -/
theorem Coherent.perm_range (hc : g.Coherent) :
    (g.places ++ g.free).Perm (List.range g.slots.size) := by
  have nodup : (g.places ++ g.free).Nodup := by
    refine List.nodup_append'.2 ⟨hc.nodup_places, hc.arena.nodup, fun k hk hfree => ?_⟩
    obtain ⟨v, i, u, hu, rfl⟩ := mem_places.1 hk
    obtain ⟨t, ht⟩ := hc.owned hu
    rw [hc.arena.edge?_of_mem_free hfree] at ht
    cases ht
  refine (List.perm_ext_iff_of_nodup nodup List.nodup_range).2 fun k => ?_
  rw [List.mem_append, List.mem_range]
  -- Each place has an edge or is vacant, and each edge is that of a slot.
  constructor
  · rintro (hk | hk)
    · obtain ⟨v, i, u, hu, rfl⟩ := mem_places.1 hk
      obtain ⟨t, ht⟩ := hc.owned hu
      exact index_lt_of_edge? ht
    · obtain ⟨s, hs, -⟩ := hc.arena.vacant.1 hk
      exact (Array.getElem?_eq_some_iff.1 hs).1
  · intro hk
    have hs := Array.getElem?_eq_getElem hk
    cases he : g.slots[k].edge with
    | none => exact .inr (hc.arena.vacant.2 ⟨_, hs, he⟩)
    | some l =>
      -- The edge is that of the operand slot it records.
      have hu : g.edge? ⟨k, g.slots[k].gen⟩ = some l.toEdge := by simp [edge?, linked?, hs, he]
      exact .inl (mem_places.2 ⟨l.user, l.operandNo, _, hc.owner hu, rfl⟩)

/-! ## Only instructions have operand slots -/

/-- A value that is not an instruction has no operand slots. -/
def OnlyUsers (g : Graph) : Prop :=
  ∀ {v n}, g.node? v = some n → n.kind.isUser = false → n.operands = []

/-- What has an operand slot is an instruction. -/
theorem OnlyUsers.has_instruction (h : g.OnlyUsers) {v : Value} {i : Nat} {u : Use}
    (hslot : g.slot? (v, i) = some u) : g.Has .instruction v := by
  obtain ⟨d, hd, hslot⟩ := Option.bind_eq_some_iff.1 hslot
  refine has_iff.2 ⟨d, hd, ?_⟩
  cases hkind : d.kind with
  | instruction op => rfl
  | _ =>
    have hnil := h (node?_of_value? hd) (by simp [hkind, ValueKind.isUser])
    rw [List.map_eq_nil_iff] at hnil
    simp [hnil] at hslot

/-- Setting an operand slot does not give one to a value that has none. -/
theorem OnlyUsers.set {user : Value} {i : Nat} {t : Option Value} (h : g.OnlyUsers)
    (hn : ∀ w, g'.node? w =
      if w = user then (g.node? w).map fun n => { n with operands := n.operands.set i t }
      else g.node? w) : g'.OnlyUsers := by
  intro w n' hw hk
  rw [hn] at hw
  split at hw
  · obtain ⟨n, hn, rfl⟩ := Option.map_eq_some_iff.1 hw
    have hnil : n.operands = [] := h hn hk
    simp [hnil]
  · exact h hw hk

/-- A tame change gives operands to no value that is not a user. -/
theorem OnlyUsers.tame (h : g.OnlyUsers) (hc : g.Coherent) (ht : g.Tame g') : g'.OnlyUsers := by
  -- Emptying and swapping set a slot that was there; nothing here adds one.
  cases ht with
  | clear edge => exact h.set (hc.node?_clear edge)
  | swap edge target old new => exact h.set (hc.node?_retargeted edge _)
  | rename v name =>
    intro w n' hw hk
    rw [node?_modifyValue] at hw
    split at hw
    · obtain ⟨d, hd, rfl⟩ := Option.map_eq_some_iff.1 hw
      have hnil := h (node?_of_value? hd) hk
      exact hnil
    · exact h hw hk
  | touch data alike =>
    intro w n' hw hk
    rw [node?_modifyValue, data] at hw
    split at hw
    · cases hw
      have hnil := h (node?_of_value? data) (alike.isUser_eq.symm.trans hk)
      exact hnil
    · exact h hw hk
  | remove run =>
    obtain ⟨-, -, -, hn⟩ := removeValue_ok hc run
    intro w n' hw hk
    rw [hn] at hw
    split at hw
    · cases hw
    · exact h hw hk

/-- Any change gives operands to users only. -/
theorem OnlyUsers.change (h : g.OnlyUsers) (hc : g.Coherent) (ht : g.Change g') :
    g'.OnlyUsers := by
  cases ht with
  | tame ht => exact h.tame hc ht
  | retarget edge data => exact h.set (hc.node?_retargeted edge _)
  | build run =>
    -- What is built is an instruction.
    obtain ⟨-, -, -, hn⟩ := newUser_ok hc run
    intro w n' hw hk
    rw [hn] at hw
    split at hw
    · cases hw
      cases hk
    · exact h hw hk
  | grow run =>
    obtain ⟨-, -, ⟨d, hd, hvar⟩, -, hn⟩ := pushOperand_ok hc run
    intro w n' hw hk
    rw [hn] at hw
    split at hw
    · -- Only instructions are variadic.
      subst w
      rw [node?_of_value? hd] at hw
      cases hw
      cases hkind : d.kind <;> simp_all [ValueKind.isVariadic, ValueKind.opcode?, ValueKind.isUser]
    · exact h hw hk

/-- A new value has no operand slots. -/
theorem OnlyUsers.create (h : g.OnlyUsers) (ty : Ty) (kind : ValueKind) (name : Option String) :
    (g.push ⟨ty, name, kind, [], none, 0⟩).2.OnlyUsers := by
  intro w n' hw hk
  rw [node?_create] at hw
  split at hw
  · cases hw
    rfl
  · exact h hw hk

/-- The arena has one edge for each operand slot of a live instruction. -/
theorem Coherent.numEdges_eq (hc : g.Coherent) (hu : g.OnlyUsers) :
    g.numEdges = (g.liveUsers.flatMap g.slotsOf).length := by
  -- Values that are not instructions add nothing to the operand slots.
  have users : ∀ l : List Value,
      l.flatMap g.slotsOf =
        (l.filter fun v => (g.value? v).any (·.kind.isUser)).flatMap g.slotsOf := by
    intro l
    induction l with
    | nil => rfl
    | cons v l ih =>
      rw [List.filter_cons]
      split
      · simp [ih]
      · rename_i hv
        have hnil : g.slotsOf v = [] := by
          unfold slotsOf
          cases hd : g.value? v with
          | none => rfl
          | some d =>
            have hk : d.kind.isUser = false := by simpa [hd] using hv
            simpa using hu (node?_of_value? hd) hk
        simp [ih, hnil]
  have total : g.places.length = (g.liveUsers.flatMap g.slotsOf).length := by
    rw [places, liveUsers, ← users, ← List.map_flatMap, List.length_map]
  -- The places are those of the slots and the vacant ones, so what is not vacant is counted by the
  -- slots.
  have size := hc.perm_range.length_eq
  rw [List.length_append, List.length_range] at size
  rw [numEdges, ← total]
  omega

end Graph

namespace Context

variable {c c' : Context}

/-- A live value passes the check. -/
theorem check_of_live {v : Value} (hv : v ∈ c.graph.live) : c.check v = .ok () :=
  check_eq_ok_iff.2 (Graph.mem_live.1 hv)

/-! ## The mirror -/

/-- Use lists, operand slots and the arena of edges agree in all that can be asked about them. -/
structure Mirrors (c : Context) : Prop where
  /-- The uses of a live value are the operand slots that hold it, each once, and as many as the
  count says. -/
  uses : ∀ v ∈ c.graph.live, ∃ us, c.uses v = .ok us ∧ us.Nodup ∧ c.numUses v = .ok us.length ∧
    ∀ u i, (∃ x ∈ us, ∃ t, c.useData x = .ok ⟨u, i, t⟩) ↔
      u ∈ c.graph.live ∧ c.operandAt u i = .ok (some v)
  /-- An operand slot of a live value has an edge that records the slot, and what the edge points to
  is alive. -/
  slots : ∀ u ∈ c.graph.live, ∃ us, c.operandSlots u = .ok us ∧
    ∀ i x, us[i]? = some x → ∃ t, c.useData x = .ok ⟨u, i, t⟩ ∧ ∀ v ∈ t, v ∈ c.graph.live
  /-- Different operand slots have their edges at different places of the arena. -/
  distinct : ∀ {u u' : Value} {us us' : List Use} {i i' : Nat} {x x' : Use},
    c.operandSlots u = .ok us → c.operandSlots u' = .ok us' →
    us[i]? = some x → us'[i']? = some x' → x.index = x'.index → u = u' ∧ i = i'
  /-- The arena has one edge for each operand slot of a live instruction. -/
  count : c.graph.numEdges = (c.graph.liveUsers.flatMap c.graph.slotsOf).length
  /-- The list of vacant places has each place without an edge once. -/
  vacant : c.graph.free.Nodup ∧
    ∀ k, k ∈ c.graph.free ↔ ∃ s, c.graph.slots[k]? = some s ∧ s.edge = none

/-- Only users have operand slots after a change. -/
theorem onlyUsers_of_change (hs : c.Sound) (hu : c.graph.OnlyUsers) (h : c.Change c') :
    c'.graph.OnlyUsers := by
  cases h with
  | graph h => exact hu.change hs.graph h
  | tame h =>
    cases h with
    | constant ty k => exact hu.create ty _ none
    | create name user label => exact hu.create _ _ name
    | graph h => exact hu.tame hs.graph h
    | types h => exact hu
    | layout h => exact hu
    | registry functions names => exact hu

/-- Only users have operand slots after a chain of changes. -/
theorem onlyUsers_of_chain (hs : c.Sound) (hu : c.graph.OnlyUsers)
    (chain : Relation.ReflTransGen Change c c') : c'.graph.OnlyUsers := by
  induction chain with
  | refl => exact hu
  | tail chain step ih => exact onlyUsers_of_change (hs.of_chain chain) ih step

/-- Only users have operand slots in a context that is reached. -/
theorem ReachedBy.onlyUsers {allowed : Context → Request → Prop} (h : ReachedBy allowed c) :
    c.graph.OnlyUsers := by
  refine h.invariant (P := fun c => c.graph.OnlyUsers) (fun id => ?_) fun hs hu _ run => ?_
  · intro v n hn
    simp [Context.initial, Graph.node?, Graph.bare?, Graph.value?, Graph.initial] at hn
  · exact onlyUsers_of_chain hs hu (Request.run_steps hs _ _ _ run)

/-- In every context that a history leads to, operand slots and use lists mirror each other. -/
theorem Reachable.mirrors (hc : c.Reachable) : c.Mirrors := by
  have hs := hc.sound
  refine ⟨fun v hv => ?_, fun u hu => ?_, ?_, ?_, ?_⟩
  · -- The list of uses: its members are the uses that point to the value, and a slot that holds the
    -- value is that of such a use.
    obtain ⟨d, hd⟩ := Graph.mem_live.1 hv
    have hdata := (valueData_eq_ok_iff hs).2 hd
    obtain ⟨us, hlist⟩ := hs.graph.lists hd
    refine ⟨us, by simp [uses, hdata, hlist.uses_eq hd], hlist.nodup, ?_, fun u i => ?_⟩
    · simp [numUses, hdata, hlist.count]
    · rw [operandAt_eq_ok_iff hs]
      constructor
      · rintro ⟨x, hx, t, ht⟩
        obtain ⟨e, he, htarget⟩ := hlist.mem.1 hx
        rw [useData, Graph.edge_eq_ok_iff, he] at ht
        cases ht
        cases htarget
        -- The edge records the slot it belongs to, and this slot is there.
        have hslot := hs.graph.owner he
        obtain ⟨d', hd', -⟩ := Option.bind_eq_some_iff.1 hslot
        exact ⟨Graph.mem_live.2 ⟨d', hd'⟩, x, hslot, he⟩
      · rintro ⟨-, x, -, he⟩
        exact ⟨x, hlist.mem.2 ⟨_, he, rfl⟩, _, Graph.edge_eq_ok_iff.2 he⟩
  · -- The slots of a user: each has an edge that names it, and what the edge points to is alive.
    obtain ⟨d, hd⟩ := Graph.mem_live.1 hu
    have hdata := (valueData_eq_ok_iff hs).2 hd
    refine ⟨d.operands, by simp [operandSlots, hdata], fun i x hx => ?_⟩
    obtain ⟨t, ht⟩ := hs.graph.owned (v := u) (i := i) (by simpa [Graph.slot?, hd] using hx)
    exact ⟨t, Graph.edge_eq_ok_iff.2 ht, fun v hv => Graph.mem_live.2 (hs.graph.alive ht hv)⟩
  · -- Two slots with the same place are the same slot.
    intro u u' us us' i i' x x' hus hus' hx hx' hindex
    rw [operandSlots_eq_ok hs hus] at hx
    rw [operandSlots_eq_ok hs hus'] at hx'
    exact hs.graph.slot_eq hx hx' hindex
  · exact hs.graph.numEdges_eq hc.onlyUsers
  · exact ⟨hs.graph.arena.nodup, fun k => hs.graph.arena.vacant⟩

/-- For instance, after a value was returned and the return was emptied again. -/
theorem mirrors_after_emptied_ret : ∃ c₁ c₂ c₃ : Context,
    (Request.undef ⟨⟨1⟩, 9⟩).run (.initial ⟨1⟩) = .ok (.value ⟨⟨1⟩, 0⟩) c₁ ∧
    (Request.ret {} (some ⟨⟨1⟩, 0⟩)).run c₁ = .ok (.value ⟨⟨1⟩, 1⟩) c₂ ∧
    (Request.setOperand ⟨⟨1⟩, 1⟩ 0 none).run c₂ = .ok .unit c₃ ∧ c₂.Mirrors ∧ c₃.Mirrors := by
  have h₁ : Reachable _ := .answered (.initial ⟨1⟩) trivial
    (r := .undef ⟨⟨1⟩, 9⟩) rfl
  have h₂ : Reachable _ := .answered h₁ trivial
    (r := .ret {} (some ⟨⟨1⟩, 0⟩)) rfl
  have h₃ : Reachable _ := .answered h₂ trivial
    (r := .setOperand ⟨⟨1⟩, 1⟩ 0 none) rfl
  exact ⟨_, _, _, rfl, rfl, rfl, Reachable.mirrors h₂, Reachable.mirrors h₃⟩

end Context

end SsaGraph
