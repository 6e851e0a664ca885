import SsaGraph.Proofs.Graph.UseList

/-!
# Coherence of operand slots and use lists

A graph records the same relation three times: in the edges of the arena, in the operand slots of
the instructions, and in the use lists of the values. `CoherentFor g S` says that the three agree,
where `S` gives the use of each operand slot. While an instruction is being created or removed the
slots it owns are not yet, or no longer, those of its data; so `S` is a parameter, and each
elementary change of the graph is shown to keep coherence for an `S` that follows it. A graph at
rest is coherent for its own slots, which is `Coherent`.
-/

namespace SsaGraph

namespace Graph

/-- The use of the operand slot number `p.2` of the value `p.1`. -/
def slot? (g : Graph) (p : Value × Nat) : Option Use := (g.value? p.1).bind (·.operands[p.2]?)

/-- The operand slots of a value; none if it is not alive. -/
def slotsOf (g : Graph) (v : Value) : List Use := ((g.value? v).map (·.operands)).getD []

/-- The list of vacant slots has each vacant slot of the arena once. -/
structure Arena (g : Graph) : Prop where
  /-- No slot is listed twice. -/
  nodup : g.free.Nodup
  /-- The listed slots are those without an edge. -/
  vacant : ∀ {k}, k ∈ g.free ↔ ∃ s, g.slots[k]? = some s ∧ s.edge = none

/-- Edges, use lists and the operand slots given by `S` agree. -/
structure CoherentFor (g : Graph) (S : Value × Nat → Option Use) : Prop where
  /-- The vacant slots are known. -/
  arena : g.Arena
  /-- An operand slot has an edge that records it. -/
  owned : ∀ {v i u}, S (v, i) = some u → ∃ t, g.edge? u = some ⟨v, i, t⟩
  /-- An edge is the one of the operand slot that it records. -/
  owner : ∀ {u e}, g.edge? u = some e → S (e.user, e.operandNo) = some u
  /-- What an edge points to is alive. -/
  alive : ∀ {u e v}, g.edge? u = some e → e.target = some v → ∃ d, g.value? v = some d
  /-- The graph holds a list for each value. -/
  lists : ∀ {v d}, g.value? v = some d → ∃ us, g.Lists v d us

/-- Edges, use lists and operand slots agree. -/
def Coherent (g : Graph) : Prop := g.CoherentFor g.slot?

/-- The walk along the uses of a live value ends where its list does, within the bound that the walk
is given: it begins at the first use of the value, and the last use has none after it. -/
theorem CoherentFor.uses_end {g : Graph} {S : Value × Nat → Option Use} (h : g.CoherentFor S)
    {v : Value} {d : ValueData} (hv : g.value? v = some d) :
    ∃ us, g.uses v = .ok us ∧ us.length ≤ g.slots.size ∧ d.firstUse = us.head? ∧
      ∀ {u}, us.getLast? = some u → ∃ e prev, g.linked? u = some ⟨e, prev, none⟩ := by
  obtain ⟨us, list⟩ := h.lists hv
  exact ⟨us, list.uses_eq hv, list.length_le, list.first, list.last_next⟩

/-! ## Reading back -/

/-- The operand slots of a value in their order. -/
theorem slotsOf_getElem? (g : Graph) (v : Value) (i : Nat) : (g.slotsOf v)[i]? = g.slot? (v, i) := by
  unfold slotsOf slot?
  cases g.value? v <;> simp

/-- A use is one of a value's slots if it is in one of them. -/
theorem mem_slotsOf {g : Graph} {v : Value} {u : Use} :
    u ∈ g.slotsOf v ↔ ∃ i, g.slot? (v, i) = some u := by
  simp [List.mem_iff_getElem?, slotsOf_getElem?]

/-- Changing a value keeps the context. -/
@[simp] theorem ctx_modifyValue (g : Graph) (v : Value) (f : ValueData → ValueData) :
    (g.modifyValue v f).ctx = g.ctx := by
  unfold modifyValue
  split <;> rfl

/-- Linking an edge backward keeps the context. -/
@[simp] theorem ctx_withPrev (g : Graph) (u prev : Option Use) :
    (g.withPrev u prev).ctx = g.ctx := by
  unfold withPrev
  split <;> rfl

/-- Linking an edge forward keeps the context. -/
@[simp] theorem ctx_withNext (g : Graph) (v : Value) (u next : Option Use) :
    (g.withNext v u next).ctx = g.ctx := by
  unfold withNext
  split
  · rfl
  · exact ctx_modifyValue ..

/-- Attaching a use keeps the context. -/
@[simp] theorem ctx_link (g : Graph) (u : Use) (v : Value) : (g.link u v).ctx = g.ctx := by
  simp [link, modifyEdge]

/-- Taking a use out of its list keeps the context. -/
@[simp] theorem ctx_unlink (g : Graph) (u : Use) (v : Value) (prev next : Option Use) :
    (g.unlink u v prev next).ctx = g.ctx := by
  simp [unlink, modifyEdge]

/-- Removing a value keeps the context. -/
@[simp] theorem ctx_drop (g : Graph) (v : Value) : (g.drop v).ctx = g.ctx := by
  unfold drop
  split <;> rfl

/-- Allocating an edge keeps the context. -/
@[simp] theorem ctx_allocate (g : Graph) (user : Value) (n : Nat) :
    (g.allocate user n).2.ctx = g.ctx := by
  unfold allocate
  split <;> rfl

/-- Changing a value creates none. -/
@[simp] theorem size_modifyValue (g : Graph) (v : Value) (f : ValueData → ValueData) :
    (g.modifyValue v f).values.size = g.values.size := by
  unfold modifyValue
  split <;> simp

/-- Linking an edge backward creates no value. -/
@[simp] theorem size_withPrev (g : Graph) (u prev : Option Use) :
    (g.withPrev u prev).values.size = g.values.size := by
  unfold withPrev
  split <;> rfl

/-- Linking an edge forward creates no value. -/
@[simp] theorem size_withNext (g : Graph) (v : Value) (u next : Option Use) :
    (g.withNext v u next).values.size = g.values.size := by
  unfold withNext
  split
  · rfl
  · exact size_modifyValue ..

/-- Attaching a use creates no value. -/
@[simp] theorem size_link (g : Graph) (u : Use) (v : Value) :
    (g.link u v).values.size = g.values.size := by
  simp [link, modifyEdge]

/-- Taking a use out of its list creates no value. -/
@[simp] theorem size_unlink (g : Graph) (u : Use) (v : Value) (prev next : Option Use) :
    (g.unlink u v prev next).values.size = g.values.size := by
  simp [unlink, modifyEdge]

/-- Allocating an edge creates no value. -/
@[simp] theorem size_allocate (g : Graph) (user : Value) (n : Nat) :
    (g.allocate user n).2.values.size = g.values.size := by
  unfold allocate
  dsimp only
  split <;> rfl

/-- Removing a value keeps its place in the arena. -/
@[simp] theorem size_drop (g : Graph) (v : Value) : (g.drop v).values.size = g.values.size := by
  unfold drop
  split <;> simp

/-- Allocating an edge keeps the values. -/
@[simp] theorem value?_allocate (g : Graph) (user : Value) (n : Nat) (v : Value) :
    (g.allocate user n).2.value? v = g.value? v := by
  unfold allocate
  split <;> rfl

/-- Removing a value keeps the links of the edges. -/
@[simp] theorem linked?_drop (g : Graph) (v : Value) (u : Use) :
    (g.drop v).linked? u = g.linked? u := by
  unfold drop
  split <;> rfl

/-- Removing a value keeps the edges. -/
@[simp] theorem edge?_drop (g : Graph) (v : Value) (u : Use) : (g.drop v).edge? u = g.edge? u := by
  simp [edge?]

/-- A slot that is listed as vacant has no edge, whatever the generation asked for. -/
theorem Arena.linked?_of_mem_free {g : Graph} (ha : g.Arena) {u : Use} (h : u.index ∈ g.free) :
    g.linked? u = none := by
  obtain ⟨s, hs, he⟩ := ha.vacant.1 h
  simp [linked?, hs, he]

/-- A vacant place has no edge. -/
theorem Arena.edge?_of_mem_free {g : Graph} (ha : g.Arena) {u : Use} (h : u.index ∈ g.free) :
    g.edge? u = none := by
  rw [edge?, ha.linked?_of_mem_free h]
  rfl

/-- An allocated edge is empty and records its operand slot; the other edges are as they were. -/
theorem Arena.linked?_allocate {g : Graph} (ha : g.Arena) (user : Value) (n : Nat) (w : Use) :
    (g.allocate user n).2.linked? w =
      if w = (g.allocate user n).1 then some ⟨⟨user, n, none⟩, none, none⟩ else g.linked? w := by
  obtain ⟨j, m⟩ := w
  unfold allocate
  split
  · -- Either the place given up last is taken, with its generation, or a place is added with
    -- generation zero.
    rename_i k free hfree
    have hk : k ∈ g.free := by simp [hfree]
    obtain ⟨s, hs, hse⟩ := ha.vacant.1 hk
    by_cases hj : k = j
    · subst hj
      by_cases hm : m = s.gen
      · simp [linked?, Array.getElem?_modify, hs, hm]
      · simp [linked?, Array.getElem?_modify, hs, hm, Ne.symm hm]
    · simp [linked?, Array.getElem?_modify, hj, Ne.symm hj]
  · by_cases hj : j = g.slots.size
    · subst hj
      by_cases hm : m = 0
      · simp [linked?, hm]
      · simp [linked?, hm, Ne.symm hm]
    · simp [linked?, Array.getElem?_push, hj]

/-- The edges after an allocation. -/
theorem Arena.edge?_allocate {g : Graph} (ha : g.Arena) (user : Value) (n : Nat) (w : Use) :
    (g.allocate user n).2.edge? w =
      if w = (g.allocate user n).1 then some ⟨user, n, none⟩ else g.edge? w := by
  rw [edge?, ha.linked?_allocate]
  split <;> rfl

/-- The slot that an allocation takes had no edge. -/
theorem Arena.edge?_allocated {g : Graph} (ha : g.Arena) (user : Value) (n : Nat) :
    g.edge? (g.allocate user n).1 = none := by
  unfold allocate
  split
  · rename_i k free hfree
    exact ha.edge?_of_mem_free (by simp [hfree])
  · simp [edge?, linked?]

/-- A removed edge is gone; the other edges are as they were. -/
theorem linked?_release {g : Graph} {u : Use} {e : Edge} (h : g.edge? u = some e) (w : Use) :
    (g.release u).linked? w = if w = u then none else g.linked? w := by
  obtain ⟨p, q, h⟩ := edge?_eq_some_iff.1 h
  obtain ⟨i, n⟩ := u
  obtain ⟨j, m⟩ := w
  simp only [release, linked?, Array.getElem?_modify, Use.mk.injEq] at h ⊢
  -- A use resolves by its place and its generation, and only this place is changed.
  by_cases hj : i = j
  · subst hj
    cases hs : g.slots[i]? with
    | none => simp
    | some s =>
      have hn : s.gen = n := by
        by_contra hn
        simp [hs, hn] at h
      by_cases hm : m = n
      · simp [hm]
      · simp [hn, hm, Ne.symm hm]
  · simp [hj, Ne.symm hj]

/-- The edges after one has been given up. -/
theorem edge?_release {g : Graph} {u : Use} {e : Edge} (h : g.edge? u = some e) (w : Use) :
    (g.release u).edge? w = if w = u then none else g.edge? w := by
  rw [edge?, linked?_release h]
  split <;> rfl

/-! ## The arena -/

/-- Changing an edge keeps the arena in order. -/
theorem Arena.modifyEdge {g : Graph} (ha : g.Arena) (u : Use) (f : LinkedEdge → LinkedEdge) :
    (g.modifyEdge u f).Arena := by
  refine ⟨ha.nodup, fun {k} => ?_⟩
  have hk := ha.vacant (k := k)
  simp only [Graph.modifyEdge, Array.getElem?_modify]
  by_cases h : u.index = k
  · cases hs : g.slots[k]? <;> simp [hk, h, hs]
  · simpa [h] using hk

/-- Changing a value keeps the arena in order. -/
theorem Arena.modifyValue {g : Graph} (ha : g.Arena) (v : Value) (f : ValueData → ValueData) :
    (g.modifyValue v f).Arena := by
  unfold Graph.modifyValue
  split <;> exact ⟨ha.nodup, ha.vacant⟩

/-- Linking an edge backward keeps the arena in order. -/
theorem Arena.withPrev {g : Graph} (ha : g.Arena) (u prev : Option Use) :
    (g.withPrev u prev).Arena := by
  unfold Graph.withPrev
  split
  · exact ha.modifyEdge _ _
  · exact ha

/-- Linking an edge forward keeps the arena in order. -/
theorem Arena.withNext {g : Graph} (ha : g.Arena) (v : Value) (u next : Option Use) :
    (g.withNext v u next).Arena := by
  unfold Graph.withNext
  split
  · exact ha.modifyEdge _ _
  · exact ha.modifyValue _ _

/-- Attaching a use keeps the arena in order. -/
theorem Arena.link {g : Graph} (ha : g.Arena) (u : Use) (v : Value) : (g.link u v).Arena :=
  ((ha.modifyValue _ _).withPrev _ _).modifyEdge _ _

/-- Taking a use out of its list keeps the arena in order. -/
theorem Arena.unlink {g : Graph} (ha : g.Arena) (u : Use) (v : Value) (prev next : Option Use) :
    (g.unlink u v prev next).Arena :=
  (((ha.modifyEdge _ _).withNext _ _ _).withPrev _ _).modifyValue _ _

/-- Removing a value keeps the arena in order. -/
theorem Arena.drop {g : Graph} (ha : g.Arena) (v : Value) : (g.drop v).Arena := by
  unfold Graph.drop
  split <;> exact ⟨ha.nodup, ha.vacant⟩

/-- Allocating an edge keeps the arena in order. -/
theorem Arena.allocate {g : Graph} (ha : g.Arena) (user : Value) (n : Nat) :
    (g.allocate user n).2.Arena := by
  unfold Graph.allocate
  split
  · -- The slot given up last is no longer listed, and has an edge now.
    rename_i k free hfree
    have hnd := ha.nodup
    rw [hfree, List.nodup_cons] at hnd
    refine ⟨hnd.2, fun {j} => ?_⟩
    have hj := ha.vacant (k := j)
    rw [hfree, List.mem_cons] at hj
    simp only [Array.getElem?_modify]
    by_cases hjk : k = j
    · subst hjk
      cases h : g.slots[k]? <;> simp [hnd.1]
    · simpa [hjk, Ne.symm hjk] using hj
  · -- A slot is added, with an edge.
    refine ⟨ha.nodup, fun {j} => ?_⟩
    simp only [Array.getElem?_push]
    by_cases hj : j = g.slots.size
    · subst hj
      have hnone : g.slots[g.slots.size]? = none := by simp
      rw [ha.vacant, hnone]
      simp
    · rw [ha.vacant]
      simp [hj]

/-- Giving up an edge keeps the arena in order. -/
theorem Arena.release {g : Graph} (ha : g.Arena) {u : Use} {e : Edge} (h : g.edge? u = some e) :
    (g.release u).Arena := by
  have hmem : u.index ∉ g.free := fun hmem => by simp [ha.edge?_of_mem_free hmem] at h
  refine ⟨List.nodup_cons.2 ⟨hmem, ha.nodup⟩, fun {j} => ?_⟩
  simp only [Graph.release, List.mem_cons, Array.getElem?_modify]
  by_cases hj : u.index = j
  · subst hj
    cases hs : g.slots[u.index]? with
    | none => simp [edge?, linked?, hs] at h
    | some s => simp
  · simp [hj, Ne.symm hj, ha.vacant]

/-! ## Elementary changes -/

namespace CoherentFor

variable {g : Graph} {S : Value × Nat → Option Use}

/-- The target of one edge is changed, and the list of the one value `v` that the edge points to,
before or after, is brought in line; uses that point elsewhere stay where they are. -/
theorem retargeted (h : g.CoherentFor S) {g' : Graph} {u : Use} {e : Edge} {t : Option Value}
    {v : Value} {d' : ValueData} {us : List Use} (hu : g.edge? u = some e) (arena : g'.Arena)
    (edge : ∀ x, g'.edge? x = if x = u then some { e with target := t } else g.edge? x)
    (linked : ∀ {x e'}, x ≠ u → g.edge? x = some e' → e'.target ≠ some v →
      g'.linked? x = g.linked? x)
    (value : ∀ w, g'.value? w = if w = v then some d' else g.value? w)
    (before : ∀ w, e.target = some w → w = v) (after : ∀ w, t = some w → w = v)
    (list : g'.Lists v d' us) : g'.CoherentFor S := by
  -- The five parts of coherence in turn; only the last, about the use lists, looks at more than the
  -- one use.
  constructor
  · exact arena
  · intro w i x hx
    obtain ⟨t', ht⟩ := h.owned hx
    by_cases hxu : x = u
    · subst hxu
      obtain rfl : e = ⟨w, i, t'⟩ := by simpa [hu] using ht
      exact ⟨t, by rw [edge, if_pos rfl]⟩
    · exact ⟨t', by rw [edge, if_neg hxu, ht]⟩
  · intro x e' hx
    rw [edge] at hx
    split at hx
    · subst x
      cases hx
      have owner := h.owner hu
      exact owner
    · exact h.owner hx
  · intro x e' w hx ht
    rw [edge] at hx
    rw [value]
    by_cases hwv : w = v
    · exact ⟨_, if_pos hwv⟩
    · rw [if_neg hwv]
      split at hx
      · cases hx
        exact absurd (after w ht) hwv
      · exact h.alive hx ht
  · intro w d₁ hw
    rw [value] at hw
    by_cases hwv : w = v
    · subst hwv
      rw [if_pos rfl] at hw
      cases hw
      exact ⟨us, list⟩
    · rw [if_neg hwv] at hw
      obtain ⟨ws, hlist⟩ := h.lists hw
      refine ⟨ws, hlist.congr rfl rfl (fun x hx => ?_) fun {x e'} hx ht => ?_⟩
      · -- The use points to `w`, and so is not the one that is changed.
        obtain ⟨e', he', ht⟩ := hlist.mem.1 hx
        have hne : e'.target ≠ some v := by
          rw [ht]
          simpa using hwv
        refine linked ?_ he' hne
        rintro rfl
        rw [hu] at he'
        cases he'
        exact hwv (before w ht)
      · rw [edge] at hx
        split at hx
        · cases hx
          exact absurd (after w ht) hwv
        · exact hlist.mem.2 ⟨e', hx, ht⟩

/-- Attaching an empty use to a live value keeps the graph coherent. -/
theorem link (h : g.CoherentFor S) {u : Use} {e : Edge} {v : Value} {d : ValueData}
    (hu : g.edge? u = some e) (he : e.target = none) (hv : g.value? v = some d) :
    (g.link u v).CoherentFor S := by
  obtain ⟨us, hlist⟩ := h.lists hv
  refine h.retargeted hu (h.arena.link u v) (edge?_link v · hu) (hlist.linked?_link_of_ne hv hu)
    (fun w => ?_) ?_ ?_ (hlist.link hv hu he)
  · rw [value?_link, hv]
    rfl
  · simp [he]
  · simp

/-- A use that points to `v` is somewhere in the list of `v`, between the neighbours that it knows.
-/
theorem split (h : g.CoherentFor S) {u : Use} {l : LinkedEdge} {v : Value}
    (hu : g.linked? u = some l) (ht : l.target = some v) :
    ∃ d as bs, g.value? v = some d ∧ g.Lists v d (as ++ u :: bs) ∧ l.prev = as.getLast? ∧
      l.next = bs.head? := by
  obtain ⟨d, hv⟩ := h.alive (edge?_of_linked? hu) ht
  obtain ⟨us, hlist⟩ := h.lists hv
  obtain ⟨as, bs, rfl⟩ := List.append_of_mem (hlist.mem.2 ⟨_, edge?_of_linked? hu, ht⟩)
  obtain ⟨e, he⟩ := hlist.linked _ _ _ rfl
  rw [hu] at he
  cases he
  exact ⟨d, as, bs, hv, hlist, rfl, rfl⟩

/-- Taking a use out of the list it is in keeps the graph coherent. -/
theorem unlink (h : g.CoherentFor S) {u : Use} {l : LinkedEdge} {v : Value}
    (hu : g.linked? u = some l) (ht : l.target = some v) :
    (g.unlink u v l.prev l.next).CoherentFor S := by
  obtain ⟨d, as, bs, hv, hlist, hprev, hnext⟩ := h.split hu ht
  have he := edge?_of_linked? hu
  rw [hprev, hnext]
  refine h.retargeted he (h.arena.unlink u v _ _) (edge?_unlink v _ _ · he)
    (hlist.linked?_unlink_of_ne rfl) (fun w => ?_) ?_ ?_ (hlist.unlink rfl)
  · rw [value?_unlink, hv]
    rfl
  · simp [ht]
  · simp

/-- A change of a value's data that keeps its uses. -/
theorem modifyValue (h : g.CoherentFor S) (v : Value) {f : ValueData → ValueData}
    (first : ∀ d, (f d).firstUse = d.firstUse) (count : ∀ d, (f d).numUses = d.numUses) :
    (g.modifyValue v f).CoherentFor S := by
  constructor
  · exact h.arena.modifyValue v f
  · intro w i x hx
    simpa using h.owned hx
  · intro x e hx
    exact h.owner (by simpa using hx)
  · -- Edges and slots are as before, so the first three parts are too.
    intro x e w hx ht
    obtain ⟨d, hd⟩ := h.alive (by simpa using hx) ht
    rw [value?_modifyValue]
    split
    · subst w
      exact ⟨f d, by rw [hd]; rfl⟩
    · exact ⟨d, hd⟩
  · intro w d' hw
    rw [value?_modifyValue] at hw
    -- The data after the change has the uses of data before it.
    have back : ∃ d, g.value? w = some d ∧ d'.firstUse = d.firstUse ∧ d'.numUses = d.numUses := by
      split at hw
      · subst w
        obtain ⟨d, hd, rfl⟩ := Option.map_eq_some_iff.1 hw
        exact ⟨d, hd, first d, count d⟩
      · exact ⟨d', hw, rfl, rfl⟩
    obtain ⟨d, hd, hfirst, hcount⟩ := back
    obtain ⟨us, hlist⟩ := h.lists hd
    refine ⟨us, hlist.congr hfirst hcount (by simp) fun {x e} hx ht => ?_⟩
    exact hlist.mem.2 ⟨e, by simpa using hx, ht⟩

/-- A new value is not used yet. -/
theorem push (h : g.CoherentFor S) {d : ValueData} (first : d.firstUse = none)
    (count : d.numUses = 0) : (g.push d).2.CoherentFor S := by
  have fresh : g.value? (g.push d).1 = none := by simp [value?, Graph.push]
  constructor
  · exact ⟨h.arena.nodup, h.arena.vacant⟩
  · exact h.owned
  · exact h.owner
  · -- What was alive is so after a push.
    intro x e w hx ht
    obtain ⟨d', hd'⟩ := h.alive hx ht
    rw [value?_push]
    split
    · exact ⟨d, rfl⟩
    · exact ⟨d', hd'⟩
  · intro w d' hw
    rw [value?_push] at hw
    split at hw
    · -- No edge points to a value that is not alive.
      subst w
      cases hw
      refine ⟨[], first, by simp, ?_, List.nodup_nil, count⟩
      intro x
      constructor
      · intro hx
        simp at hx
      · rintro ⟨e, hx, ht⟩
        obtain ⟨d', hd'⟩ := h.alive hx ht
        simp [fresh] at hd'
    · obtain ⟨us, hlist⟩ := h.lists hw
      exact ⟨us, hlist.congr rfl rfl (fun _ _ => rfl) fun {x e} hx ht => hlist.mem.2 ⟨e, hx, ht⟩⟩

/-- A value counts no uses exactly when no edge points to it. -/
theorem unused_iff (h : g.CoherentFor S) {v : Value} {d : ValueData} (hv : g.value? v = some d) :
    d.numUses = 0 ↔ ∀ u e, g.edge? u = some e → e.target ≠ some v := by
  obtain ⟨us, hlist⟩ := h.lists hv
  rw [hlist.count, List.length_eq_zero_iff, List.eq_nil_iff_forall_not_mem]
  simp [hlist.mem]

/-- A value without uses can go. -/
theorem drop (h : g.CoherentFor S) {v : Value} {d : ValueData} (hv : g.value? v = some d)
    (unused : d.numUses = 0) : (g.drop v).CoherentFor S := by
  constructor
  · exact h.arena.drop v
  · intro w i x hx
    simpa using h.owned hx
  · intro x e hx
    exact h.owner (by simpa using hx)
  · intro x e w hx ht
    rw [edge?_drop] at hx
    rw [value?_drop, if_neg]
    · exact h.alive hx ht
    · -- The value is unused, so no edge has it as its target.
      rintro rfl
      exact (h.unused_iff hv).1 unused x e hx ht
  · intro w d' hw
    rw [value?_drop] at hw
    split at hw
    · cases hw
    · obtain ⟨us, hlist⟩ := h.lists hw
      refine ⟨us, hlist.congr rfl rfl (by simp) fun {x e} hx ht => ?_⟩
      exact hlist.mem.2 ⟨e, by simpa using hx, ht⟩

/-- An operand slot that has no use yet gets one. -/
theorem allocate (h : g.CoherentFor S) {v : Value} {i : Nat} (hS : S (v, i) = none) :
    (g.allocate v i).2.CoherentFor (Function.update S (v, i) (some (g.allocate v i).1)) := by
  have edge := h.arena.edge?_allocate v i
  have fresh := h.arena.edge?_allocated v i
  -- An edge that was there is not the new one.
  have old : ∀ {x e}, g.edge? x = some e → x ≠ (g.allocate v i).1 := by
    rintro x e hx rfl
    simp [fresh] at hx
  constructor
  · exact h.arena.allocate v i
  · intro w j x hx
    -- The slot of the new edge had none, and the other slots are untouched.
    by_cases hp : (w, j) = (v, i)
    · cases hp
      rw [Function.update_self] at hx
      cases hx
      exact ⟨none, by rw [edge, if_pos rfl]⟩
    · rw [Function.update_of_ne hp] at hx
      obtain ⟨t, ht⟩ := h.owned hx
      exact ⟨t, by rw [edge, if_neg (old ht), ht]⟩
  · intro x e hx
    rw [edge] at hx
    split at hx
    · subst x
      cases hx
      exact Function.update_self ..
    · have hp : (e.user, e.operandNo) ≠ (v, i) := by
        intro hp
        simp [← hp, h.owner hx] at hS
      rw [Function.update_of_ne hp]
      exact h.owner hx
  · -- The new edge points nowhere.
    intro x e w hx ht
    rw [edge] at hx
    split at hx
    · cases hx
      cases ht
    · simpa using h.alive hx ht
  · intro w d hw
    rw [value?_allocate] at hw
    obtain ⟨us, hlist⟩ := h.lists hw
    refine ⟨us, hlist.congr rfl rfl (fun x hx => ?_) fun {x e} hx ht => ?_⟩
    · obtain ⟨e, he⟩ := hlist.alive hx
      rw [h.arena.linked?_allocate, if_neg (old he)]
    · rw [edge] at hx
      split at hx
      · cases hx
        cases ht
      · exact hlist.mem.2 ⟨e, hx, ht⟩

/-- The edge of an empty operand slot is given up, and the slot is left without a use. -/
theorem release (h : g.CoherentFor S) {u : Use} {v : Value} {i : Nat}
    (hu : g.edge? u = some ⟨v, i, none⟩) :
    (g.release u).CoherentFor (Function.update S (v, i) none) := by
  have edge := edge?_release hu
  have hS : S (v, i) = some u := h.owner hu
  constructor
  · exact h.arena.release hu
  · intro w j x hx
    -- The slot of the edge is empty now, and the other slots are untouched.
    by_cases hp : (w, j) = (v, i)
    · cases hp
      rw [Function.update_self] at hx
      cases hx
    · rw [Function.update_of_ne hp] at hx
      obtain ⟨t, ht⟩ := h.owned hx
      have hxu : x ≠ u := by
        rintro rfl
        simp_all
      exact ⟨t, by rw [edge, if_neg hxu, ht]⟩
  · -- No other edge was recorded for this slot.
    intro x e hx
    rw [edge] at hx
    split at hx
    · cases hx
    · have hp : (e.user, e.operandNo) ≠ (v, i) := by
        intro hp
        have := h.owner hx
        simp_all
      rw [Function.update_of_ne hp]
      exact h.owner hx
  · intro x e w hx ht
    rw [edge] at hx
    split at hx
    · cases hx
    · exact h.alive hx ht
  · intro w d hw
    obtain ⟨us, hlist⟩ := h.lists hw
    refine ⟨us, hlist.congr rfl rfl (fun x hx => ?_) fun {x e} hx ht => ?_⟩
    · -- The edge that is given up points nowhere.
      obtain ⟨e, he, ht⟩ := hlist.mem.1 hx
      rw [linked?_release hu, if_neg]
      rintro rfl
      rw [hu] at he
      cases he
      cases ht
    · rw [edge] at hx
      split at hx
      · cases hx
      · exact hlist.mem.2 ⟨e, hx, ht⟩

end CoherentFor

/-- An edge is that of a slot of the value that it records as its user, and of no other. -/
theorem Coherent.mem_slotsOf_iff {g : Graph} (hc : g.Coherent) {u : Use} {e : Edge} {v : Value}
    (hu : g.edge? u = some e) : u ∈ g.slotsOf v ↔ e.user = v := by
  rw [mem_slotsOf]
  constructor
  · rintro ⟨i, hi⟩
    obtain ⟨t, ht⟩ := hc.owned hi
    rw [hu] at ht
    cases ht
    rfl
  · rintro rfl
    exact ⟨e.operandNo, hc.owner hu⟩

/-- An operand slot belongs to one value only. -/
theorem Coherent.eq_of_mem_slotsOf {g : Graph} (hc : g.Coherent) {u : Use} {v w : Value}
    (hv : u ∈ g.slotsOf v) (hw : u ∈ g.slotsOf w) : v = w := by
  obtain ⟨i, hi⟩ := mem_slotsOf.1 hv
  obtain ⟨t, ht⟩ := hc.owned hi
  exact (hc.mem_slotsOf_iff ht).1 hw

/-- A new graph has nothing to disagree about. -/
theorem coherent_initial (ctx : ContextId) : (initial ctx).Coherent := by
  have no_value : ∀ v, (initial ctx).value? v = none := by simp [value?, initial]
  have no_edge : ∀ u, (initial ctx).edge? u = none := by simp [edge?, linked?, initial]
  constructor
  · exact ⟨List.nodup_nil, by simp [initial]⟩
  all_goals simp [slot?, no_value, no_edge]

end Graph

end SsaGraph
