import SsaGraph.Proofs.Course

/-!
# The order of use lists

A log lists the operand slots that were attached, one after the other; a slot that was attached
again is listed again. `Ordered g log` says that the use lists of the graph follow the log: every
slot that points somewhere is in the log, and of two uses in one list the slot of the earlier one
was attached last at a later time.

Only attaching adds to the log: the use enters at the head of its list, so that its slot is the
latest (`Ordered.link`). Everything else thins the lists out at most (`Thins`): what remains of a
list is in the order it was in, and no use comes to point anywhere. The results for the operations
of the graph are put together from these two.
-/

namespace SsaGraph

/-! ## Logs -/

/-- The last time that an operand slot was attached. -/
def LastAt (log : List (Value × Nat)) (slot : Value × Nat) (time : Nat) : Prop :=
  log[time]? = some slot ∧ ∀ later, time < later → log[later]? ≠ some slot

/-- The first of the slots was attached last at a later time than the second. -/
def AttachedAfter (log : List (Value × Nat)) (x y : Value × Nat) : Prop :=
  ∃ s t, LastAt log x s ∧ LastAt log y t ∧ t < s

section Logs

variable {log : List (Value × Nat)} {x y slot : Value × Nat} {time : Nat}

/-- What was attached last at a time is in the log. -/
theorem LastAt.lt (h : LastAt log x time) : time < log.length :=
  (List.getElem?_eq_some_iff.1 h.1).1

/-- What has just been attached was attached last at the end. -/
theorem lastAt_append_self (log : List (Value × Nat)) (slot : Value × Nat) :
    LastAt (log ++ [slot]) slot log.length := by
  refine ⟨by simp, fun later hlater => ?_⟩
  rw [List.getElem?_eq_none (by simp; omega)]
  exact (Option.some_ne_none _).symm

/-- An attachment of another slot changes nothing. -/
theorem LastAt.append (h : LastAt log x time) (hne : x ≠ slot) :
    LastAt (log ++ [slot]) x time := by
  have hlt := h.lt
  refine ⟨by rw [List.getElem?_append_left hlt, h.1], fun later hlater => ?_⟩
  rcases Nat.lt_trichotomy later log.length with hl | hl | hl
  · rw [List.getElem?_append_left hl]
    exact h.2 later hlater
  · rw [hl, List.getElem?_concat_length]
    intro heq
    exact hne (Option.some.inj heq).symm
  · rw [List.getElem?_eq_none (by simp; omega)]
    exact (Option.some_ne_none _).symm

/-- An attachment of a third slot changes no order. -/
theorem AttachedAfter.append (h : AttachedAfter log x y) (hx : x ≠ slot) (hy : y ≠ slot) :
    AttachedAfter (log ++ [slot]) x y := by
  obtain ⟨s, t, hs, ht, hlt⟩ := h
  exact ⟨s, t, hs.append hx, ht.append hy, hlt⟩

/-- What is attached now is attached after everything else. -/
theorem attachedAfter_append (hy : LastAt log y time) (hne : y ≠ slot) :
    AttachedAfter (log ++ [slot]) slot y :=
  ⟨log.length, time, lastAt_append_self log slot, hy.append hne, hy.lt⟩

end Logs

/-- The operand slot that an edge records. -/
def Edge.slot (e : Edge) : Value × Nat := (e.user, e.operandNo)

namespace Graph

variable {g g' : Graph} {S : Value × Nat → Option Use} {log : List (Value × Nat)}

/-- The use lists follow the log. -/
structure Ordered (g : Graph) (log : List (Value × Nat)) : Prop where
  /-- What points somewhere has been attached. -/
  attached : ∀ {u e v}, g.edge? u = some e → e.target = some v → ∃ t, LastAt log e.slot t
  /-- What was attached later comes first. -/
  newest : ∀ {v d us}, g.value? v = some d → g.Lists v d us →
    us.Pairwise fun x y => ∀ e e', g.edge? x = some e → g.edge? y = some e' →
      AttachedAfter log e.slot e'.slot

/-- A new graph is ordered by the empty log. -/
theorem ordered_initial (ctx : ContextId) : (Graph.initial ctx).Ordered [] := by
  refine ⟨fun {u e v} he _ => ?_, fun {v d us} hv _ => ?_⟩
  · simp [edge?, linked?, Graph.initial] at he
  · simp [value?, Graph.initial] at hv

/-- A value has one use list. -/
theorem Lists.unique {v : Value} {d : ValueData} {us us' : List Use} (h : g.Lists v d us)
    (h' : g.Lists v d us') (hv : g.value? v = some d) : us = us' := by
  have heq := (h.uses_eq hv).symm.trans (h'.uses_eq hv)
  exact Except.ok.inj heq

/-! ## Thinning out -/

/-- No use comes to point anywhere, and what remains of a list is in order. -/
structure Thins (g g' : Graph) : Prop where
  /-- What points somewhere did so before. -/
  edge : ∀ {u e v}, g'.edge? u = some e → e.target = some v → g.edge? u = some e
  /-- A list that is not empty is a part of the one before. -/
  lists : ∀ {v d' us'}, g'.value? v = some d' → g'.Lists v d' us' → us' ≠ [] →
    ∃ d us, g.value? v = some d ∧ g.Lists v d us ∧ us'.Sublist us

/-- A graph that only loses uses stays ordered by the same log. -/
theorem Ordered.thins (ho : g.Ordered log) (h : g.Thins g') : g'.Ordered log := by
  refine ⟨fun he ht => ho.attached (h.edge he ht) ht, fun {v d' us'} hv hlist => ?_⟩
  by_cases hnil : us' = []
  · rw [hnil]
    exact .nil
  · obtain ⟨d, us, hd, hus, sub⟩ := h.lists hv hlist hnil
    have old := (ho.newest hd hus).sublist sub
    refine old.imp_of_mem fun {x y} hx hy after e e' he he' => ?_
    -- The uses in the list point to the value, so they did so before.
    obtain ⟨e₁, he₁, ht⟩ := hlist.mem.1 hx
    obtain ⟨e₂, he₂, ht'⟩ := hlist.mem.1 hy
    rw [he] at he₁
    rw [he'] at he₂
    cases he₁
    cases he₂
    exact after e e' (h.edge he ht) (h.edge he' ht')

namespace Thins

/-- Some uses are emptied and some values gone. -/
theorem of_reduced {emptied : List Use} {gone : List Value} (hc : g.CoherentFor S)
    (h : g.Reduced g' emptied gone) : g.Thins g' := by
  refine ⟨fun {u e v} he ht => ?_, fun {v d' us'} hv hlist _ => ?_⟩
  · have hout : u ∉ emptied := by
      intro hmem
      rw [h.empty hmem he] at ht
      cases ht
    rw [← h.edge hout, he]
  · obtain ⟨hout, d, hd, -⟩ := h.value?_of_value? hv
    obtain ⟨us, hus⟩ := hc.lists hd
    obtain ⟨d'', hd'', hfilter⟩ := h.lists hout hd hus
    rw [hv] at hd''
    cases hd''
    refine ⟨d, us, hd, hus, ?_⟩
    rw [hlist.unique hfilter hv]
    exact List.filter_sublist

/-- All edges keep their neighbours, and new ones and new values point nowhere and are not pointed
to. -/
theorem of_linked (hc : g.CoherentFor S)
    (linked : ∀ {u l}, g.linked? u = some l → g'.linked? u = some l)
    (edge : ∀ {u e v}, g'.edge? u = some e → e.target = some v → g.edge? u = some e)
    (value : ∀ {v d'}, g'.value? v = some d' →
      d'.firstUse = none ∨
      ∃ d, g.value? v = some d ∧ d'.firstUse = d.firstUse ∧ d'.numUses = d.numUses) :
    g.Thins g' := by
  -- A use list of the new graph is either empty or the one that the value had.
  refine ⟨edge, fun {v d' us'} hv hlist hne => ?_⟩
  rcases value hv with hfirst | ⟨d, hd, hfirst, hcount⟩
  · rw [hlist.first, List.head?_eq_none_iff] at hfirst
    exact absurd hfirst hne
  · obtain ⟨us, hus⟩ := hc.lists hd
    -- All uses of the old list have their links, so it is still the list.
    have kept : g'.Lists v d' us := by
      refine hus.congr hfirst hcount (fun u hu => ?_) fun hu ht => hus.mem.2 ⟨_, edge hu ht, ht⟩
      obtain ⟨e, he⟩ := hus.alive hu
      obtain ⟨prev, next, hl⟩ := edge?_eq_some_iff.1 he
      rw [hl, linked hl]
    rw [hlist.unique kept hv]
    exact ⟨d, us, hd, hus, List.Sublist.refl us⟩

/-- Changing a value outside its use list loses no order. -/
theorem modifyValue (hc : g.CoherentFor S) (v : Value) {f : ValueData → ValueData}
    (first : ∀ d, (f d).firstUse = d.firstUse) (count : ∀ d, (f d).numUses = d.numUses) :
    g.Thins (g.modifyValue v f) := by
  refine of_linked hc (fun hl => ?_) (fun he _ => ?_) fun {w d'} hw => .inr ?_
  · rw [linked?_modifyValue, hl]
  · rwa [edge?_modifyValue] at he
  · rw [value?_modifyValue] at hw
    split at hw
    · subst w
      obtain ⟨d, hd, rfl⟩ := Option.map_eq_some_iff.1 hw
      exact ⟨d, hd, first d, count d⟩
    · exact ⟨d', hw, rfl, rfl⟩

/-- Creating a value loses no order. -/
theorem push (hc : g.CoherentFor S) {d : ValueData} (first : d.firstUse = none) :
    g.Thins (g.push d).2 := by
  refine of_linked hc id (fun he _ => he) fun {w d'} hw => ?_
  rw [value?_push] at hw
  split at hw
  · cases hw
    exact .inl first
  · exact .inr ⟨d', hw, rfl, rfl⟩

/-- Allocating an edge loses no order. -/
theorem allocate (hc : g.CoherentFor S) (user : Value) (i : Nat) :
    g.Thins (g.allocate user i).2 := by
  have fresh := hc.arena.edge?_allocated user i
  refine of_linked hc (fun {u l} hl => ?_) (fun {u e v} he ht => ?_) fun {w d'} hw => .inr ?_
  · rw [hc.arena.linked?_allocate, if_neg, hl]
    rintro rfl
    rw [edge?_of_linked? hl] at fresh
    cases fresh
  · rw [hc.arena.edge?_allocate] at he
    split at he
    · cases he
      cases ht
    · exact he
  · rw [value?_allocate] at hw
    exact ⟨d', hw, rfl, rfl⟩

end Thins

/-- A quiet change only loses uses. -/
theorem Quiet.thins (hc : g.Coherent) (h : g.Quiet g') : g.Thins g' := by
  cases h with
  | create h =>
    cases h with
    | value ty name kind => exact .push hc rfl
  | trim h =>
    cases h with
    | clear edge => exact .of_reduced hc (.clear hc edge)
    | rename v name => exact .modifyValue hc v (fun _ => rfl) fun _ => rfl
    | touch data alike => exact .modifyValue hc _ (fun _ => rfl) fun _ => rfl
    | remove run => exact .of_reduced hc (removeValue_reduced hc run).2

/-- Quiet changes keep a graph ordered by the same log. -/
theorem Ordered.quiets (ho : g.Ordered log) (hc : g.Coherent)
    (h : Relation.ReflTransGen Quiet g g') : g'.Ordered log := by
  induction h with
  | refl => exact ho
  | tail chain step ih => exact ih.thins (step.thins (hc.quiets chain))

/-! ## Attaching -/

/-- Different uses have different operand slots. -/
theorem CoherentFor.slot_ne (hc : g.CoherentFor S) {x y : Use} {e e' : Edge}
    (hx : g.edge? x = some e) (hy : g.edge? y = some e') (hne : x ≠ y) : e.slot ≠ e'.slot := by
  intro heq
  have hslot := hc.owner hx
  rw [← Edge.slot, heq, Edge.slot, hc.owner hy] at hslot
  exact hne (Option.some.inj hslot).symm

/-- Linking a use to one value leaves the lists of the others. -/
theorem Lists.link_other {v w : Value} {d d' : ValueData} {us ws : List Use} {u : Use} {e : Edge}
    (h : g.Lists v d us) (hv : g.value? v = some d) (hu : g.edge? u = some e)
    (he : e.target = none) (hne : w ≠ v) (hlist : g.Lists w d' ws) : (g.link u v).Lists w d' ws := by
  refine hlist.congr rfl rfl (fun x hx => ?_) fun {x e'} hx ht => ?_
  · obtain ⟨e', he', ht⟩ := hlist.mem.1 hx
    refine h.linked?_link_of_ne hv hu ?_ he' (by rw [ht]; simpa using hne)
    rintro rfl
    rw [hu] at he'
    cases he'
    rw [he] at ht
    cases ht
  · rw [edge?_link v x hu] at hx
    split at hx
    · cases hx
      exact absurd (Option.some.inj ht).symm hne
    · exact hlist.mem.2 ⟨e', hx, ht⟩

/-- An empty use that is attached is the latest. -/
theorem Ordered.link (ho : g.Ordered log) (hc : g.Coherent) {u : Use} {e : Edge} {v : Value}
    {d : ValueData} (hu : g.edge? u = some e) (he : e.target = none) (hv : g.value? v = some d) :
    (g.link u v).Ordered (log ++ [e.slot]) := by
  have hedge := fun x => edge?_link v x hu
  obtain ⟨us, hus⟩ := hc.lists hv
  -- Uses that were attached before are so still, at the same times.
  have earlier : ∀ {x y : Use} {e₁ e₂ : Edge}, x ≠ u → y ≠ u → (g.link u v).edge? x = some e₁ →
      (g.link u v).edge? y = some e₂ →
      (∀ e e', g.edge? x = some e → g.edge? y = some e' → AttachedAfter log e.slot e'.slot) →
      AttachedAfter (log ++ [e.slot]) e₁.slot e₂.slot := by
    intro x y e₁ e₂ hx hy h₁ h₂ after
    rw [hedge, if_neg hx] at h₁
    rw [hedge, if_neg hy] at h₂
    exact (after e₁ e₂ h₁ h₂).append (hc.slot_ne h₁ hu hx) (hc.slot_ne h₂ hu hy)
  -- First that every use is in the log, and then the order of the lists.
  refine ⟨fun {x e' w} hx ht => ?_, fun {w d' ws} hw hlist => ?_⟩
  · rw [hedge] at hx
    split at hx
    · cases hx
      exact ⟨_, lastAt_append_self log e.slot⟩
    · rename_i hxu
      obtain ⟨t, hlast⟩ := ho.attached hx ht
      exact ⟨t, hlast.append (hc.slot_ne hx hu hxu)⟩
  · -- The list of `v` gets the use at its head, and every other list is as before.
    by_cases hwv : w = v
    · subst hwv
      have hlink := hus.link hv hu he
      rw [value?_link, if_pos rfl, hv, Option.map_some, Option.some_inj] at hw
      subst hw
      have hvalue : (g.link u w).value? w =
          some { d with firstUse := some u, numUses := d.numUses + 1 } := by
        rw [value?_link, if_pos rfl, hv, Option.map_some]
      obtain rfl := hlist.unique hlink hvalue
      have hout : u ∉ us := (List.nodup_cons.1 hlist.nodup).1
      -- The new use is attached after all others, which keep their order among themselves.
      refine List.pairwise_cons.2 ⟨fun y hy e₁ e₂ h₁ h₂ => ?_, ?_⟩
      · have hyu : y ≠ u := by
          rintro rfl
          exact hout hy
        obtain ⟨e', he', ht⟩ := hus.mem.1 hy
        obtain ⟨t, hlast⟩ := ho.attached he' ht
        rw [hedge, if_pos rfl] at h₁
        rw [hedge, if_neg hyu, he'] at h₂
        cases h₁
        cases h₂
        exact attachedAfter_append hlast (hc.slot_ne he' hu hyu)
      · refine (ho.newest hv hus).imp_of_mem fun {x y} hx hy after e₁ e₂ h₁ h₂ => ?_
        refine earlier ?_ ?_ h₁ h₂ after
        · rintro rfl
          exact hout hx
        · rintro rfl
          exact hout hy
    · rw [value?_link, if_neg hwv] at hw
      obtain ⟨ws', hws'⟩ := hc.lists hw
      have hvalue : (g.link u v).value? w = some d' := by rw [value?_link, if_neg hwv, hw]
      obtain rfl := hlist.unique (hus.link_other hv hu he hwv hws') hvalue
      refine (ho.newest hw hws').imp_of_mem fun {x y} hx hy after e₁ e₂ h₁ h₂ => ?_
      -- The use that is attached was empty, so it is in no list.
      have hout : u ∉ ws := by
        intro hmem
        obtain ⟨e', he', ht⟩ := hws'.mem.1 hmem
        rw [hu] at he'
        cases he'
        rw [he] at ht
        cases ht
      refine earlier ?_ ?_ h₁ h₂ after
      · rintro rfl
        exact hout hx
      · rintro rfl
        exact hout hy

/-- A use is emptied and attached again, also if to the value it pointed to. -/
theorem Ordered.retarget (ho : g.Ordered log) (hc : g.Coherent) {u : Use} {e : Edge} {v : Value}
    {d : ValueData} (hu : g.edge? u = some e) (hv : g.value? v = some d) :
    (g.retarget u v).Ordered (log ++ [e.slot]) := by
  have cleared := ho.thins (.of_reduced hc (.clear hc hu))
  have hu' : (g.clear u).edge? u = some { e with target := none } := by
    rw [edge?_clear hu, if_pos rfl]
  obtain ⟨d', hd'⟩ := (alive_congr (bare?_clear g u v)).2 ⟨d, hv⟩
  have linked := cleared.link (hc.clear u) hu' rfl hd'
  exact linked

/-! ## The operations of the graph -/

/-- Setting an operand attaches its slot, if it is set to something. -/
theorem setOperand_ordered (ho : g.Ordered log) (hc : g.Coherent) {user : Value} {index : Nat}
    {target : Option Value} {a : Unit} (run : setOperand user index target g = .ok a g') :
    g'.Ordered (log ++ target.toList.map fun _ => (user, index)) := by
  obtain ⟨d, u, e, hd, -, hu, he, effect⟩ := setOperand_ok run
  have hslot : g.slot? (user, index) = some u := by simp [slot?, hd, hu]
  obtain ⟨t, ht⟩ := hc.owned hslot
  rw [he] at ht
  cases ht
  cases target with
  | none =>
    rw [effect]
    simpa using ho.thins (.of_reduced hc (.clear hc he))
  | some v =>
    obtain ⟨⟨d', hd'⟩, rfl⟩ := effect
    exact ho.retarget hc he hd'

/-- A new slot comes after the others and is attached. -/
theorem pushOperand_ordered (ho : g.Ordered log) (hc : g.Coherent) {user target : Value} {a : Unit}
    (run : pushOperand user target g = .ok a g') :
    g'.Ordered (log ++ [(user, (g.slotsOf user).length)]) := by
  simp only [pushOperand, Run.bind_eq_ok_iff, Run.get_apply, Run.faulting_eq_ok_iff,
    Run.guard_eq_ok_iff, Run.modifyGet_apply, Run.modify_apply, value_eq_ok_iff] at run
  obtain ⟨_, _, h₀, d, _, ⟨hd, rfl⟩, -, u, _, h₁, _, _, h₂, run⟩ := run
  cases h₀
  cases h₁
  cases h₂
  obtain ⟨hc₂, -, hedge, -, -⟩ := extend_coherent hc hd
  obtain ⟨⟨d', hd'⟩, -, rfl⟩ := attach_ok run
  have hS : g.slot? (user, d.operands.length) = none := by simp [slot?, hd]
  have allocated := ho.thins (.allocate hc user d.operands.length)
  have hlen : (g.slotsOf user).length = d.operands.length := by simp [slotsOf, hd]
  rw [hlen]
  refine Ordered.link ?_ hc₂ hedge rfl hd'
  exact allocated.thins (.modifyValue (hc.allocate hS) user (fun _ => rfl) fun _ => rfl)

/-- Adding an operand adds one slot. -/
theorem length_slotsOf_of_pushOperand (hc : g.Coherent) {user target : Value} {a : Unit}
    (run : pushOperand user target g = .ok a g') :
    (g'.slotsOf user).length = (g.slotsOf user).length + 1 := by
  obtain ⟨-, -, ⟨d, hd, -⟩, -, node⟩ := pushOperand_ok hc run
  have hn := node user
  rw [if_pos rfl, node?_of_value? hd, Option.map_some] at hn
  obtain ⟨d', hd', heq⟩ := value?_of_node? hn
  have hlen := congrArg (fun n : Node => n.operands.length) heq
  simp only [List.length_append, List.length_map, List.length_cons, List.length_nil] at hlen
  simp [slotsOf, hd, hd', ← hlen]

/-- The uses of the list are visited in order, and each is attached anew. -/
theorem swapAll_ordered {new : Value} (us : List Use) (ho : g.Ordered log) (hc : g.Coherent)
    (alive : ∀ u ∈ us, ∃ e, g.edge? u = some e) {a : Unit}
    (run : (us.forM fun u => do detach u; attach u new : Run Graph Unit) g = .ok a g') :
    g'.Ordered (log ++ us.filterMap fun u => (g.edge? u).map Edge.slot) := by
  -- On the uses: each round appends the slot of its use to the log.
  induction us generalizing g log with
  | nil =>
    cases run
    simpa using ho
  | cons u us ih =>
    obtain ⟨e, he⟩ := alive u (List.mem_cons_self ..)
    rw [List.forM_eq_forM, List.forM_cons] at run
    obtain ⟨_, g₁, first, rest⟩ := Run.bind_eq_ok_iff.1 run
    obtain ⟨⟨d, hd⟩, rfl⟩ := swap_ok first
    have hedge := edge?_retarget he new
    -- Being pointed elsewhere does not change what slot a use is of.
    have hslot : ∀ x, ((g.retarget u new).edge? x).map Edge.slot = (g.edge? x).map Edge.slot := by
      intro x
      rw [hedge]
      split
      · subst x
        rw [he]
        rfl
      · rfl
    have := ih (ho.retarget hc he hd) (hc.retarget he hd) (fun x hx => ?_) rest
    · simpa [hslot, he] using this
    · rw [hedge]
      split
      · exact ⟨_, rfl⟩
      · exact alive x (List.mem_cons_of_mem u hx)

/-- Replacing all uses attaches the slots of the uses in the order of the list. -/
theorem replaceAllUses_ordered (ho : g.Ordered log) (hc : g.Coherent) {old new : Value} {a : Unit}
    (hne : old ≠ new) (run : replaceAllUses old new g = .ok a g') :
    ∃ us, g.uses old = .ok us ∧
      g'.Ordered (log ++ us.filterMap fun u => (g.edge? u).map Edge.slot) := by
  unfold replaceAllUses at run
  rw [if_neg hne] at run
  simp only [Run.bind_eq_ok_iff, Run.get_apply, Run.faulting_eq_ok_iff, Run.guard_eq_ok_iff,
    value_eq_ok_iff] at run
  obtain ⟨_, _, h₀, d, _, ⟨hd, rfl⟩, _, _, h₁, d', _, ⟨-, rfl⟩, -, run⟩ := run
  cases h₀
  cases h₁
  obtain ⟨us, hus⟩ := hc.lists hd
  rw [hus.count, whileUsed_swap_eq hne ⟨hc, d, hd, hus⟩] at run
  exact ⟨us, hus.uses_eq hd, swapAll_ordered us ho hc (fun u hu => hus.alive hu) run⟩

/-- The operand slots from a number on that get a value, in order. -/
def filledFrom (v : Value) (first : Nat) (operands : List (Option Value)) : List (Value × Nat) :=
  (operands.zipIdx first).filterMap fun p => p.1.map fun _ => (v, p.2)

/-- The operands of a new user are attached in the order of its slots. -/
theorem attachAll_ordered {v : Value} (operands : List (Option Value)) {us : List Use} {first : Nat}
    (ho : g.Ordered log) (hc : g.Coherent)
    (empty : ∀ i u, us[i]? = some u → g.edge? u = some ⟨v, first + i, none⟩) (nodup : us.Nodup)
    (length : us.length = operands.length) {a : Unit}
    (run : attachAll (us.zip operands) g = .ok a g') :
    g'.Ordered (log ++ filledFrom v first operands) := by
  -- On the operands, with the number of the first slot: the log gets the slots that are filled.
  induction operands generalizing g log us first with
  | nil =>
    rw [List.zip_nil_right] at run
    cases run
    simpa [filledFrom] using ho
  | cons operand operands ih =>
    cases us with
    | nil => cases length
    | cons u us =>
      obtain ⟨hout, nodup⟩ := List.nodup_cons.1 nodup
      have hu := empty 0 u rfl
      rw [List.zip_cons_cons, attachAll, List.forM_eq_forM, List.forM_cons] at run
      obtain ⟨_, g₁, head, rest⟩ := Run.bind_eq_ok_iff.1 run
      have tail : ∀ i x, us[i]? = some x → g.edge? x = some ⟨v, first + 1 + i, none⟩ := by
        intro i x hx
        rw [Nat.add_assoc, Nat.add_comm 1 i]
        exact empty (i + 1) x hx
      cases operand with
      -- An empty operand leaves no trace, neither in the graph nor in the log.
      | none =>
        cases head
        have := ih ho hc tail nodup (Nat.succ.inj length) rest
        simpa [filledFrom] using this
      | some w =>
        -- A filled one is linked, and the slots after it stay empty.
        obtain ⟨⟨d, hd⟩, -, rfl⟩ := attach_ok head
        have tail' : ∀ i x, us[i]? = some x →
            (g.link u w).edge? x = some ⟨v, first + 1 + i, none⟩ := by
          intro i x hx
          rw [edge?_link w x hu, if_neg]
          · exact tail i x hx
          · rintro rfl
            exact hout (List.mem_iff_getElem?.2 ⟨i, hx⟩)
        have := ih (ho.link hc hu rfl hd) (hc.link hu rfl hd) tail' nodup (Nat.succ.inj length) rest
        simpa [filledFrom, Edge.slot] using this

/-- Handing out edges and creating their instruction attaches nothing. -/
theorem Ordered.allocateMany {user : Value} (count : Nat) {first : Nat} (ho : g.Ordered log)
    (hc : g.CoherentFor S) (hS : ∀ j, first ≤ j → S (user, j) = none) :
    (allocateMany user first count g).2.Ordered log := by
  induction count generalizing first g S with
  | zero => exact ho
  | succ count ih =>
    refine ih (ho.thins (.allocate hc user first)) (hc.allocate (hS first (Nat.le_refl _)))
      fun j hj => ?_
    rw [Function.update_of_ne (by simp; omega)]
    exact hS j (Nat.le_of_succ_le hj)

/-- Creating a user attaches its filled slots in their order. -/
theorem newUser_ordered (ho : g.Ordered log) (hc : g.Coherent) {ty : Ty} {op : Operation}
    {name : Option String} {operands : List (Option Value)} {v : Value}
    (run : newUser ty op name operands g = .ok v g') :
    g'.Ordered (log ++ filledFrom v 0 operands) := by
  simp only [newUser, Run.bind_eq_ok_iff, Run.get_apply, Run.modifyGet_apply, Run.modify_apply,
    Run.pure_apply] at run
  obtain ⟨_, _, h₁, _, _, h₂, us, _, h₃, _, _, h₄, _, _, attached, h₅⟩ := run
  cases h₁
  cases h₂
  cases h₃
  cases h₄
  cases h₅
  have hS : ∀ j, 0 ≤ j → g.slot? (⟨g.ctx, g.values.size⟩, j) = none := by
    intro j _
    simp [slot?, value?_next]
  -- Only the last of the three phases attaches: the slots are allocated, the value is created, the
  -- slots are filled.
  obtain ⟨hc₁, -⟩ := allocateMany_coherent operands.length hc hS
  obtain ⟨hc₂, -, length, nodup, -, empty, -⟩ := reserve_coherent hc ty op name operands.length
  refine attachAll_ordered operands ?_ hc₂ (fun i u hu => ?_) nodup length attached
  · exact (ho.allocateMany operands.length hc hS).thins (.push hc₁ rfl)
  · rw [Nat.zero_add]
    exact empty i u hu

end Graph

end SsaGraph
