import SsaGraph.Proofs.Graph.Edit

/-!
# Coherent graphs cause no faults

The operations on a graph go from slot to edge, from edge to neighbour and from edge to target, and
expect to find something at each step. In a coherent graph they do. For the operations that only
empty uses the result is told with it, as a reduction; the others are calm.
-/

namespace SsaGraph

open Run (Calm)

namespace Graph

variable {g g' : Graph} {v : Value} {d : ValueData}

/-! ## Emptying uses -/

/-- Emptying uses one after the other. -/
theorem detachAll_run {S : Value × Nat → Option Use} (us : List Use) (hc : g.CoherentFor S)
    (alive : ∀ u ∈ us, ∃ e, g.edge? u = some e) :
    ∃ g', us.forM detach g = .ok () g' ∧ g'.CoherentFor S ∧ g.Reduced g' us [] := by
  -- On the uses; each round empties one of them and keeps the graph coherent.
  induction us generalizing g with
  | nil => exact ⟨g, rfl, hc, .refl g⟩
  | cons u us ih =>
    obtain ⟨e, hu⟩ := alive u (List.mem_cons_self ..)
    -- An emptied use keeps its edge, so a use may come twice in the list.
    have alive' : ∀ x ∈ us, ∃ e, (g.clear u).edge? x = some e := by
      intro x hx
      rw [edge?_clear hu]
      split
      · exact ⟨_, rfl⟩
      · exact alive x (List.mem_cons_of_mem _ hx)
    obtain ⟨g', run, hc', reduced⟩ := ih (hc.clear u) alive'
    refine ⟨g', ?_, hc', (Reduced.clear hc hu).trans reduced⟩
    rw [List.forM_eq_forM, List.forM_cons, Run.bind_eq_ok_iff]
    exact ⟨(), _, detach_eq hc hu, run⟩

/-- Coherence at rest is kept by what keeps the operand slots. -/
theorem Reduced.coherent {emptied : List Use} (h : g.Reduced g' emptied [])
    (hc : g'.CoherentFor g.slot?) : g'.Coherent := by
  rw [Coherent, slot?_congr fun w => by simpa using h.bare w]
  exact hc

/-- The operand slots of a value are emptied. -/
theorem dropAllReferences_run (hc : g.Coherent) (hd : g.value? v = some d) :
    ∃ g', dropAllReferences v g = .ok () g' ∧ g'.Coherent ∧ g.Reduced g' (g.slotsOf v) [] := by
  have hslots : g.slotsOf v = d.operands := by simp [slotsOf, hd]
  have alive : ∀ u ∈ g.slotsOf v, ∃ e, g.edge? u = some e := by
    intro u hu
    obtain ⟨i, hi⟩ := mem_slotsOf.1 hu
    obtain ⟨t, ht⟩ := hc.owned hi
    exact ⟨_, ht⟩
  obtain ⟨g', run, hc', reduced⟩ := detachAll_run (g.slotsOf v) hc alive
  refine ⟨g', ?_, reduced.coherent hc', reduced⟩
  simp only [dropAllReferences, Run.bind_eq_ok_iff, Run.get_apply, Run.faulting_eq_ok_iff,
    value_eq_ok_iff]
  exact ⟨g, g, rfl, d, g, ⟨hd, rfl⟩, hslots ▸ run⟩

/-- Dropping the operands of a value empties its operand slots. -/
theorem dropAllReferences_reduced {a : Unit} (hc : g.Coherent)
    (h : dropAllReferences v g = .ok a g') :
    g'.Coherent ∧ g.Reduced g' (g.slotsOf v) [] := by
  have alive : ∃ d, g.value? v = some d := by
    simp only [dropAllReferences, Run.bind_eq_ok_iff, Run.get_apply, Run.faulting_eq_ok_iff,
      value_eq_ok_iff] at h
    obtain ⟨_, _, h₀, d, _, ⟨hd, rfl⟩, -⟩ := h
    cases h₀
    exact ⟨d, hd⟩
  obtain ⟨d, hd⟩ := alive
  obtain ⟨g₁, run, hc₁, reduced⟩ := dropAllReferences_run hc hd
  rw [h] at run
  cases run
  exact ⟨hc₁, reduced⟩

/-- The uses of a value are emptied. -/
theorem dropAllUses_calm (hc : g.Coherent) (hd : g.value? v = some d) : Calm (dropAllUses v) g := by
  obtain ⟨us, hlist⟩ := hc.lists hd
  obtain ⟨g', run, -⟩ := detachAll_run us hc fun u hu => hlist.alive hu
  exact .of_ok ((dropAllUses_eq ⟨hc, d, hd, hlist⟩).trans run)

/-! ## Filling slots -/

/-- Pointing a use elsewhere. -/
theorem swap_calm {u : Use} {e : Edge} (hc : g.Coherent) (hu : g.edge? u = some e)
    (hd : g.value? v = some d) : Calm (do detach u; attach u v : Run Graph Unit) g := by
  refine .bind (.of_ok (detach_eq hc hu)) fun _ g₁ h => ?_
  obtain ⟨-, rfl⟩ := detach_ok h
  obtain ⟨d', hd'⟩ := (alive_congr (bare?_clear g u v)).2 ⟨d, hd⟩
  exact .of_ok (attach_eq (hc.clear u) (by rw [edge?_clear hu, if_pos rfl]) hd')

/-- Setting an operand does not end the run when user and operand are alive. -/
theorem setOperand_calm {user : Value} {i : Nat} {target : Option Value} (hc : g.Coherent)
    (hd : g.value? user = some d) (alive : ∀ v ∈ target, ∃ d, g.value? v = some d) :
    Calm (setOperand user i target) g := by
  refine .get_bind (.answered ⟨d, value_eq_ok_iff.2 hd⟩ fun d' hd' => .guard fun _ => ?_)
  rw [value_eq_ok_iff] at hd'
  split
  · exact .reject
  · rename_i u hu
    obtain ⟨t, ht⟩ := hc.owned (v := user) (i := i) (by simpa [slot?, hd'] using hu)
    cases target with
    | none => exact .bind (.of_ok (detach_eq hc ht)) fun _ _ _ => .pure
    | some v =>
      obtain ⟨dv, hv⟩ := alive v rfl
      exact swap_calm hc ht hv

/-- Adding an operand does not end the run when user and operand are alive. -/
theorem pushOperand_calm {user target : Value} {dt : ValueData} (hc : g.Coherent)
    (hd : g.value? user = some d) (ht : g.value? target = some dt) :
    Calm (pushOperand user target) g := by
  refine .get_bind (.answered ⟨d, value_eq_ok_iff.2 hd⟩ fun d' hd' => .guard fun _ => ?_)
  rw [value_eq_ok_iff] at hd'
  refine .bind .modifyGet fun u g₁ h₁ => .bind .modify fun _ g₂ h₂ => ?_
  cases h₁
  cases h₂
  obtain ⟨hc₂, -, hedge, halive, -⟩ := extend_coherent hc hd'
  obtain ⟨d₂, hd₂⟩ := (halive target).2 ⟨dt, ht⟩
  exact .of_ok (attach_eq hc₂ hedge hd₂)

/-- What the rounds of a loop over uses need, and keep. -/
structure Usable (g : Graph) (us : List Use) (v : Value) : Prop where
  /-- The graph is coherent. -/
  coherent : g.Coherent
  /-- The uses have edges. -/
  edges : ∀ u ∈ us, ∃ e, g.edge? u = some e
  /-- The value that they are pointed to is alive. -/
  alive : ∃ d, g.value? v = some d

/-- Pointing one of the uses elsewhere leaves all of them usable. -/
theorem Usable.swap {us : List Use} {u : Use} {a : Unit} (h : g.Usable us v) (hu : u ∈ us)
    (run : (do detach u; attach u v : Run Graph Unit) g = .ok a g') : g'.Usable us v := by
  obtain ⟨⟨d, hd⟩, rfl⟩ := swap_ok run
  obtain ⟨e, he⟩ := h.edges u hu
  refine ⟨h.coherent.retarget he hd, fun x hx => ?_,
    (alive_congr (bare?_retarget g u v v)).2 h.alive⟩
  rw [edge?_retarget he]
  split
  · exact ⟨_, rfl⟩
  · exact h.edges x hx

/-- Replacing the uses of one live value by another is calm. -/
theorem replaceAllUses_calm {old new : Value} {dn : ValueData} (hc : g.Coherent)
    (hd : g.value? old = some d) (hn : g.value? new = some dn) :
    Calm (replaceAllUses old new) g := by
  unfold replaceAllUses
  split
  · exact .pure
  rename_i hne
  refine .get_bind (.answered ⟨d, value_eq_ok_iff.2 hd⟩ fun d' hd' => .get_bind
    (.answered ⟨dn, value_eq_ok_iff.2 hn⟩ fun _ _ => .guard fun _ => ?_))
  rw [value_eq_ok_iff, hd] at hd'
  cases hd'
  obtain ⟨us, hlist⟩ := hc.lists hd
  -- The loop always takes the first use that is left, which comes to one pass over the list.
  have loop := whileUsed_swap_eq hne ⟨hc, d, hd, hlist⟩
  rw [← hlist.count] at loop
  have rounds : Calm (us.forM fun u => do detach u; attach u new) g := by
    refine .forM (P := fun g => g.Usable us new) us (fun u hu g g' b hg => hg.swap hu)
      (fun u hu g hg => ?_) g ⟨hc, fun u hu => hlist.alive hu, dn, hn⟩
    obtain ⟨e, he⟩ := hg.edges u hu
    obtain ⟨d', hd'⟩ := hg.alive
    exact swap_calm hg.coherent he hd'
  exact fun e g' h => rounds e g' (loop.symm.trans h)

/-! ## Creating an instruction -/

/-- Attaching live operands is calm. -/
theorem attachAll_calm (pairs : List (Use × Option Value)) (hc : g.Coherent)
    (empty : ∀ p ∈ pairs, ∃ v i, g.edge? p.1 = some ⟨v, i, none⟩)
    (nodup : (pairs.map Prod.fst).Nodup) (alive : ∀ p ∈ pairs, ∀ v ∈ p.2, ∃ d, g.value? v = some d) :
    Calm (attachAll pairs) g := by
  -- On the slots; an empty operand changes nothing, and a full one is attached.
  induction pairs generalizing g with
  | nil => exact .pure
  | cons p pairs ih =>
    obtain ⟨u, o⟩ := p
    obtain ⟨w, i, hu⟩ := empty (u, o) (List.mem_cons_self ..)
    rw [List.map_cons, List.nodup_cons] at nodup
    have empty' := fun p hp => empty p (List.mem_cons_of_mem _ hp)
    have alive' := fun p hp => alive p (List.mem_cons_of_mem _ hp)
    rw [attachAll, List.forM_eq_forM, List.forM_cons]
    cases o with
    | none =>
      refine .bind .pure fun _ g₁ h₁ => ?_
      cases h₁
      exact ih hc empty' nodup.2 alive'
    | some v =>
      obtain ⟨d, hd⟩ := alive (u, some v) (List.mem_cons_self ..) v rfl
      refine .bind (.of_ok (attach_eq hc hu hd)) fun _ g₁ h₁ => ?_
      obtain ⟨-, -, rfl⟩ := attach_ok h₁
      refine ih (hc.link hu rfl hd) (fun p hp => ?_) nodup.2 fun p hp v hv => ?_
      · -- The uses are different, so the others are still empty.
        have hne : p.1 ≠ u := by
          rintro rfl
          exact nodup.1 (List.mem_map.2 ⟨p, hp, rfl⟩)
        rw [edge?_link _ _ hu, if_neg hne]
        exact empty' p hp
      · exact (alive_congr (bare?_link ..)).2 (alive' p hp v hv)

/-- A new user of live operands is made calmly. -/
theorem newUser_calm {ty : Ty} {op : Operation} {name : Option String}
    {operands : List (Option Value)} (hc : g.Coherent)
    (alive : ∀ o ∈ operands, ∀ v ∈ o, ∃ d, g.value? v = some d) :
    Calm (newUser ty op name operands) g := by
  refine .get_bind (.get_bind (.bind .modifyGet fun us g₁ h₁ => .bind .modify fun _ g₂ h₂ => ?_))
  cases h₁
  cases h₂
  -- After the slots are reserved the graph is coherent, with the slots of the new value empty.
  obtain ⟨hc₂, -, hlen, nodup, hbare, hnew, -⟩ := reserve_coherent hc ty op name operands.length
  refine .bind (attachAll_calm _ hc₂ (fun p hp => ?_) ?_ fun p hp v hv => ?_) fun _ _ _ => .pure
  · obtain ⟨i, hi⟩ := List.mem_iff_getElem?.1 (List.of_mem_zip hp).1
    exact ⟨_, i, hnew i p.1 hi⟩
  · rw [List.map_fst_zip (by omega)]
    exact nodup
  · obtain ⟨d, hd⟩ := alive p.2 (List.of_mem_zip hp).2 v hv
    -- An operand was alive before, so it is not the new value.
    have old : v ≠ ⟨g.ctx, g.values.size⟩ := by
      rintro rfl
      rw [value?_next] at hd
      cases hd
    exact (alive_congr ((hbare v).trans (if_neg old))).2 ⟨d, hd⟩

end Graph

end SsaGraph
