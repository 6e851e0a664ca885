import SsaGraph.Proofs.Graph.View

/-!
# Emptying uses and removing values

`clear` empties one use. What a series of such changes does to a graph, together with the removal of
edges and of values, is told by `Reduced`: some uses are emptied, some values are gone, and
everything else is as it was. In particular the list of a value that is still there is its old list
without the emptied uses, in the old order. One reduction after the other is a reduction.
-/

namespace SsaGraph

namespace Graph

/-! ## Emptying a use -/

/-- Empties a use. -/
def clear (g : Graph) (u : Use) : Graph :=
  match g.linked? u with
  | some ⟨⟨_, _, some v⟩, prev, next⟩ => g.unlink u v prev next
  | _ => g

/-- Emptying a use that points somewhere takes it out of the list there. -/
theorem clear_of_target {g : Graph} {u : Use} {l : LinkedEdge} {v : Value}
    (hu : g.linked? u = some l) (ht : l.target = some v) :
    g.clear u = g.unlink u v l.prev l.next := by
  obtain ⟨⟨user, i, t⟩, prev, next⟩ := l
  simp only at ht
  subst ht
  rw [clear, hu]

/-- Emptying an empty use changes nothing. -/
theorem clear_of_empty {g : Graph} {u : Use} {l : LinkedEdge} (hu : g.linked? u = some l)
    (ht : l.target = none) : g.clear u = g := by
  obtain ⟨⟨user, i, t⟩, prev, next⟩ := l
  simp only at ht
  subst ht
  rw [clear, hu]

/-- Emptying a use keeps the context. -/
@[simp] theorem ctx_clear (g : Graph) (u : Use) : (g.clear u).ctx = g.ctx := by
  unfold clear
  split <;> simp

/-- Emptying a use keeps the data of the values apart from their uses. -/
@[simp] theorem bare?_clear (g : Graph) (u : Use) (w : Value) : (g.clear u).bare? w = g.bare? w := by
  unfold clear
  split <;> simp

/-- Emptying a use creates no value. -/
@[simp] theorem size_clear (g : Graph) (u : Use) : (g.clear u).values.size = g.values.size := by
  unfold clear
  split <;> simp

/-- The edges after a use has been emptied. -/
theorem edge?_clear {g : Graph} {u : Use} {e : Edge} (h : g.edge? u = some e) (w : Use) :
    (g.clear u).edge? w = if w = u then some { e with target := none } else g.edge? w := by
  obtain ⟨prev, next, hu⟩ := edge?_eq_some_iff.1 h
  cases ht : e.target with
  | some v =>
    rw [clear_of_target hu ht]
    exact edge?_unlink v prev next w h
  | none =>
    rw [clear_of_empty hu ht]
    split
    · subst w
      rw [h, ← ht]
    · rfl

/-- Emptying a use keeps the graph coherent for its slots. -/
theorem CoherentFor.clear {g : Graph} {S : Value × Nat → Option Use} (h : g.CoherentFor S) (u : Use) :
    (g.clear u).CoherentFor S := by
  cases hu : g.linked? u with
  | none =>
    rw [Graph.clear, hu]
    exact h
  | some l =>
    cases ht : l.target with
    | some v =>
      rw [clear_of_target hu ht]
      exact h.unlink hu ht
    | none =>
      rw [clear_of_empty hu ht]
      exact h

/-- Emptying a use keeps the graph coherent. -/
theorem Coherent.clear {g : Graph} (h : g.Coherent) (u : Use) : (g.clear u).Coherent := by
  rw [Coherent, slot?_congr (bare?_clear g u)]
  exact CoherentFor.clear h u

/-- The nodes after a use has been emptied. -/
theorem Coherent.node?_clear {g : Graph} (h : g.Coherent) {u : Use} {e : Edge}
    (hu : g.edge? u = some e) (w : Value) :
    (g.clear u).node? w =
      if w = e.user then
        (g.node? w).map fun n => { n with operands := n.operands.set e.operandNo none }
      else g.node? w :=
  h.node?_retarget hu (bare?_clear g u) (edge?_clear hu) w

/-! ## Reductions -/

/-- A list with one element taken out, if the element is not in it. -/
theorem filter_ne_of_notMem {u : Use} {us : List Use} (h : u ∉ us) :
    us.filter (· ≠ u) = us := by
  rw [List.filter_eq_self]
  rintro x hx
  have hne : x ≠ u := by
    rintro rfl
    exact h hx
  simpa using hne

/-- A list with one element taken out. -/
theorem filter_ne_middle {u : Use} {as bs : List Use} (h : (as ++ u :: bs).Nodup) :
    (as ++ u :: bs).filter (· ≠ u) = as ++ bs := by
  obtain ⟨hout, -⟩ := List.nodup_cons.1 (List.nodup_middle.1 h)
  rw [← filter_ne_of_notMem hout]
  simp

/-- The given uses are emptied or removed, the given values are gone, and the rest is as it was. -/
structure Reduced (g g' : Graph) (emptied : List Use) (gone : List Value) : Prop where
  /-- The graph belongs to the same context. -/
  ctx : g'.ctx = g.ctx
  /-- The places of values are kept. -/
  size : g'.values.size = g.values.size
  /-- The other values keep their data, uses apart. -/
  bare : ∀ v, g'.bare? v = if v ∈ gone then none else g.bare? v
  /-- The other uses keep their edges. -/
  edge : ∀ {u}, u ∉ emptied → g'.edge? u = g.edge? u
  /-- The emptied uses point nowhere. -/
  empty : ∀ {u e}, u ∈ emptied → g'.edge? u = some e → e.target = none
  /-- The other values keep the uses that are not emptied, in order. -/
  lists : ∀ {v d us}, v ∉ gone → g.value? v = some d → g.Lists v d us →
    ∃ d', g'.value? v = some d' ∧ g'.Lists v d' (us.filter (· ∉ emptied))

namespace Reduced

variable {g g' g'' : Graph} {emptied emptied' : List Use} {gone gone' : List Value} {v : Value}
  {u : Use}

/-- Nothing is reduced while nothing happens. -/
theorem refl (g : Graph) : g.Reduced g [] [] := by
  refine ⟨rfl, rfl, by simp, by simp, by simp, fun {v d us} _ hv hlist => ⟨d, hv, ?_⟩⟩
  rwa [List.filter_eq_self.2 (by simp)]

/-- What is reduced depends on which uses and values it is about. -/
theorem congr (h : g.Reduced g' emptied gone) (uses : ∀ u, u ∈ emptied' ↔ u ∈ emptied)
    (values : ∀ v, v ∈ gone' ↔ v ∈ gone) : g.Reduced g' emptied' gone' := by
  refine ⟨h.ctx, h.size, fun v => ?_, fun hu => h.edge (mt (uses _).2 hu),
    fun hu => h.empty ((uses _).1 hu), fun {v d us} hv hd hlist => ?_⟩
  · simp only [h.bare, values]
  · obtain ⟨d', hd', hlist'⟩ := h.lists (mt (values _).2 hv) hd hlist
    refine ⟨d', hd', ?_⟩
    simpa only [uses] using hlist'

/-- Reducing twice adds up what is emptied and what is gone. -/
theorem trans (h : g.Reduced g' emptied gone) (h' : g'.Reduced g'' emptied' gone') :
    g.Reduced g'' (emptied ++ emptied') (gone ++ gone') := by
  refine ⟨h'.ctx.trans h.ctx, h'.size.trans h.size, fun v => ?_, fun {u} hu => ?_,
    fun {u e} hu he => ?_, fun {v d us} hv hd hlist => ?_⟩
  · rw [h'.bare, h.bare]
    by_cases hv : v ∈ gone <;> by_cases hv' : v ∈ gone' <;> simp [hv, hv']
  · simp only [List.mem_append, not_or] at hu
    rw [h'.edge hu.2, h.edge hu.1]
  · -- A use emptied in the first step may only be removed in the second.
    by_cases hu' : u ∈ emptied'
    · exact h'.empty hu' he
    · rw [h'.edge hu'] at he
      exact h.empty (by simpa [hu'] using hu) he
  · simp only [List.mem_append, not_or] at hv
    obtain ⟨d₁, hd₁, hlist₁⟩ := h.lists hv.1 hd hlist
    obtain ⟨d₂, hd₂, hlist₂⟩ := h'.lists hv.2 hd₁ hlist₁
    refine ⟨d₂, hd₂, ?_⟩
    rw [List.filter_filter] at hlist₂
    simpa [Bool.and_comm] using hlist₂

/-- A value that is left was there before and had the same data, its uses apart. -/
theorem value?_of_value? {d' : ValueData} (h : g.Reduced g' emptied gone)
    (hv : g'.value? v = some d') :
    v ∉ gone ∧ ∃ d, g.value? v = some d ∧ d'.bare = d.bare := by
  have hbare := h.bare v
  rw [bare?, hv, Option.map_some] at hbare
  split at hbare
  · cases hbare
  · rename_i hout
    obtain ⟨d, hd, heq⟩ := Option.map_eq_some_iff.1 hbare.symm
    exact ⟨hout, d, hd, heq.symm⟩

/-- A value that is still there has its operand slots. -/
theorem slotsOf_eq (h : g.Reduced g' emptied gone) (hv : v ∉ gone) :
    g'.slotsOf v = g.slotsOf v := by
  refine List.ext_getElem? fun i => ?_
  rw [slotsOf_getElem?, slotsOf_getElem?, slot?_eq, slot?_eq, h.bare, if_neg hv]

/-- A value none of whose operand slots is emptied is as it was. -/
theorem node?_eq (h : g.Reduced g' emptied gone) (hv : v ∉ gone)
    (apart : ∀ u ∈ g.slotsOf v, u ∉ emptied) : g'.node? v = g.node? v := by
  refine node?_congr (by rw [h.bare, if_neg hv]) fun i u hu => ?_
  exact h.edge (apart u (mem_slotsOf.2 ⟨i, hu⟩))

/-- Changes of edges that only concern uses that point nowhere afterwards. -/
theorem of_lists (ctx : g'.ctx = g.ctx) (size : g'.values.size = g.values.size)
    (bare : ∀ v, g'.bare? v = g.bare? v) (edge : ∀ {x}, x ≠ u → g'.edge? x = g.edge? x)
    (empty : ∀ {e}, g'.edge? u = some e → e.target = none)
    (lists : ∀ {v d us}, g.value? v = some d → g.Lists v d us →
      ∃ d', g'.value? v = some d' ∧ g'.Lists v d' (us.filter (· ≠ u))) :
    g.Reduced g' [u] [] := by
  refine ⟨ctx, size, fun v => by simp [bare], fun hx => edge (by simpa using hx),
    fun {x e} hx he => ?_, fun _ hd hlist => ?_⟩
  · obtain rfl := List.mem_singleton.1 hx
    exact empty he
  · simpa using lists hd hlist

/-- Emptying a use. -/
theorem clear {S : Value × Nat → Option Use} (hc : g.CoherentFor S) {e : Edge}
    (hu : g.edge? u = some e) : g.Reduced (g.clear u) [u] [] := by
  obtain ⟨prev, next, hl⟩ := edge?_eq_some_iff.1 hu
  have point : ∀ {e'}, (g.clear u).edge? u = some e' → e'.target = none := by
    intro e' he'
    rw [edge?_clear hu, if_pos rfl] at he'
    cases he'
    rfl
  refine of_lists (ctx_clear g u) (size_clear g u) (bare?_clear g u) (fun hx => ?_) point
    fun {v d us} hd hlist => ?_
  · rw [edge?_clear hu, if_neg hx]
  by_cases hmem : u ∈ us
  · -- The use leaves the list of its target.
    obtain ⟨e', he', ht⟩ := hlist.mem.1 hmem
    rw [hu] at he'
    cases he'
    obtain ⟨as, bs, rfl⟩ := List.append_of_mem hmem
    obtain ⟨e', he'⟩ := hlist.linked _ _ _ rfl
    -- The neighbours recorded in the edge are those of the split list.
    have hclear : g.clear u = g.unlink u v as.getLast? bs.head? :=
      clear_of_target he' (by rw [hl] at he'; cases he'; exact ht)
    have hrest := hlist.unlink rfl
    rw [← hclear, ← filter_ne_middle hlist.nodup] at hrest
    refine ⟨_, ?_, hrest⟩
    rw [hclear, value?_unlink, if_pos rfl, hd]
    rfl
  · -- The list is another one, and none of its uses is touched.
    rw [filter_ne_of_notMem hmem]
    cases ht : e.target with
    | none =>
      rw [clear_of_empty hl ht]
      exact ⟨d, hd, hlist⟩
    | some w =>
      have hne : v ≠ w := by
        rintro rfl
        exact hmem (hlist.mem.2 ⟨e, hu, ht⟩)
      obtain ⟨d', as, bs, -, hlist', hprev, hnext⟩ := hc.split hl ht
      rw [clear_of_target hl ht, hprev, hnext]
      refine ⟨d, by rw [value?_unlink, if_neg hne, hd],
        hlist.congr rfl rfl (fun x hx => ?_) fun {x e'} hx ht' => ?_⟩
      · obtain ⟨e', he', ht'⟩ := hlist.mem.1 hx
        have hxu : x ≠ u := by
          rintro rfl
          exact hmem hx
        exact hlist'.linked?_unlink_of_ne rfl hxu he' (by rw [ht']; simpa using hne)
      · rw [edge?_unlink w _ _ x hu] at hx
        split at hx
        · cases hx
          cases ht'
        · exact hlist.mem.2 ⟨e', hx, ht'⟩

/-- Giving up the edge of an empty use. -/
theorem release {e : Edge} (hu : g.edge? u = some e) (he : e.target = none) :
    g.Reduced (g.release u) [u] [] := by
  refine of_lists rfl rfl (bare?_release g u) (fun hx => ?_) (fun he' => ?_)
    fun {v d us} hd hlist => ?_
  · rw [edge?_release hu, if_neg hx]
  · -- The use does not resolve any more.
    rw [edge?_release hu, if_pos rfl] at he'
    cases he'
  · -- A use that points nowhere is in no list.
    have hmem : u ∉ us := by
      intro hmem
      obtain ⟨e', he', ht⟩ := hlist.mem.1 hmem
      rw [hu] at he'
      cases he'
      rw [he] at ht
      cases ht
    rw [filter_ne_of_notMem hmem]
    refine ⟨d, hd, hlist.congr rfl rfl (fun x hx => ?_) fun {x e'} hx ht => ?_⟩
    · rw [linked?_release hu, if_neg]
      rintro rfl
      exact hmem hx
    · rw [edge?_release hu] at hx
      split at hx
      · cases hx
      · exact hlist.mem.2 ⟨e', hx, ht⟩

/-- Removing a value. -/
theorem drop (g : Graph) (v : Value) : g.Reduced (g.drop v) [] [v] := by
  refine ⟨ctx_drop g v, size_drop g v, fun w => ?_, fun _ => edge?_drop g v _, by simp,
    fun {w d us} hw hd hlist => ?_⟩
  · simp [bare?_drop]
  · rw [List.filter_eq_self.2 (by simp)]
    refine ⟨d, by rw [value?_drop, if_neg (by simpa using hw), hd],
      hlist.congr rfl rfl (fun x _ => linked?_drop g v x) fun {x e'} hx ht => ?_⟩
    rw [edge?_drop] at hx
    exact hlist.mem.2 ⟨e', hx, ht⟩

end Reduced

/-! ## Cutting users off -/

/-- The operand slots of the given users are emptied or removed, and those of the users that are
gone are gone with their slots. -/
structure Cut (g g' : Graph) (users gone : List Value) : Prop where
  /-- The uses of the users are emptied. -/
  reduced : g.Reduced g' (users.flatMap g.slotsOf) gone
  /-- What is gone is one of the users. -/
  gone_sub : gone ⊆ users

namespace Cut

variable {g g' g'' : Graph} {users users' gone gone' vs : List Value} {v : Value}

/-- Nothing is cut while nothing happens. -/
theorem refl (g : Graph) : g.Cut g [] [] := ⟨.refl g, List.nil_subset _⟩

/-- What is cut depends on which values it is about. -/
theorem congr (h : g.Cut g' users gone) (hu : ∀ v, v ∈ users' ↔ v ∈ users)
    (hg : ∀ v, v ∈ gone' ↔ v ∈ gone) : g.Cut g' users' gone' :=
  ⟨h.reduced.congr (by simp only [List.mem_flatMap, hu, implies_true]) hg,
    fun v hv => (hu v).2 (h.gone_sub ((hg v).1 hv))⟩

/-- Cutting twice adds up the users and the slots that are gone. -/
theorem trans (h : g.Cut g' users gone) (h' : g'.Cut g'' users' gone') :
    g.Cut g'' (users ++ users') (gone ++ gone') := by
  refine ⟨(h.reduced.trans h'.reduced).congr (fun u => ?_) fun _ => Iff.rfl,
    List.append_subset.2 ⟨fun v hv => List.mem_append_left _ (h.gone_sub hv),
      fun v hv => List.mem_append_right _ (h'.gone_sub hv)⟩⟩
  -- What has lost its slots in between was among the users before.
  simp only [List.flatMap_append, List.mem_append, List.mem_flatMap]
  refine or_congr_right' fun hout => exists_congr fun v => and_congr_right fun _ => ?_
  by_cases hv : v ∈ gone
  · have none_left : g'.slotsOf v = [] := by
      have hnone := h.reduced.bare v
      rw [if_pos hv, bare?_eq_none_iff] at hnone
      rw [slotsOf, hnone]
      rfl
    rw [none_left]
    exact ⟨fun hu => absurd ⟨v, h.gone_sub hv, hu⟩ hout, nofun⟩
  · rw [h.reduced.slotsOf_eq hv]

/-- A user's slots are emptied. -/
theorem empty (h : g.Reduced g' (g.slotsOf v) []) : g.Cut g' [v] [] :=
  ⟨h.congr (by simp) (by simp), List.nil_subset _⟩

/-- A user is gone. -/
theorem remove (h : g.Reduced g' (g.slotsOf v) [v]) : g.Cut g' [v] [v] :=
  ⟨h.congr (by simp) (by simp), List.Subset.refl _⟩

/-- The edges of users that are not cut off are as they were. -/
theorem edge?_eq (h : g.Cut g' users gone) (hc : g.Coherent) {u : Use} {e : Edge}
    (hu : g.edge? u = some e) (huser : e.user ∉ users) : g'.edge? u = some e := by
  rw [h.reduced.edge, hu]
  rw [List.mem_flatMap]
  rintro ⟨w, hw, hmem⟩
  rw [hc.mem_slotsOf_iff hu] at hmem
  exact huser (hmem ▸ hw)

/-- An edge that points somewhere did so before, and its user is not one that is cut off. -/
theorem edge?_of_target (h : g.Cut g' users gone) (hc : g.Coherent) {u : Use} {e : Edge}
    (hu : g'.edge? u = some e) (ht : e.target = some v) :
    g.edge? u = some e ∧ e.user ∉ users := by
  have hout : u ∉ users.flatMap g.slotsOf := by
    intro hin
    rw [h.reduced.empty hin hu] at ht
    cases ht
  rw [h.reduced.edge hout] at hu
  refine ⟨hu, fun huser => hout ?_⟩
  exact List.mem_flatMap.2 ⟨e.user, huser, (hc.mem_slotsOf_iff hu).2 rfl⟩

/-- A value that is not cut off is as it was. -/
theorem node?_eq (h : g.Cut g' users gone) (hc : g.Coherent) (hv : v ∉ users) :
    g'.node? v = g.node? v := by
  refine h.reduced.node?_eq (fun hgone => hv (h.gone_sub hgone)) fun u hu hmem => ?_
  obtain ⟨w, hw, huw⟩ := List.mem_flatMap.1 hmem
  rw [hc.eq_of_mem_slotsOf hu huw] at hv
  exact hv hw

end Cut

/-! ## Values that are not used -/

/-- What points to one of the values is an operand slot of one of the users. -/
def UsedBy (g : Graph) (vs users : List Value) : Prop :=
  ∀ u e v, g.edge? u = some e → e.target = some v → v ∈ vs → e.user ∈ users

/-- Fewer values are used by no more users. -/
theorem UsedBy.sub {g : Graph} {vs vs' users : List Value} (h : g.UsedBy vs users) (sub : vs' ⊆ vs) :
    g.UsedBy vs' users :=
  fun u e v hu ht hv => h u e v hu ht (sub hv)

/-- Nothing points to the values any more when their users are cut off. -/
theorem UsedBy.cut {g g' : Graph} {vs users cut gone : List Value} (h : g.UsedBy vs users)
    (hcut : g.Cut g' cut gone) (hc : g.Coherent) (sub : users ⊆ cut) : g'.UsedBy vs [] := by
  intro u e v hu ht hv
  obtain ⟨hu, huser⟩ := hcut.edge?_of_target hc hu ht
  exact absurd (sub (h u e v hu ht hv)) huser

/-- A value that nothing points to counts no uses. -/
theorem UsedBy.unused {g : Graph} {vs : List Value} {v : Value} {d : ValueData}
    (h : g.UsedBy vs []) (hc : g.Coherent) (hv : v ∈ vs) (hd : g.value? v = some d) :
    d.numUses = 0 := by
  refine (hc.unused_iff hd).2 fun u e hu ht => ?_
  have := h u e v hu ht hv
  simp at this

end Graph

end SsaGraph
