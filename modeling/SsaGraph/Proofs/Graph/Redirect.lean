import SsaGraph.Proofs.Graph.Arena
import SsaGraph.Proofs.Graph.Order

/-!
# Pointing uses elsewhere

The operations that only point operand slots elsewhere are sequences of `clear` and `link`. What
such a sequence does to a whole graph is told by `Redirects`: where each use points to afterwards,
what has become of each use list, and that everything else is as it was, down to the vacant places
of the arena. One redirection after the other is a redirection.

A redirection that comes back to where all uses pointed and to all the lists is no change at all
(`Redirects.eq_self`). The neighbours of a use are not told by `Redirects`, but those of a use that
points somewhere follow from the list it is in; and the uses that are empty are left alone by what
only moves others (`SparesEmpty`).
-/

namespace SsaGraph

namespace Graph

variable {g g' g'' : Graph} {u : Use} {e : Edge} {v : Value} {d : ValueData}

/-- The use lists of different values have no uses in common. -/
theorem Lists.not_mem {w : Value} {d' : ValueData} {us ws : List Use} (h : g.Lists v d us)
    (h' : g.Lists w d' ws) (hne : v ≠ w) {x : Use} (hx : x ∈ ws) : x ∉ us := by
  intro hmem
  obtain ⟨e, he, ht⟩ := h.mem.1 hmem
  obtain ⟨e', he', ht'⟩ := h'.mem.1 hx
  rw [he] at he'
  cases he'
  rw [ht] at ht'
  exact hne (Option.some.inj ht')

/-- A use is in the list of a value exactly when it points to it. -/
theorem Lists.mem_iff_target {us : List Use} (h : g.Lists v d us) (hu : g.edge? u = some e) :
    u ∈ us ↔ e.target = some v := by
  rw [h.mem, hu]
  simp

/-- The list of a value loses nothing with the uses of another. -/
theorem Lists.filter_not_mem {w : Value} {d' : ValueData} {us ws : List Use} (h : g.Lists v d us)
    (h' : g.Lists w d' ws) (hne : v ≠ w) : ws.filter (· ∉ us) = ws := by
  apply List.filter_eq_self.2
  intro x hx
  exact decide_eq_true (h.not_mem h' hne hx)

/-- From `g` to `g'`, each use has come to point to where `aim` says, the use list of each value has
become what `relist` says, and nothing else has changed. -/
structure Redirects (g g' : Graph) (aim : Use → Edge → Option Value)
    (relist : Value → List Use → List Use) : Prop where
  /-- The graph belongs to the same context. -/
  ctx : g'.ctx = g.ctx
  /-- The places of values are kept. -/
  size : g'.values.size = g.values.size
  /-- The same places of the arena are vacant. -/
  free : g'.free = g.free
  /-- The places of the arena have the same generations. -/
  gen : ∀ k, g'.gen? k = g.gen? k
  /-- The values keep their data, uses apart. -/
  bare : ∀ w, g'.bare? w = g.bare? w
  /-- The uses keep their slots. -/
  edge : ∀ x, g'.edge? x = (g.edge? x).map fun e => { e with target := aim x e }
  /-- The values get their lists. -/
  lists : ∀ {w d us}, g.value? w = some d → g.Lists w d us →
    ∃ d', g'.value? w = some d' ∧ g'.Lists w d' (relist w us)

namespace Redirects

variable {aim aim' : Use → Edge → Option Value} {relist relist' : Value → List Use → List Use}

/-- While nothing happens every use points where it pointed. -/
theorem refl (g : Graph) : g.Redirects g (fun _ e => e.target) fun _ us => us := by
  refine ⟨rfl, rfl, rfl, fun _ => rfl, fun _ => rfl, fun x => ?_, fun hd hlist => ⟨_, hd, hlist⟩⟩
  cases g.edge? x <;> rfl

/-- One redirection after the other is a redirection. -/
theorem trans (h : g.Redirects g' aim relist) (h' : g'.Redirects g'' aim' relist') :
    g.Redirects g'' (fun x e => aim' x { e with target := aim x e }) fun w us => relist' w (relist w us) := by
  refine ⟨h'.ctx.trans h.ctx, h'.size.trans h.size, h'.free.trans h.free,
    fun k => (h'.gen k).trans (h.gen k), fun w => (h'.bare w).trans (h.bare w), fun x => ?_,
    fun hd hlist => ?_⟩
  · rw [h'.edge, h.edge]
    cases g.edge? x <;> rfl
  · obtain ⟨d₁, hd₁, hlist₁⟩ := h.lists hd hlist
    exact h'.lists hd₁ hlist₁

/-- Only what is said of the uses and lists that there are matters. -/
theorem congr (h : g.Redirects g' aim relist) (uses : ∀ {x e}, g.edge? x = some e → aim' x e = aim x e)
    (lists : ∀ {w d us}, g.value? w = some d → g.Lists w d us → relist' w us = relist w us) :
    g.Redirects g' aim' relist' := by
  refine ⟨h.ctx, h.size, h.free, h.gen, h.bare, fun x => ?_, fun hd hlist => ?_⟩
  · rw [h.edge]
    cases hx : g.edge? x with
    | none => rfl
    | some e => rw [Option.map_some, Option.map_some, uses hx]
  · rw [lists hd hlist]
    exact h.lists hd hlist

/-- The same values are alive. -/
theorem alive_iff (h : g.Redirects g' aim relist) {w : Value} :
    (∃ d, g'.value? w = some d) ↔ ∃ d, g.value? w = some d := alive_congr (h.bare w)

/-- The arena is as long as it was. -/
theorem size_slots (h : g.Redirects g' aim relist) : g'.slots.size = g.slots.size := by
  have bound : ∀ k, g'.slots.size ≤ k ↔ g.slots.size ≤ k := by
    intro k
    have none : g'.gen? k = none ↔ g.gen? k = none := by rw [h.gen]
    simpa [gen?] using none
  exact Nat.le_antisymm ((bound _).2 (Nat.le_refl _)) ((bound _).1 (Nat.le_refl _))

/-- The values have the same types. -/
theorem ty_eq (h : g.Redirects g' aim relist) {w : Value} {d d' : ValueData}
    (hd : g.value? w = some d) (hd' : g'.value? w = some d') : d'.ty = d.ty := by
  have same := h.bare w
  rw [bare?, bare?, hd, hd'] at same
  exact congrArg (·.ty) (Option.some.inj same)

/-- Emptying a use takes it out of its list. -/
theorem clear {S : Value × Nat → Option Use} (hc : g.CoherentFor S) (hu : g.edge? u = some e) :
    g.Redirects (g.clear u) (fun x e => if x = u then none else e.target)
      fun _ us => us.filter (· ≠ u) := by
  have reduced := Reduced.clear hc hu
  refine ⟨ctx_clear g u, size_clear g u, free_clear g u, gen?_clear g u, bare?_clear g u, fun x => ?_,
    fun hd hlist => ?_⟩
  · rw [edge?_clear hu]
    split
    · subst x
      rw [hu]
      rfl
    · cases g.edge? x <;> rfl
  · simpa using reduced.lists (by simp) hd hlist

/-- Attaching an empty use puts it at the head of a list. -/
theorem link {S : Value × Nat → Option Use} (hc : g.CoherentFor S) (hu : g.edge? u = some e)
    (he : e.target = none) (hv : g.value? v = some d) :
    g.Redirects (g.link u v) (fun x e => if x = u then some v else e.target)
      fun w us => if w = v then u :: us else us := by
  obtain ⟨us, hus⟩ := hc.lists hv
  refine ⟨ctx_link .., size_link .., free_link .., gen?_link g u v, bare?_link g u v, fun x => ?_,
    fun {w d' ws} hd hlist => ?_⟩
  · rw [edge?_link v x hu]
    split
    · subst x
      rw [hu]
      rfl
    · cases g.edge? x <;> rfl
  · -- Only the list of `v` has changed, by the use at its head.
    by_cases hw : w = v
    · subst hw
      rw [if_pos rfl]
      rw [hv] at hd
      cases hd
      exact ⟨_, by rw [value?_link, if_pos rfl, hv]; rfl, hlist.link hv hu he⟩
    · rw [if_neg hw]
      exact ⟨d', by rw [value?_link, if_neg hw, hd], hus.link_other hv hu he hw hlist⟩

/-- Pointing a use elsewhere takes it out of its list and puts it at the head of another, or of the
same. -/
theorem retarget (hc : g.Coherent) (hu : g.edge? u = some e) (hv : g.value? v = some d) :
    g.Redirects (g.retarget u v) (fun x e => if x = u then some v else e.target)
      fun w us => if w = v then u :: us.filter (· ≠ u) else us.filter (· ≠ u) := by
  have cleared := Redirects.clear hc hu
  obtain ⟨d', hd'⟩ := cleared.alive_iff.2 ⟨d, hv⟩
  have linked := Redirects.link (hc.clear u) (by rw [edge?_clear hu, if_pos rfl]) rfl hd'
  refine (cleared.trans linked).congr (fun {x e} _ => ?_) fun _ _ => rfl
  split <;> rfl

end Redirects

/-! ## Uses that are empty -/

/-- The uses that point nowhere are left alone. -/
def SparesEmpty (g g' : Graph) : Prop :=
  ∀ {x l}, g.linked? x = some l → l.target = none → g'.linked? x = some l

/-- If the empty uses are left alone twice, they are left alone. -/
theorem SparesEmpty.trans (h : g.SparesEmpty g') (h' : g'.SparesEmpty g'') : g.SparesEmpty g'' :=
  fun hx ht => h' (h hx ht) ht

/-- Pointing a use elsewhere leaves the empty ones alone, if it is not empty itself. -/
theorem Coherent.retarget_sparesEmpty (hc : g.Coherent) (hu : g.edge? u = some e)
    (he : e.target ≠ none) (hv : g.value? v = some d) : g.SparesEmpty (g.retarget u v) := by
  intro x l hx ht
  have hxu : x ≠ u := by
    rintro rfl
    rw [edge?_of_linked? hx] at hu
    cases hu
    exact he ht
  -- Neither list the use leaves or enters holds an empty use.
  have cleared : (g.clear u).linked? x = some l := by
    obtain ⟨prev, next, hl⟩ := edge?_eq_some_iff.1 hu
    obtain ⟨w, hw⟩ := Option.ne_none_iff_exists'.1 he
    obtain ⟨d', as, bs, -, hlist, hprev, hnext⟩ := hc.split hl hw
    rw [clear_of_target hl hw, hprev, hnext,
      hlist.linked?_unlink_of_ne rfl hxu (edge?_of_linked? hx) (by simp [ht]), hx]
  have hu' : (g.clear u).edge? u = some { e with target := none } := by
    rw [edge?_clear hu, if_pos rfl]
  obtain ⟨d', hd'⟩ := (alive_congr (bare?_clear g u v)).2 ⟨d, hv⟩
  obtain ⟨us, hus⟩ := (hc.clear u).lists hd'
  rw [Graph.retarget,
    hus.linked?_link_of_ne hd' hu' hxu (edge?_of_linked? cleared) (by simp [ht]), cleared]

/-! ## Coming back -/

/-- What an edge and its neighbours are follows from where the edge points to and from the lists. -/
theorem linked?_eq_of_lists (hc : g.Coherent) (edge : ∀ x, g'.edge? x = g.edge? x)
    (lists : ∀ {w d us}, g.value? w = some d → g.Lists w d us → ∃ d', g'.Lists w d' us)
    (spares : g.SparesEmpty g') (x : Use) : g'.linked? x = g.linked? x := by
  cases hx : g.linked? x with
  | none =>
    have none : g'.edge? x = none := by rw [edge, edge?, hx]; rfl
    exact Option.map_eq_none_iff.1 none
  | some l =>
    cases ht : l.target with
    | none => exact spares hx ht
    | some w =>
      obtain ⟨d, hd⟩ := hc.alive (edge?_of_linked? hx) ht
      obtain ⟨us, hus⟩ := hc.lists hd
      obtain ⟨d', hus'⟩ := lists hd hus
      -- The list splits around the use, and the neighbours are the ends of the two parts.
      obtain ⟨as, bs, rfl⟩ := List.append_of_mem (hus.mem.2 ⟨_, edge?_of_linked? hx, ht⟩)
      obtain ⟨e, he⟩ := hus.linked _ _ _ rfl
      obtain ⟨e', he'⟩ := hus'.linked _ _ _ rfl
      have same : e' = e := by
        have := edge x
        rw [edge?_of_linked? he, edge?_of_linked? he'] at this
        exact Option.some.inj this
      rw [he', same, ← he, hx]

/-- The data of a value follows from the rest of it and from its list. -/
theorem value?_eq_of_lists (hc : g.Coherent) (bare : ∀ w, g'.bare? w = g.bare? w)
    (lists : ∀ {w d us}, g.value? w = some d → g.Lists w d us →
      ∃ d', g'.value? w = some d' ∧ g'.Lists w d' us) (w : Value) : g'.value? w = g.value? w := by
  cases hd : g.value? w with
  | none => rw [← bare?_eq_none_iff, bare, bare?_eq_none_iff, hd]
  | some d =>
    -- The first use and their number can be read off the list.
    obtain ⟨us, hus⟩ := hc.lists hd
    obtain ⟨d', hd', hus'⟩ := lists hd hus
    have rest : d'.bare = d.bare := by
      have := bare w
      rw [bare?, bare?, hd, hd'] at this
      exact Option.some.inj this
    have first : d'.firstUse = d.firstUse := hus'.first.trans hus.first.symm
    have count : d'.numUses = d.numUses := hus'.count.trans hus.count.symm
    rw [hd']
    obtain ⟨ty, name, kind, operands, firstUse, numUses⟩ := d
    obtain ⟨ty', name', kind', operands', firstUse', numUses'⟩ := d'
    simp only [ValueData.bare, ValueData.mk.injEq, and_true] at rest
    simp only at first count
    obtain ⟨rfl, rfl, rfl, rfl⟩ := rest
    rw [first, count]

/-- A graph is its values, its edges with their neighbours, and the places of the arena. -/
theorem ext_of_lookup (ctx : g'.ctx = g.ctx) (size : g'.values.size = g.values.size)
    (free : g'.free = g.free) (gen : ∀ k, g'.gen? k = g.gen? k)
    (value : ∀ w, g'.value? w = g.value? w) (linked : ∀ x, g'.linked? x = g.linked? x) : g' = g := by
  -- A value is looked up by its index, so the arenas have the same entries.
  have values : g'.values = g.values := by
    refine Array.ext size fun i hi hi' => ?_
    have := value ⟨g.ctx, i⟩
    simpa [value?, ctx, hi, hi'] using this
  have slots : g'.slots = g.slots := by
    -- A place is its generation and the edge that a use of this generation resolves to.
    refine Array.ext_getElem? fun k => ?_
    have hgen := gen k
    unfold gen? at hgen
    cases hs : g.slots[k]? with
    | none =>
      rw [hs] at hgen
      exact Option.map_eq_none_iff.1 hgen
    | some s =>
      rw [hs] at hgen
      obtain ⟨s', hs', heq⟩ := Option.map_eq_some_iff.1 hgen
      have hedge := linked ⟨k, s.gen⟩
      simp only [linked?, hs, hs', heq, if_true] at hedge
      rw [hs']
      obtain ⟨n, e⟩ := s
      obtain ⟨n', e'⟩ := s'
      simp only at heq hedge
      rw [heq, hedge]
  obtain ⟨c, vs, ss, fs⟩ := g
  obtain ⟨c', vs', ss', fs'⟩ := g'
  simp only at ctx values slots free
  rw [ctx, values, slots, free]

/-- Uses that have come back to where they pointed, in the lists that they were in, are as they
were. -/
theorem Redirects.eq_self {aim : Use → Edge → Option Value} {relist : Value → List Use → List Use}
    (h : g.Redirects g' aim relist) (hc : g.Coherent) (spares : g.SparesEmpty g')
    (back : ∀ {x e}, g.edge? x = some e → aim x e = e.target)
    (lists : ∀ {w d us}, g.value? w = some d → g.Lists w d us → relist w us = us) : g' = g := by
  have edge : ∀ x, g'.edge? x = g.edge? x := by
    intro x
    rw [h.edge]
    cases hx : g.edge? x with
    | none => rfl
    | some e => rw [Option.map_some, back hx]
  -- Targets and lists are as before, and a graph is determined by what can be looked up in it.
  have kept : ∀ {w d us}, g.value? w = some d → g.Lists w d us →
      ∃ d', g'.value? w = some d' ∧ g'.Lists w d' us := by
    intro w d us hd hlist
    have := h.lists hd hlist
    rwa [lists hd hlist] at this
  refine ext_of_lookup h.ctx h.size h.free h.gen (value?_eq_of_lists hc h.bare kept)
    (linked?_eq_of_lists hc edge (fun hd hlist => ?_) spares)
  obtain ⟨d', -, hlist'⟩ := kept hd hlist
  exact ⟨d', hlist'⟩

/-! ## The operations -/

section SetOperand

variable {user : Value} {i : Nat} {target : Option Value}

/-- An operand slot is emptied, and pointed to the new target if there is one. -/
theorem setOperand_redirects (hc : g.Coherent) (hd : g.value? user = some d)
    (hk : d.kind.isUser = true) (hu : d.operands[i]? = some u)
    (alive : ∀ v ∈ target, ∃ d, g.value? v = some d) :
    ∃ g', setOperand user i target g = .ok () g' ∧ g'.Coherent ∧
      g.Redirects g' (fun x e => if x = u then target else e.target)
        fun w us => if target = some w then u :: us.filter (· ≠ u) else us.filter (· ≠ u) := by
  obtain ⟨t, he⟩ := hc.owned (v := user) (i := i) (by simpa [slot?, hd] using hu)
  have run : setOperand user i target g =
      (do detach u; target.elim (pure ()) (attach u) : Run Graph Unit) g := by
    have hvalue : g.value user = .ok d := value_eq_ok_iff.2 hd
    cases target <;> simp only [setOperand, Run.bind_apply, Run.get_apply, Run.faulting_apply, hvalue, hk,
      if_true, hu, Option.elim]
  -- Emptying the slot is detaching it; filling it also attaches it.
  cases target with
  | none =>
    refine ⟨g.clear u, ?_, hc.clear u, (Redirects.clear hc he).congr (fun _ => rfl) fun _ _ => ?_⟩
    · rw [run, Run.bind_eq_ok_iff]
      exact ⟨(), _, detach_eq hc he, rfl⟩
    · exact if_neg (Option.some_ne_none _).symm
  | some v =>
    obtain ⟨dv, hv⟩ := alive v rfl
    obtain ⟨d', hd'⟩ := (alive_congr (bare?_clear g u v)).2 ⟨dv, hv⟩
    refine ⟨g.retarget u v, ?_, hc.retarget he hv,
      (Redirects.retarget hc he hv).congr (fun _ => rfl) fun _ _ => ?_⟩
    · rw [run, Run.bind_eq_ok_iff]
      exact ⟨(), _, detach_eq hc he, attach_eq (hc.clear u) (by rw [edge?_clear he, if_pos rfl]) hd'⟩
    · simp only [Option.some.injEq, eq_comm]

/-- What is not an instruction, or has no such slot, is refused. -/
theorem setOperand_rejected (hd : g.value? user = some d)
    (h : d.kind.isUser = true → d.operands.length ≤ i) :
    ∃ e, setOperand user i target g = .error (.rejected e) g := by
  have hvalue : g.value user = .ok d := value_eq_ok_iff.2 hd
  simp only [setOperand, Run.bind_apply, Run.get_apply, Run.faulting_apply, hvalue]
  by_cases hk : d.kind.isUser = true
  · have none : d.operands[i]? = none := List.getElem?_eq_none (h hk)
    simp only [hk, none]
    exact ⟨_, rfl⟩
  · simp only [hk]
    exact ⟨_, rfl⟩

end SetOperand

/-- Uses are emptied one after the other. -/
theorem detachAll_redirects (us : List Use) (hc : g.Coherent)
    (alive : ∀ u ∈ us, ∃ e, g.edge? u = some e) :
    ∃ g', us.forM detach g = .ok () g' ∧ g'.Coherent ∧
      g.Redirects g' (fun x e => if x ∈ us then none else e.target)
        fun _ ws => ws.filter (· ∉ us) := by
  -- On the uses: each round takes one of them from the list it is in.
  induction us generalizing g with
  | nil =>
    refine ⟨g, rfl, hc, (Redirects.refl g).congr (fun _ => rfl) fun _ _ => ?_⟩
    exact List.filter_eq_self.2 (by simp)
  | cons u us ih =>
    obtain ⟨e, hu⟩ := alive u List.mem_cons_self
    have first := Redirects.clear hc hu
    have alive' : ∀ x ∈ us, ∃ e, (g.clear u).edge? x = some e := by
      intro x hx
      obtain ⟨e', he'⟩ := alive x (List.mem_cons_of_mem _ hx)
      rw [first.edge, he']
      exact ⟨_, rfl⟩
    obtain ⟨g', run, hc', rest⟩ := ih (hc.clear u) alive'
    refine ⟨g', ?_, hc', (first.trans rest).congr (fun {x e} _ => ?_) fun {w d ws} _ _ => ?_⟩
    · rw [List.forM_eq_forM, List.forM_cons, Run.bind_eq_ok_iff]
      exact ⟨(), _, detach_eq hc hu, run⟩
    · by_cases hx : x = u <;> by_cases hmem : x ∈ us <;> simp [hx, hmem]
    · simp [List.filter_filter, Bool.and_comm]

/-- The use list of a value is emptied. -/
theorem dropAllUses_redirects (hc : g.Coherent) (hd : g.value? v = some d) {us : List Use}
    (hus : g.Lists v d us) :
    ∃ g', dropAllUses v g = .ok () g' ∧ g'.Coherent ∧
      g.Redirects g' (fun x e => if x ∈ us then none else e.target)
        fun _ ws => ws.filter (· ∉ us) := by
  rw [dropAllUses_eq ⟨hc, d, hd, hus⟩]
  exact detachAll_redirects us hc fun u hu => hus.alive hu

/-- The operand slots of a value are emptied. -/
theorem dropAllReferences_redirects (hc : g.Coherent) (hd : g.value? v = some d) :
    ∃ g', dropAllReferences v g = .ok () g' ∧ g'.Coherent ∧
      g.Redirects g' (fun x e => if x ∈ d.operands then none else e.target)
        fun _ ws => ws.filter (· ∉ d.operands) := by
  obtain ⟨g', run, hc', redirects⟩ := detachAll_redirects d.operands hc fun u hu => by
    obtain ⟨i, hi⟩ := List.mem_iff_getElem?.1 hu
    obtain ⟨t, ht⟩ := hc.owned (v := v) (i := i) (by simpa [slot?, hd] using hi)
    exact ⟨_, ht⟩
  refine ⟨g', ?_, hc', redirects⟩
  simp only [dropAllReferences, Run.bind_eq_ok_iff, Run.get_apply, Run.faulting_eq_ok_iff,
    value_eq_ok_iff]
  exact ⟨g, g, rfl, d, g, ⟨hd, rfl⟩, run⟩

section ReplaceAllUses

variable {old new : Value}

/-- The uses that are left of a list are pointed to another value, from the head on. Each enters at
the head of the other list, so that they are there in reverse. -/
theorem swapAll_redirects {us : List Use} (hne : old ≠ new) (h : g.Remaining old us)
    (alive : ∃ d, g.value? new = some d) :
    ∃ g', (us.forM fun u => do detach u; attach u new : Run Graph Unit) g = .ok () g' ∧
      g'.Coherent ∧ g.SparesEmpty g' ∧
      g.Redirects g' (fun x e => if x ∈ us then some new else e.target)
        fun w ws => if w = new then us.reverse ++ ws else ws.filter (· ∉ us) := by
  -- On the uses that are left: each round moves the head of the one list to the head of the other.
  induction us generalizing g with
  | nil =>
    refine ⟨g, rfl, h.1, fun hx _ => hx, (Redirects.refl g).congr (fun _ => rfl) fun _ _ => ?_⟩
    simp
  | cons u us ih =>
    have ⟨hc, d, hd, hlist⟩ := h
    obtain ⟨dn, hn⟩ := alive
    obtain ⟨e, he, ht⟩ := hlist.mem.1 List.mem_cons_self
    have first := Redirects.retarget hc he hn
    obtain ⟨d', hd'⟩ := (alive_congr (bare?_clear g u new)).2 ⟨dn, hn⟩
    have turn : (do detach u; attach u new : Run Graph Unit) g = .ok () (g.retarget u new) :=
      Run.bind_eq_ok_iff.2 ⟨(), _, detach_eq hc he,
        attach_eq (hc.clear u) (by rw [edge?_clear he, if_pos rfl]) hd'⟩
    obtain ⟨g', run, hc', spares, rest⟩ := ih (h.retarget hne hn) (first.alive_iff.2 ⟨dn, hn⟩)
    have untouched : g.SparesEmpty (g.retarget u new) :=
      hc.retarget_sparesEmpty he (by simp [ht]) hn
    refine ⟨g', ?_, hc', SparesEmpty.trans untouched spares,
      (first.trans rest).congr (fun {x e} _ => ?_) fun {w d ws} hw hws => ?_⟩
    · rw [List.forM_eq_forM, List.forM_cons, Run.bind_eq_ok_iff]
      exact ⟨(), _, turn, run⟩
    · by_cases hx : x = u <;> by_cases hmem : x ∈ us <;> simp [hx, hmem]
    · by_cases hnew : w = new
      · -- The use was in the list of `old`, so it is not in this one.
        have hout : u ∉ ws := by
          subst hnew
          exact fun hmem => hlist.not_mem hws hne hmem List.mem_cons_self
        rw [if_pos hnew, if_pos hnew, if_pos hnew, filter_ne_of_notMem hout]
        simp
      · rw [if_neg hnew, if_neg hnew, if_neg hnew, List.filter_filter]
        simp [Bool.and_comm]

/-- Replacing all uses points them to the new value, at the head of its list and in reverse
order. -/
theorem replaceAllUses_redirects {dn : ValueData} {us : List Use} (hc : g.Coherent) (hne : old ≠ new)
    (hd : g.value? old = some d) (hn : g.value? new = some dn) (hty : d.ty = dn.ty)
    (hus : g.Lists old d us) :
    ∃ g', replaceAllUses old new g = .ok () g' ∧ g'.Coherent ∧ g.SparesEmpty g' ∧
      g.Redirects g' (fun x e => if x ∈ us then some new else e.target)
        fun w ws => if w = new then us.reverse ++ ws else ws.filter (· ∉ us) := by
  have run : replaceAllUses old new g =
      (us.forM fun u => do detach u; attach u new : Run Graph Unit) g := by
    have hold : g.value old = .ok d := value_eq_ok_iff.2 hd
    have hnew : g.value new = .ok dn := value_eq_ok_iff.2 hn
    rw [← whileUsed_swap_eq hne ⟨hc, d, hd, hus⟩, ← hus.count]
    simp only [replaceAllUses, hne, if_false, Run.bind_apply, Run.get_apply, Run.faulting_apply, hold,
      hnew, hty, if_true]
  rw [run]
  exact swapAll_redirects hne ⟨hc, d, hd, hus⟩ ⟨dn, hn⟩

/-- A value that was not used gives the uses that it got back in the old order, and the graph is
what it was. -/
theorem replaceAllUses_back {dn : ValueData} (hc : g.Coherent) (hne : old ≠ new)
    (hd : g.value? old = some d) (hn : g.value? new = some dn) (hty : d.ty = dn.ty)
    (unused : g.Lists new dn []) (run : replaceAllUses old new g = .ok () g') :
    replaceAllUses new old g' = .ok () g := by
  obtain ⟨us, hus⟩ := hc.lists hd
  obtain ⟨g₁, run₁, hc', spares, there⟩ := replaceAllUses_redirects hc hne hd hn hty hus
  -- The run is the one whose effect is known.
  obtain rfl : g₁ = g' := by
    rw [run] at run₁
    cases run₁
    rfl
  -- After the first replacement `new` has the uses of `old`, in reverse.
  obtain ⟨dn', hn', hnew⟩ := there.lists hn unused
  obtain ⟨d', hd', -⟩ := there.lists hd hus
  rw [if_pos rfl, List.append_nil] at hnew
  have hty' : dn'.ty = d'.ty := by
    calc dn'.ty = dn.ty := there.ty_eq hn hn'
      _ = d.ty := hty.symm
      _ = d'.ty := (there.ty_eq hd hd').symm
  obtain ⟨g₂, run₂, -, spares', back⟩ :=
    replaceAllUses_redirects hc' (Ne.symm hne) hn' hd' hty' hnew
  -- Reversing twice gives the list back, and each use points to the old value again.
  obtain rfl : g₂ = g := by
    refine (there.trans back).eq_self hc (SparesEmpty.trans spares spares') (fun {x e} hx => ?_)
      fun {w dw ws} hw hws => ?_
    · simp only [List.mem_reverse]
      split
      · exact ((hus.mem_iff_target hx).1 ‹_›).symm
      · rfl
    · by_cases hwold : w = old
      · subst hwold
        rw [hd] at hw
        cases hw
        obtain rfl := hws.unique hus hd
        rw [if_pos rfl, if_neg hne]
        simp
      · rw [if_neg hwold]
        by_cases hwnew : w = new
        · subst hwnew
          rw [hn] at hw
          cases hw
          obtain rfl := hws.unique unused hn
          simp
        · -- The uses in the other lists are not those of `old`.
          have others : ws.filter (· ∉ us) = ws := hus.filter_not_mem hws (Ne.symm hwold)
          simp only [if_neg hwnew, List.mem_reverse, others]
  exact run₂

end ReplaceAllUses

end Graph

end SsaGraph
