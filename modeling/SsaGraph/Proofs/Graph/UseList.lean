import Mathlib.Data.List.Nodup
import SsaGraph.Graph.Edit
import SsaGraph.Proofs.Run

/-!
# Use lists

The uses of a value are threaded through the arena: the value has the first of them, and each edge
has the use before it and the use after it. `Lists g v d us` says that `us` is the list that the
graph holds for `v` in this form. Wherever `us` is cut, the use at the cut has the end of the one
part and the beginning of the other as its neighbours, and the uses in `us` are those that point to
`v`.

Attaching a use and detaching it change the value, the use and its neighbours one after the other.
`link` and `unlink` are these changes in one; the main results are `Lists.link`, that the one puts
the use in front of the list, and `Lists.unlink`, that the other takes it out from wherever it
stands. A use that points to another value is touched by neither, so the lists of other values stay
(`linked?_link_of_ne`, `linked?_unlink_of_ne`).
-/

namespace SsaGraph

namespace Graph

variable {g : Graph}

/-! ## Edges with and without their neighbours -/

/-- An edge is there exactly when it is with some neighbours. -/
theorem edge?_eq_some_iff {u : Use} {e : Edge} :
    g.edge? u = some e ↔ ∃ prev next, g.linked? u = some ⟨e, prev, next⟩ := by
  unfold edge?
  constructor
  · intro h
    obtain ⟨l, hl, rfl⟩ := Option.map_eq_some_iff.1 h
    exact ⟨l.prev, l.next, hl⟩
  · rintro ⟨prev, next, h⟩
    rw [h]
    rfl

/-- A linked edge is an edge. -/
theorem edge?_of_linked? {u : Use} {l : LinkedEdge} (h : g.linked? u = some l) :
    g.edge? u = some l.toEdge := by
  simp [edge?, h]

/-- An edge is in the arena. -/
theorem index_lt_of_edge? {u : Use} {e : Edge} (h : g.edge? u = some e) :
    u.index < g.slots.size := by
  by_contra hge
  simp [edge?, linked?, Array.getElem?_eq_none (by omega : g.slots.size ≤ u.index)] at h

/-- Edges at one place of the arena are one edge. -/
theorem eq_of_index_eq {x y : Use} {e e' : Edge} (hx : g.edge? x = some e)
    (hy : g.edge? y = some e') (h : x.index = y.index) : x = y := by
  obtain ⟨i, n⟩ := x
  obtain ⟨j, m⟩ := y
  simp only at h
  subst h
  obtain ⟨p, q, hx⟩ := edge?_eq_some_iff.1 hx
  obtain ⟨p', q', hy⟩ := edge?_eq_some_iff.1 hy
  unfold linked? at hx hy
  simp only at hx hy
  cases hs : g.slots[i]? with
  | none => simp [hs] at hx
  | some s =>
    simp only [hs, Option.ite_none_right_eq_some] at hx hy
    rw [← hx.1, ← hy.1]

/-- Changing a value keeps the edges. -/
@[simp] theorem edge?_modifyValue (g : Graph) (v : Value) (f : ValueData → ValueData) (u : Use) :
    (g.modifyValue v f).edge? u = g.edge? u := by
  simp [edge?]

/-- A change of the neighbours of an edge leaves the edge itself as it was. -/
theorem edge?_modifyEdge_of_eq (g : Graph) (u w : Use) {f : LinkedEdge → LinkedEdge}
    (h : ∀ l, (f l).toEdge = l.toEdge) : (g.modifyEdge u f).edge? w = g.edge? w := by
  simp only [edge?, linked?, modifyEdge, Array.getElem?_modify]
  by_cases hi : u.index = w.index
  · rw [if_pos hi]
    cases g.slots[w.index]? with
    | none => rfl
    | some s =>
      by_cases hg : s.gen = w.gen
      · cases he : s.edge <;> simp [hg, he, h]
      · simp [hg]
  · rw [if_neg hi]

/-- A change of an edge neither makes an edge nor takes one away. -/
theorem alive_modifyEdge (g : Graph) (u w : Use) (f : LinkedEdge → LinkedEdge) :
    (∃ e, (g.modifyEdge u f).edge? w = some e) ↔ ∃ e, g.edge? w = some e := by
  simp only [edge?, linked?, modifyEdge, Array.getElem?_modify, ← Option.isSome_iff_exists]
  by_cases hi : u.index = w.index
  · rw [if_pos hi]
    cases g.slots[w.index]? with
    | none => rfl
    | some s => by_cases hg : s.gen = w.gen <;> simp [hg]
  · rw [if_neg hi]

/-! ## Changing neighbours -/

/-- Sets what comes before a use in its list, if there is such a use. -/
def withPrev (g : Graph) (u prev : Option Use) : Graph :=
  match u with
  | some u => g.modifyEdge u ({ · with prev })
  | none => g

/-- Sets what comes after a use in the list of `v`, or what comes first if there is no such use. -/
def withNext (g : Graph) (v : Value) (u next : Option Use) : Graph :=
  match u with
  | some u => g.modifyEdge u ({ · with next })
  | none => g.modifyValue v ({ · with firstUse := next })

/-- Linking an edge backward keeps the values. -/
@[simp] theorem value?_withPrev (g : Graph) (u prev : Option Use) (w : Value) :
    (g.withPrev u prev).value? w = g.value? w := by
  unfold withPrev
  split <;> rfl

/-- Linking an edge backward keeps the edges apart from their neighbours. -/
@[simp] theorem edge?_withPrev (g : Graph) (u prev : Option Use) (w : Use) :
    (g.withPrev u prev).edge? w = g.edge? w := by
  unfold withPrev
  split
  · exact edge?_modifyEdge_of_eq g _ w fun _ => rfl
  · rfl

/-- Linking an edge forward keeps the edges apart from their neighbours. -/
@[simp] theorem edge?_withNext (g : Graph) (v : Value) (u next : Option Use) (w : Use) :
    (g.withNext v u next).edge? w = g.edge? w := by
  unfold withNext
  split
  · exact edge?_modifyEdge_of_eq g _ w fun _ => rfl
  · exact edge?_modifyValue ..

/-- A change of a live edge is seen at that edge only. -/
theorem linked?_modifyEdge_of_alive {u : Use} (h : ∃ e, g.edge? u = some e)
    (f : LinkedEdge → LinkedEdge) (w : Use) :
    (g.modifyEdge u f).linked? w =
      if some u = some w then (g.linked? w).map f else g.linked? w := by
  obtain ⟨e, he⟩ := h
  obtain ⟨prev, next, hl⟩ := edge?_eq_some_iff.1 he
  rw [linked?_modifyEdge hl]
  by_cases hw : w = u
  · subst hw
    simp [hl]
  · simp [hw, Ne.symm hw]

/-- The linked edges after one has been linked backward. -/
theorem linked?_withPrev {u prev : Option Use} (h : ∀ x ∈ u, ∃ e, g.edge? x = some e) (w : Use) :
    (g.withPrev u prev).linked? w =
      if u = some w then (g.linked? w).map ({ · with prev }) else g.linked? w := by
  cases u with
  | none => simp [withPrev]
  | some x => exact linked?_modifyEdge_of_alive (h x rfl) _ w

/-- The linked edges after one has been linked forward. -/
theorem linked?_withNext {v : Value} {u next : Option Use} (h : ∀ x ∈ u, ∃ e, g.edge? x = some e)
    (w : Use) :
    (g.withNext v u next).linked? w =
      if u = some w then (g.linked? w).map ({ · with next }) else g.linked? w := by
  cases u with
  | none => simp [withNext]
  | some x => exact linked?_modifyEdge_of_alive (h x rfl) _ w

/-! ## Linking and unlinking -/

/-- What comes first in the list of a value. -/
def first? (g : Graph) (v : Value) : Option Use := (g.value? v).bind (·.firstUse)

/-- Points an empty use to `v`, and puts it at the head of the list of `v`. -/
def link (g : Graph) (u : Use) (v : Value) : Graph :=
  ((g.modifyValue v fun d => { d with firstUse := some u, numUses := d.numUses + 1 }).withPrev
    (g.first? v) (some u)).modifyEdge u
      ({ · with target := some v, prev := none, next := g.first? v })

/-- Empties a use that points to `v` and has the given neighbours, and takes it out of the list of
`v`. -/
def unlink (g : Graph) (u : Use) (v : Value) (prev next : Option Use) : Graph :=
  (((g.modifyEdge u ({ · with target := none, prev := none, next := none })).withNext v prev
    next).withPrev next prev).modifyValue v fun d => { d with numUses := d.numUses - 1 }

/-- The values after a use has been attached. -/
theorem value?_link (g : Graph) (u : Use) (v w : Value) :
    (g.link u v).value? w =
      if w = v then
        (g.value? v).map fun d => { d with firstUse := some u, numUses := d.numUses + 1 }
      else g.value? w := by
  rw [link, value?_modifyEdge, value?_withPrev, value?_modifyValue]

/-- The edges after a use has been attached. -/
theorem edge?_link {u : Use} {e : Edge} (v : Value) (w : Use) (h : g.edge? u = some e) :
    (g.link u v).edge? w = if w = u then some { e with target := some v } else g.edge? w := by
  have hu : ((g.modifyValue v fun d =>
      { d with firstUse := some u, numUses := d.numUses + 1 }).withPrev (g.first? v)
        (some u)).edge? u = some e := by
    rw [edge?_withPrev, edge?_modifyValue, h]
  obtain ⟨p, n, hl⟩ := edge?_eq_some_iff.1 hu
  rw [link, edge?, linked?_modifyEdge hl]
  split
  · rfl
  · rw [← edge?, edge?_withPrev, edge?_modifyValue]

/-- The values after a use has been taken out of its list. -/
theorem value?_unlink (g : Graph) (u : Use) (v : Value) (prev next : Option Use) (w : Value) :
    (g.unlink u v prev next).value? w =
      if w = v then
        (g.value? v).map fun d => { d with
          firstUse := if prev = none then next else d.firstUse
          numUses := d.numUses - 1 }
      else g.value? w := by
  rw [unlink, value?_modifyValue, value?_withPrev, value?_withPrev]
  unfold withNext
  cases prev with
  | none =>
    simp only [value?_modifyValue, value?_modifyEdge]
    by_cases hw : w = v
    · simp [hw, Function.comp_def]
    · simp [hw]
  | some p => simp

/-- The edges after a use has been taken out of its list. -/
theorem edge?_unlink {u : Use} {e : Edge} (v : Value) (prev next : Option Use) (w : Use)
    (h : g.edge? u = some e) :
    (g.unlink u v prev next).edge? w =
      if w = u then some { e with target := none } else g.edge? w := by
  obtain ⟨p, n, hl⟩ := edge?_eq_some_iff.1 h
  rw [unlink, edge?_modifyValue, edge?_withPrev, edge?_withNext, edge?, linked?_modifyEdge hl]
  split <;> rfl

/-! ## The list of a value -/

/-- The graph holds the list `us` for the value `v`, whose data is `d`. -/
structure Lists (g : Graph) (v : Value) (d : ValueData) (us : List Use) : Prop where
  /-- The value has the first use. -/
  first : d.firstUse = us.head?
  /-- Each use has its neighbours. -/
  linked : ∀ as u bs, us = as ++ u :: bs → ∃ e, g.linked? u = some ⟨e, as.getLast?, bs.head?⟩
  /-- The uses are those that point to the value. -/
  mem : ∀ {u}, u ∈ us ↔ ∃ e, g.edge? u = some e ∧ e.target = some v
  /-- None comes twice. -/
  nodup : us.Nodup
  /-- The value counts them. -/
  count : d.numUses = us.length

namespace Lists

variable {g' : Graph} {v : Value} {d : ValueData} {us : List Use} {u : Use} {e : Edge}

/-- A use in the list has an edge. -/
theorem alive (h : g.Lists v d us) (hu : u ∈ us) : ∃ e, g.edge? u = some e := by
  obtain ⟨e, he, -⟩ := h.mem.1 hu
  exact ⟨e, he⟩

/-- The list stays if its uses keep their edges and neighbours and no other comes to point to the
value. -/
theorem congr (h : g.Lists v d us) {d' : ValueData} (first : d'.firstUse = d.firstUse)
    (count : d'.numUses = d.numUses) (linked : ∀ u ∈ us, g'.linked? u = g.linked? u)
    (mem : ∀ {u e}, g'.edge? u = some e → e.target = some v → u ∈ us) : g'.Lists v d' us := by
  refine ⟨first.trans h.first, ?_, ?_, h.nodup, count.trans h.count⟩
  · intro as u bs hus
    rw [linked u (by simp [hus])]
    exact h.linked _ _ _ hus
  · intro u
    constructor
    · intro hu
      obtain ⟨e, he, ht⟩ := h.mem.1 hu
      exact ⟨e, by rwa [edge?, linked u hu], ht⟩
    · rintro ⟨e, he, ht⟩
      exact mem he ht

/-! ### In front -/

/-- The linked edges after a use has been attached: it comes first, before the old head. -/
theorem linked?_link (h : g.Lists v d us) (hv : g.value? v = some d) (hu : g.edge? u = some e)
    (x : Use) :
    (g.link u v).linked? x =
      if x = u then some ⟨{ e with target := some v }, none, us.head?⟩
      else if us.head? = some x then (g.linked? x).map ({ · with prev := some u })
      else g.linked? x := by
  -- The head of the list is what gets its link back to the new use.
  have hfirst : g.first? v = us.head? := by rw [first?, hv, Option.bind_some, h.first]
  have hhead : ∀ y ∈ us.head?, ∃ e, (g.modifyValue v fun d =>
      { d with firstUse := some u, numUses := d.numUses + 1 }).edge? y = some e := by
    intro y hy
    rw [edge?_modifyValue]
    exact h.alive (List.mem_of_mem_head? hy)
  have hold : ((g.modifyValue v fun d =>
      { d with firstUse := some u, numUses := d.numUses + 1 }).withPrev us.head?
        (some u)).edge? u = some e := by
    rw [edge?_withPrev, edge?_modifyValue, hu]
  obtain ⟨p, n, hl⟩ := edge?_eq_some_iff.1 hold
  -- The three writes of linking are looked up one by one.
  rw [link, hfirst, linked?_modifyEdge hl, linked?_withPrev hhead, linked?_modifyValue]

/-- An empty use is put in front of the list. -/
theorem link (h : g.Lists v d us) (hv : g.value? v = some d) (hu : g.edge? u = some e)
    (he : e.target = none) :
    (g.link u v).Lists v { d with firstUse := some u, numUses := d.numUses + 1 } (u :: us) := by
  have hnew : u ∉ us := by
    intro hmem
    obtain ⟨e', he', ht⟩ := h.mem.1 hmem
    rw [hu] at he'
    cases he'
    rw [he] at ht
    cases ht
  have hlink := h.linked?_link hv hu
  -- The new head has the old one behind it, the old head has the new one before it, and the rest is
  -- untouched.
  refine ⟨rfl, ?_, ?_, List.nodup_cons.2 ⟨hnew, h.nodup⟩, by simp [h.count]⟩
  · intro as x bs hus
    cases as with
    | nil =>
      obtain ⟨rfl, rfl⟩ := List.cons.inj hus
      exact ⟨_, by rw [hlink, if_pos rfl]; rfl⟩
    | cons a as =>
      rw [List.cons_append] at hus
      obtain ⟨rfl, rfl⟩ := List.cons.inj hus
      obtain ⟨e', hx⟩ := h.linked _ _ _ rfl
      have hxu : x ≠ u := by
        rintro rfl
        simp at hnew
      refine ⟨e', ?_⟩
      rw [hlink, if_neg hxu, hx]
      cases as with
      | nil => simp
      | cons b as =>
        -- The use is not the one that was first.
        have hbx : b ≠ x := by
          rintro rfl
          simpa using h.nodup
        simp [hbx]
  · intro x
    rw [edge?_link v x hu]
    by_cases hxu : x = u
    · simp [hxu]
    · simp [hxu, h.mem]

/-! ### Anywhere -/

/-- The linked edges after a use has been taken out: its neighbours become neighbours. -/
theorem linked?_unlink (h : g.Lists v d us) {as bs : List Use} (hus : us = as ++ u :: bs) (x : Use)
    (hxu : x ≠ u) :
    (g.unlink u v as.getLast? bs.head?).linked? x = (g.linked? x).map fun l =>
      { l with
        prev := if bs.head? = some x then as.getLast? else l.prev
        next := if as.getLast? = some x then bs.head? else l.next } := by
  obtain ⟨e, hu⟩ := h.linked _ _ _ hus
  have hmod := Graph.linked?_modifyEdge hu ({ · with target := none, prev := none, next := none })
  -- After the first of the four writes every use of the list still resolves.
  have hclear : ∀ {y}, y ∈ us →
      ∃ e, (g.modifyEdge u ({ · with target := none, prev := none, next := none })).edge? y =
        some e := by
    intro y hy
    obtain ⟨e', he'⟩ := h.alive hy
    by_cases hyu : y = u
    · exact ⟨_, by rw [edge?, hmod, if_pos hyu]; rfl⟩
    · exact ⟨e', by rw [edge?, hmod, if_neg hyu]; exact he'⟩
  -- The two neighbours are in the list as well.
  have hprev : ∀ y ∈ as.getLast?, y ∈ us := by
    intro y hy
    rw [hus]
    exact List.mem_append_left _ (List.mem_of_getLast? hy)
  have hnext : ∀ y ∈ bs.head?, y ∈ us := by
    intro y hy
    rw [hus]
    exact List.mem_append_right _ (List.mem_cons_of_mem _ (List.mem_of_mem_head? hy))
  rw [unlink, linked?_modifyValue, linked?_withPrev, linked?_withNext, hmod, if_neg hxu]
  · cases g.linked? x with
    | none => simp
    | some l => by_cases hp : as.getLast? = some x <;> by_cases hn : bs.head? = some x <;> simp [hp, hn]
  · intro y hy
    exact hclear (hprev y hy)
  · intro y hy
    rw [edge?_withNext]
    exact hclear (hnext y hy)

/-- A use after the one that is taken out. -/
theorem linked?_unlink_after {as bs cs : List Use} {x : Use}
    (h : g.Lists v d (as ++ u :: (bs ++ x :: cs))) :
    ∃ e, (g.unlink u v as.getLast? (bs ++ x :: cs).head?).linked? x =
      some ⟨e, (as ++ bs).getLast?, cs.head?⟩ := by
  obtain ⟨e, hx⟩ := h.linked (as ++ u :: bs) x cs (by simp)
  have hnd := h.nodup
  have hxu : x ≠ u := by
    rintro rfl
    simp [List.nodup_append] at hnd
  have hlast : as.getLast? ≠ some x := by
    intro hlast
    exact (List.nodup_append.1 hnd).2.2 x (List.mem_of_getLast? hlast) x (by simp) rfl
  refine ⟨e, ?_⟩
  rw [h.linked?_unlink rfl x hxu, hx]
  -- The next use gets the neighbour of the one taken out; those further on keep theirs.
  cases bs with
  | nil => simp [hlast]
  | cons b bs =>
    have hbx : b ≠ x := by
      rintro rfl
      simp [List.nodup_append] at hnd
    simp [hlast, hbx]

/-- A use before the one that is taken out. -/
theorem linked?_unlink_before {as bs cs : List Use} {x : Use}
    (h : g.Lists v d ((as ++ x :: bs) ++ u :: cs)) :
    ∃ e, (g.unlink u v (as ++ x :: bs).getLast? cs.head?).linked? x =
      some ⟨e, as.getLast?, (bs ++ cs).head?⟩ := by
  obtain ⟨e, hx⟩ := h.linked as x (bs ++ u :: cs) (by simp)
  have hnd := h.nodup
  -- The list has no repetitions, so the use is neither the one taken out nor the one behind it.
  have hxu : x ≠ u := by
    rintro rfl
    simp [List.nodup_append] at hnd
  have hhead : cs.head? ≠ some x := by
    intro hhead
    have hmem : x ∈ u :: cs := List.mem_cons_of_mem _ (List.mem_of_mem_head? hhead)
    exact (List.nodup_append.1 hnd).2.2 x (by simp) x hmem rfl
  refine ⟨e, ?_⟩
  rw [h.linked?_unlink rfl x hxu, hx]
  -- The use right before gets the neighbour of the one taken out; those further up keep theirs.
  rcases List.eq_nil_or_concat bs with rfl | ⟨bs, b, rfl⟩
  · simp [hhead]
  · rw [List.concat_eq_append] at hnd ⊢
    have hlast : (as ++ x :: (bs ++ [b])).getLast? = some b := by
      rw [← List.cons_append, ← List.append_assoc, List.getLast?_concat]
    have hbx : b ≠ x := by
      rintro rfl
      simp [List.nodup_append] at hnd
    simp only [hlast]
    cases bs <;> simp [hhead, hbx]

/-- A use is taken out of the list, and its neighbours become neighbours. -/
theorem unlink (h : g.Lists v d us) {as bs : List Use} (hus : us = as ++ u :: bs) :
    (g.unlink u v as.getLast? bs.head?).Lists v
      { d with
        firstUse := if as.getLast? = none then bs.head? else d.firstUse
        numUses := d.numUses - 1 } (as ++ bs) := by
  subst hus
  obtain ⟨e, hu⟩ := h.linked _ _ _ rfl
  obtain ⟨hout, hrest⟩ := List.nodup_cons.1 (List.nodup_middle.1 h.nodup)
  refine ⟨?_, ?_, ?_, hrest, by simp [h.count]⟩
  · rw [h.first]
    cases as <;> simp
  · intro cs x ds hsplit
    -- Any use of the remaining list stood before or behind the one taken out.
    rcases List.append_eq_append_iff.1 hsplit with ⟨as', rfl, rfl⟩ | ⟨cs', rfl, hds⟩
    · exact h.linked?_unlink_after
    · cases cs' with
      | nil =>
        obtain rfl : bs = [] ++ x :: ds := by simpa using hds.symm
        simpa using h.linked?_unlink_after
      | cons c cs' =>
        obtain ⟨rfl, rfl⟩ := List.cons.inj hds
        exact h.linked?_unlink_before
  · -- The uses of the remaining list are those that still point to the value.
    intro x
    rw [edge?_unlink _ _ _ _ (edge?_of_linked? hu)]
    by_cases hxu : x = u
    · simp [hxu, hout]
    · have := h.mem (u := x)
      simpa [hxu] using this

/-! ### Uses of other values -/

/-- Linking leaves a use alone that points to another value. -/
theorem linked?_link_of_ne (h : g.Lists v d us) (hv : g.value? v = some d) (hu : g.edge? u = some e)
    {x : Use} {e' : Edge} (hxu : x ≠ u) (hx : g.edge? x = some e') (ht : e'.target ≠ some v) :
    (g.link u v).linked? x = g.linked? x := by
  rw [h.linked?_link hv hu, if_neg hxu, if_neg]
  intro hhead
  obtain ⟨e₁, he₁, ht₁⟩ := h.mem.1 (List.mem_of_mem_head? hhead)
  rw [hx] at he₁
  cases he₁
  exact ht ht₁

/-- Unlinking leaves a use alone that points to another value. -/
theorem linked?_unlink_of_ne (h : g.Lists v d us) {as bs : List Use} (hus : us = as ++ u :: bs)
    {x : Use} {e' : Edge} (hxu : x ≠ u) (hx : g.edge? x = some e') (ht : e'.target ≠ some v) :
    (g.unlink u v as.getLast? bs.head?).linked? x = g.linked? x := by
  have hout : x ∉ us := by
    intro hmem
    obtain ⟨e₁, he₁, ht₁⟩ := h.mem.1 hmem
    rw [hx] at he₁
    cases he₁
    exact ht ht₁
  rw [hus] at hout
  have hlast : as.getLast? ≠ some x := fun hlast =>
    hout (List.mem_append_left _ (List.mem_of_getLast? hlast))
  have hhead : bs.head? ≠ some x := fun hhead =>
    hout (List.mem_append_right _ (List.mem_cons_of_mem _ (List.mem_of_mem_head? hhead)))
  rw [h.linked?_unlink hus x hxu]
  simp [hlast, hhead]

/-! ### Walking along the list -/

/-- Following the list from any place on gives the rest of it, if the bound allows. -/
theorem follow_eq (h : g.Lists v d us) (as bs : List Use) (hus : us = as ++ bs) {bound : Nat}
    (hbound : bs.length ≤ bound) : g.follow bound bs.head? = .ok bs := by
  induction bs generalizing as bound with
  | nil => cases bound <;> rfl
  | cons u bs ih =>
    obtain ⟨e, hu⟩ := h.linked _ _ _ hus
    obtain ⟨bound, rfl⟩ := Nat.exists_eq_succ_of_ne_zero (n := bound) (by rintro rfl; simp at hbound)
    have hlinked : g.linked u = .ok ⟨e, as.getLast?, bs.head?⟩ := by
      rw [Graph.linked, hu]
    have hrest := ih (as ++ [u]) (by simp [hus]) (Nat.le_of_succ_le_succ hbound)
    simp [follow, hlinked, hrest]

/-- The uses are at different places of the arena. -/
theorem length_le (h : g.Lists v d us) : us.length ≤ g.slots.size := by
  have hnd : (us.map (·.index)).Nodup := by
    refine h.nodup.map_on fun x hx y hy hxy => ?_
    obtain ⟨e, he⟩ := h.alive hx
    obtain ⟨e', he'⟩ := h.alive hy
    exact eq_of_index_eq he he' hxy
  have hsub : us.map (·.index) ⊆ List.range g.slots.size := by
    intro k hk
    obtain ⟨x, hx, rfl⟩ := List.mem_map.1 hk
    obtain ⟨e, he⟩ := h.alive hx
    exact List.mem_range.2 (index_lt_of_edge? he)
  simpa using List.Nodup.length_le_of_subset hnd hsub

/-- The last use in the list has none after it. -/
theorem last_next (h : g.Lists v d us) (hu : us.getLast? = some u) :
    ∃ e prev, g.linked? u = some ⟨e, prev, none⟩ := by
  obtain ⟨as, rfl⟩ := List.getLast?_eq_some_iff.1 hu
  obtain ⟨e, linked⟩ := h.linked as u [] rfl
  exact ⟨e, as.getLast?, linked⟩

/-- Asked for the uses of the value, the graph gives the list. -/
theorem uses_eq (h : g.Lists v d us) (hv : g.value? v = some d) : g.uses v = .ok us := by
  have hvalue : g.value v = .ok d := by rw [Graph.value, hv]
  have hfollow := h.follow_eq [] us rfl h.length_le
  simp [uses, hvalue, h.first, hfollow]

end Lists

end Graph

end SsaGraph
