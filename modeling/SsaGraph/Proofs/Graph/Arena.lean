import SsaGraph.Proofs.Class
import SsaGraph.Proofs.Course

/-!
# The arena over time

Places of the arena are handed out and given up again, and only their generations tell the edges
apart that were at one place at different times. Two relations say what happens to the places.

`Occupies` is a change that gives up no place: generations stay, and so do operand slots. All that
attaches, detaches, creates and builds is such a change. `Vacates` is a change that hands out no
place: the places that it gives up are those that become vacant, each of them counts one generation,
and operand slots stay with their users. Erasure is such a change. No request does both, so that a
place which is vacant after a request and was not before has been given up once by it. `Turnover` is
what the two have in common, and holds of every answered request.
-/

namespace SsaGraph

namespace Graph

variable {g g' g'' : Graph}

/-- The generation of a place of the arena. -/
def gen? (g : Graph) (k : Nat) : Option Nat := g.slots[k]?.map (·.gen)

/-- A use that resolves is of the generation of its place. -/
theorem gen?_of_edge? {u : Use} {e : Edge} (h : g.edge? u = some e) :
    g.gen? u.index = some u.gen := by
  unfold edge? linked? at h
  unfold gen?
  cases hs : g.slots[u.index]? with
  | none => simp [hs] at h
  | some s =>
    by_cases hgen : s.gen = u.gen
    · simp [hgen]
    · simp [hs, hgen] at h

/-! ## Elementary changes -/

/-- Changing a value keeps the generations. -/
@[simp] theorem gen?_modifyValue (g : Graph) (v : Value) (f : ValueData → ValueData) (k : Nat) :
    (g.modifyValue v f).gen? k = g.gen? k := by
  unfold modifyValue
  split <;> rfl

/-- Changing a value keeps the vacant places. -/
@[simp] theorem free_modifyValue (g : Graph) (v : Value) (f : ValueData → ValueData) :
    (g.modifyValue v f).free = g.free := by
  unfold modifyValue
  split <;> rfl

/-- Changing an edge keeps the generations. -/
@[simp] theorem gen?_modifyEdge (g : Graph) (u : Use) (f : LinkedEdge → LinkedEdge) (k : Nat) :
    (g.modifyEdge u f).gen? k = g.gen? k := by
  simp only [gen?, modifyEdge, Array.getElem?_modify]
  split
  · cases g.slots[k]? <;> rfl
  · rfl

/-- Linking an edge backward keeps the generations. -/
@[simp] theorem gen?_withPrev (g : Graph) (u prev : Option Use) (k : Nat) :
    (g.withPrev u prev).gen? k = g.gen? k := by
  unfold withPrev
  split <;> simp

/-- Linking an edge backward keeps the vacant places. -/
@[simp] theorem free_withPrev (g : Graph) (u prev : Option Use) :
    (g.withPrev u prev).free = g.free := by
  unfold withPrev
  split <;> rfl

/-- Linking an edge forward keeps the generations. -/
@[simp] theorem gen?_withNext (g : Graph) (v : Value) (u next : Option Use) (k : Nat) :
    (g.withNext v u next).gen? k = g.gen? k := by
  unfold withNext
  split <;> simp

/-- Linking an edge forward keeps the vacant places. -/
@[simp] theorem free_withNext (g : Graph) (v : Value) (u next : Option Use) :
    (g.withNext v u next).free = g.free := by
  unfold withNext
  split
  · rfl
  · exact free_modifyValue ..

/-- Attaching a use keeps the generations. -/
@[simp] theorem gen?_link (g : Graph) (u : Use) (v : Value) (k : Nat) :
    (g.link u v).gen? k = g.gen? k := by
  simp [link]

/-- Attaching a use keeps the vacant places. -/
@[simp] theorem free_link (g : Graph) (u : Use) (v : Value) : (g.link u v).free = g.free := by
  simp [link, modifyEdge]

/-- Emptying a use keeps the generations. -/
@[simp] theorem gen?_clear (g : Graph) (u : Use) (k : Nat) : (g.clear u).gen? k = g.gen? k := by
  unfold clear
  split <;> simp [unlink]

/-- Emptying a use keeps the vacant places. -/
@[simp] theorem free_clear (g : Graph) (u : Use) : (g.clear u).free = g.free := by
  unfold clear
  split
  · simp [unlink, modifyEdge]
  · rfl

/-- Removing a value keeps the generations. -/
@[simp] theorem gen?_drop (g : Graph) (v : Value) (k : Nat) : (g.drop v).gen? k = g.gen? k := by
  unfold drop
  split <;> rfl

/-- Removing a value keeps the vacant places. -/
@[simp] theorem free_drop (g : Graph) (v : Value) : (g.drop v).free = g.free := by
  unfold drop
  split <;> rfl

/-- A place that is given up counts one generation. -/
theorem gen?_release (g : Graph) (u : Use) (k : Nat) :
    (g.release u).gen? k =
      if k = u.index then (g.gen? k).map fun n => (n + 1) % genLimit else g.gen? k := by
  simp only [gen?, release, Array.getElem?_modify]
  by_cases h : u.index = k
  · subst h
    cases g.slots[u.index]? <;> simp
  · simp [h, Ne.symm h]

/-- The places there are keep their generations when one is handed out. -/
theorem gen?_allocate {k n : Nat} (h : g.gen? k = some n) (user : Value) (i : Nat) :
    (g.allocate user i).2.gen? k = some n := by
  unfold allocate
  split
  · simp only [gen?, Array.getElem?_modify] at h ⊢
    obtain ⟨s, hs, rfl⟩ := Option.map_eq_some_iff.1 h
    split <;> simp [hs]
  · obtain ⟨s, hs, rfl⟩ := Option.map_eq_some_iff.1 h
    have hlt : k < g.slots.size := (Array.getElem?_eq_some_iff.1 hs).1
    simp [gen?, Array.getElem?_push, Nat.ne_of_lt hlt, hs]

/-- Allocating an edge makes no place vacant. -/
theorem free_allocate_subset (g : Graph) (user : Value) (i : Nat) :
    (g.allocate user i).2.free ⊆ g.free := by
  unfold allocate
  split
  · rename_i k free hfree
    rw [hfree]
    exact List.subset_cons_self k free
  · exact List.Subset.refl _

/-! ## Nothing is given up -/

/-- No place of the arena is given up, and no operand slot is lost. -/
structure Occupies (g g' : Graph) : Prop where
  /-- Only places that were vacant are vacant. -/
  free : g'.free ⊆ g.free
  /-- The places keep their generations. -/
  gen : ∀ {k n}, g.gen? k = some n → g'.gen? k = some n
  /-- The operand slots keep their uses. -/
  slot : ∀ {p u}, g.slot? p = some u → g'.slot? p = some u

namespace Occupies

/-- Nothing is given up while nothing happens. -/
theorem refl (g : Graph) : g.Occupies g := ⟨List.Subset.refl _, id, id⟩

/-- If nothing is given up twice, nothing is given up. -/
theorem trans (h : g.Occupies g') (h' : g'.Occupies g'') : g.Occupies g'' :=
  ⟨List.Subset.trans h'.free h.free, fun hk => h'.gen (h.gen hk), fun hp => h'.slot (h.slot hp)⟩

/-- Nothing is given up over a chain of such steps. -/
theorem of_chain (h : Relation.ReflTransGen Occupies g g') : g.Occupies g' := by
  induction h with
  | refl => exact refl g
  | tail _ step ih => exact ih.trans step

/-- Nothing is given up if places, generations and operand slots are as before. -/
theorem of_bare (free : g'.free = g.free) (gen : ∀ k, g'.gen? k = g.gen? k)
    (bare : ∀ v, g'.bare? v = g.bare? v) : g.Occupies g' := by
  refine ⟨?_, fun hk => ?_, fun hp => ?_⟩
  · rw [free]
    exact List.Subset.refl _
  · rw [gen, hk]
  · rw [slot?_congr bare, hp]

/-- Emptying a use gives up nothing. -/
theorem clear (g : Graph) (u : Use) : g.Occupies (g.clear u) :=
  of_bare (by simp) (by simp) (bare?_clear g u)

/-- Attaching a use gives up nothing. -/
theorem link (g : Graph) (u : Use) (v : Value) : g.Occupies (g.link u v) :=
  of_bare (by simp) (by simp) (by simp)

/-- Allocating an edge gives up nothing. -/
theorem allocate (g : Graph) (user : Value) (i : Nat) : g.Occupies (g.allocate user i).2 := by
  refine ⟨free_allocate_subset g user i, fun hk => gen?_allocate hk user i, fun hp => ?_⟩
  rwa [slot?_congr (bare?_allocate g user i)]

/-- Allocating several edges gives up nothing. -/
theorem allocateMany (user : Value) (count first : Nat) (g : Graph) :
    g.Occupies (allocateMany user first count g).2 := by
  induction count generalizing first g with
  | zero => exact refl g
  | succ count ih => exact (allocate g user first).trans (ih (first + 1) _)

/-- A new value is at a place of its own. -/
theorem push (g : Graph) (d : ValueData) : g.Occupies (g.push d).2 := by
  refine ⟨List.Subset.refl _, id, fun {p u} hp => ?_⟩
  obtain ⟨d', hd', hu⟩ := Option.bind_eq_some_iff.1 hp
  have hne : p.1 ≠ (g.push d).1 := by
    intro heq
    rw [heq] at hd'
    simp [Graph.push, value?_next] at hd'
  rw [slot?, value?_push, if_neg hne, hd']
  exact hu

/-- An operand slot is added after the others. -/
theorem extend (g : Graph) (v : Value) (u : Use) :
    g.Occupies (g.modifyValue v fun d => { d with operands := d.operands ++ [u] }) := by
  refine ⟨?_, fun hk => ?_, fun {p x} hp => ?_⟩
  · rw [free_modifyValue]
    exact List.Subset.refl _
  · rw [gen?_modifyValue, hk]
  · obtain ⟨d, hd, hx⟩ := Option.bind_eq_some_iff.1 hp
    rw [slot?, value?_modifyValue]
    by_cases hv : p.1 = v
    · rw [if_pos hv, ← hv, hd]
      have hlt : p.2 < d.operands.length := (List.getElem?_eq_some_iff.1 hx).1
      simp [List.getElem?_append_left hlt, hx]
    · rw [if_neg hv, hd]
      exact hx

/-- A value is named, or its kind touched up. -/
theorem modifyValue (g : Graph) (v : Value) {f : ValueData → ValueData}
    (operands : ∀ d, (f d).operands = d.operands) : g.Occupies (g.modifyValue v f) := by
  refine ⟨?_, fun hk => ?_, fun {p x} hp => ?_⟩
  · rw [free_modifyValue]
    exact List.Subset.refl _
  · rw [gen?_modifyValue, hk]
  · obtain ⟨d, hd, hx⟩ := Option.bind_eq_some_iff.1 hp
    rw [slot?, value?_modifyValue]
    by_cases hv : p.1 = v
    · rw [if_pos hv, ← hv, hd]
      simp [operands, hx]
    · rw [if_neg hv, hd]
      exact hx

end Occupies

open Run (Steps)

/-- An unconditional change gives up nothing if its function does not. -/
theorem modify_occupies {f : Graph → Graph} (h : g.Occupies (f g)) :
    Steps Occupies (modify f) g := by
  rintro a g' ⟨⟩
  exact .single h

/-- An unconditional change with an answer gives up nothing if its function does not. -/
theorem modifyGet_occupies {α : Type} {f : Graph → α × Graph} (h : g.Occupies (f g).2) :
    Steps Occupies (modifyGet f) g := by
  rintro a g' ⟨⟩
  exact .single h

/-- Detaching an edge gives up nothing. -/
theorem detach_occupies (u : Use) (g : Graph) : Steps Occupies (detach u) g := by
  intro a g' h
  obtain ⟨-, rfl⟩ := detach_ok h
  exact .single (.clear g u)

/-- Attaching an edge gives up nothing. -/
theorem attach_occupies (u : Use) (v : Value) (g : Graph) : Steps Occupies (attach u v) g := by
  intro a g' h
  obtain ⟨-, -, rfl⟩ := attach_ok h
  exact .single (.link g u v)

/-- Creating a user gives up nothing. -/
theorem newUser_occupies (ty : Ty) (op : Operation) (name : Option String)
    (operands : List (Option Value)) (g : Graph) :
    Steps Occupies (newUser ty op name operands) g := by
  refine .get_bind (.get_bind (.bind (modifyGet_occupies (.allocateMany _ _ _ g)) fun us g₁ _ => ?_))
  refine .bind (modify_occupies (.push g₁ _)) fun _ g₂ _ => .bind ?_ fun _ _ _ => .pure
  refine .forM _ (fun p _ g => ?_) g₂
  obtain ⟨u, operand⟩ := p
  cases operand with
  | none => exact .pure
  | some v => exact attach_occupies u v g

/-- Adding an operand gives up nothing. -/
theorem pushOperand_occupies (user target : Value) (g : Graph) :
    Steps Occupies (pushOperand user target) g := by
  refine .get_bind (.ask_fault fun d _ => .guard fun _ => ?_)
  refine .bind (modifyGet_occupies (.allocate g _ _)) fun u g₁ _ => ?_
  exact .bind (modify_occupies (.extend g₁ _ _)) fun _ g₂ _ => attach_occupies u target g₂

/-- Setting an operand gives up nothing. -/
theorem setOperand_occupies (user : Value) (index : Nat) (target : Option Value) (g : Graph) :
    Steps Occupies (setOperand user index target) g := by
  refine .get_bind (.ask_fault fun d _ => .guard fun _ => ?_)
  split
  · exact .reject
  · refine .bind (detach_occupies _ g) fun _ g₁ _ => ?_
    split
    · exact attach_occupies _ _ g₁
    · exact .pure

/-- A walk over the uses gives up nothing if no round does. -/
theorem whileUsed_occupies {v : Value} {round : Use → Run Graph Unit}
    (h : ∀ u g, Steps Occupies (round u) g) (bound : Nat) (g : Graph) :
    Steps Occupies (whileUsed v round bound) g := by
  induction bound generalizing g with
  | zero => exact .pure
  | succ bound ih =>
    refine .get_bind (.ask_fault fun d _ => ?_)
    split
    · exact .pure
    · exact .bind (h _ g) fun _ g₁ _ => ih g₁

/-- Replacing all uses gives up nothing. -/
theorem replaceAllUses_occupies (old new : Value) (g : Graph) :
    Steps Occupies (replaceAllUses old new) g := by
  unfold replaceAllUses
  split
  · exact .pure
  · refine .get_bind (.ask_fault fun d _ => .get_bind (.ask_fault fun d' _ => .guard fun _ => ?_))
    exact whileUsed_occupies
      (fun u g => .bind (detach_occupies u g) fun _ g₁ _ => attach_occupies u new g₁) _ g

/-- Creating a value gives up nothing. -/
theorem Creates.occupies (h : g.Creates g') : g.Occupies g' := by
  cases h with
  | value ty name kind => exact .push g _

/-! ## Nothing is handed out -/

/-- Places may be given up, which counts a generation. -/
structure Counts (g g' : Graph) : Prop where
  /-- What was vacant is vacant. -/
  free : g.free ⊆ g'.free
  /-- The places that become vacant count one generation; the others keep theirs. -/
  gen : ∀ {k n}, g.gen? k = some n →
    g'.gen? k = some (if k ∈ g'.free ∧ k ∉ g.free then (n + 1) % genLimit else n)

/-- A place given up in either of two steps counts one generation over both. -/
theorem Counts.trans (h : g.Counts g') (h' : g'.Counts g'') : g.Counts g'' := by
  refine ⟨List.Subset.trans h.free h'.free, fun {k n} hk => ?_⟩
  rw [h'.gen (h.gen hk)]
  by_cases hfree : k ∈ g'.free
  · have hfree'' : k ∈ g''.free := h'.free hfree
    simp [hfree, hfree'']
  · have hfree' : k ∉ g.free := fun hmem => hfree (h.free hmem)
    simp [hfree, hfree']

/-- Where nothing is given up and the same places are vacant, no generation is counted. -/
theorem Occupies.counts (h : g.Occupies g') (free : g'.free = g.free) : g.Counts g' := by
  refine ⟨?_, fun {k n} hk => ?_⟩
  · rw [free]
    exact List.Subset.refl _
  · rw [h.gen hk, free, if_neg (fun hmem => hmem.2 hmem.1)]

/-- A use is emptied and its place given up. -/
theorem Arena.counts_release (ha : g.Arena) {u : Use} {e : Edge} (hu : g.edge? u = some e) :
    g.Counts ((g.clear u).release u) := by
  have hout : u.index ∉ g.free := fun hmem => by simp [ha.edge?_of_mem_free hmem] at hu
  have hfree : ((g.clear u).release u).free = u.index :: g.free := by simp [Graph.release]
  refine ⟨?_, fun {k n} hk => ?_⟩
  · rw [hfree]
    exact List.subset_cons_self _ _
  · rw [gen?_release, gen?_clear, hk, hfree]
    by_cases h : k = u.index
    · subst h
      simp [hout]
    · by_cases hmem : k ∈ g.free <;> simp [h, hmem]

/-- Emptying a use keeps the arena in order. -/
theorem Arena.clear (ha : g.Arena) (u : Use) : (g.clear u).Arena := by
  unfold Graph.clear
  split
  · exact ha.unlink _ _ _ _
  · exact ha

/-- A step that gives up places of an arena in order. -/
def GivesUp (g g' : Graph) : Prop := g.Arena → g'.Arena ∧ g.Counts g'

/-- A chain of steps that give up places counts one generation for each of them. -/
theorem counts_of_chain (ha : g.Arena) (h : Relation.ReflTransGen GivesUp g g') :
    g'.Arena ∧ g.Counts g' := by
  induction h with
  | refl => exact ⟨ha, (Occupies.refl g).counts rfl⟩
  | tail _ step ih =>
    obtain ⟨ha', counts⟩ := ih
    obtain ⟨ha'', counts'⟩ := step ha'
    exact ⟨ha'', counts.trans counts'⟩

/-- Removing a value gives up places. -/
theorem removeValue_givesUp (v : Value) (g : Graph) : Steps GivesUp (removeValue v) g := by
  refine .get_bind (.ask_fault fun _ _ => .ask_fault fun d _ => ?_)
  refine .bind (.forM _ (fun u _ g => ?_) g) fun _ g₁ _ => ?_
  · intro a g' h
    obtain ⟨_, g₁, detached, released⟩ := Run.bind_eq_ok_iff.1 h
    obtain ⟨⟨e, he⟩, rfl⟩ := detach_ok detached
    cases released
    have hu : (g.clear u).edge? u = some { e with target := none } := by
      rw [edge?_clear he, if_pos rfl]
    exact .single fun ha => ⟨(ha.clear u).release hu, ha.counts_release he⟩
  · rintro a g' ⟨⟩
    refine .single fun ha => ⟨ha.drop v, ⟨?_, fun {k n} hk => ?_⟩⟩
    · rw [free_drop]
      exact List.Subset.refl _
    · rw [gen?_drop, hk, free_drop, if_neg (fun hmem => hmem.2 hmem.1)]

/-- No place of the arena is handed out, and operand slots stay with their users. -/
structure Vacates (g g' : Graph) : Prop where
  /-- Places may be given up. -/
  counts : g.Counts g'
  /-- No operand slot is added. -/
  shrink : ∀ {p u}, g'.slot? p = some u → g.slot? p = some u
  /-- The operand slots of what is alive keep their uses. -/
  keep : ∀ {p u d}, g.slot? p = some u → g'.value? p.1 = some d → g'.slot? p = some u
  /-- Nothing is created at the place of what was there. -/
  lasts : g.Lasts g'

namespace Vacates

/-- Nothing is handed out while nothing happens. -/
theorem refl (g : Graph) : g.Vacates g := ⟨(Occupies.refl g).counts rfl, id, fun h _ => h, .refl g⟩

/-- If nothing is handed out twice, nothing is handed out. -/
theorem trans (h : g.Vacates g') (h' : g'.Vacates g'') : g.Vacates g'' := by
  refine ⟨h.counts.trans h'.counts, fun hp => h.shrink (h'.shrink hp), fun {p u d} hp hd => ?_,
    h.lasts.trans h'.lasts⟩
  -- What is alive at the end was alive in between.
  obtain ⟨d₀, hd₀, -⟩ := Option.bind_eq_some_iff.1 hp
  have hlt : p.1.index < g'.values.size := Nat.lt_of_lt_of_le (index_lt_of_value? hd₀) h.lasts.size
  obtain ⟨n, hn, -⟩ := h'.lasts.contains_eq hlt (node?_of_value? hd)
  obtain ⟨d', hd', -⟩ := value?_of_node? hn
  exact h'.keep (h.keep hp hd') hd

/-- Nothing is handed out if places and operand slots are as before. -/
theorem of_slot (h : g.Occupies g') (free : g'.free = g.free) (slot : ∀ p, g'.slot? p = g.slot? p)
    (lasts : g.Lasts g') : g.Vacates g' :=
  ⟨h.counts free, fun {p _} hp => by rwa [slot] at hp, fun hp _ => h.slot hp, lasts⟩

/-- Changing a value hands out nothing if it keeps its operand slots. -/
theorem modifyValue (hc : g.Coherent) {v : Value} {f : ValueData → ValueData}
    (operands : ∀ d, (f d).operands = d.operands) (tame : g.Tame (g.modifyValue v f)) :
    g.Vacates (g.modifyValue v f) := by
  refine of_slot (.modifyValue g v operands) (free_modifyValue ..) (fun p => ?_)
    (tame.narrows hc).lasts
  simp only [slot?, value?_modifyValue]
  split
  · subst v
    cases g.value? p.1 <;> simp [operands]
  · rfl

/-- Removing a value hands out nothing. -/
theorem remove (hc : g.Coherent) {v : Value} {a : Unit} (run : removeValue v g = .ok a g') :
    g.Vacates g' := by
  obtain ⟨-, counts⟩ := counts_of_chain hc.arena (removeValue_givesUp v g a g' run)
  obtain ⟨-, reduced⟩ := removeValue_reduced hc run
  have slot : ∀ p, g'.slot? p = if p.1 = v then none else g.slot? p := by
    intro p
    rw [slot?_eq, reduced.bare, slot?_eq]
    by_cases hv : p.1 = v <;> simp [hv]
  refine ⟨counts, fun {p u} hp => ?_, fun {p u d} hp hd => ?_, ((Tame.remove run).narrows hc).lasts⟩
  · rw [slot] at hp
    split at hp
    · cases hp
    · exact hp
  · obtain ⟨hv, -⟩ := reduced.value?_of_value? hd
    rw [slot, if_neg (by simpa using hv), hp]

end Vacates

/-- A small change frees the slots that it empties. -/
theorem Quiet.vacates (hc : g.Coherent) (h : g.Quiet g') : g.Vacates g' := by
  cases h with
  | create h =>
    cases h with
    | value ty name kind =>
      refine .of_slot (.push g _) rfl (fun p => ?_)
        (lasts_of_new (by simp [push]) (node?_create g ty kind name))
      -- A new value has no operand slots.
      simp only [slot?, value?_push]
      split
      · rename_i hp
        rw [hp]
        simp [push, value?_next]
      · rfl
  | trim h =>
    cases h with
    | clear edge =>
      exact .of_slot (.clear g _) (free_clear ..) (fun p => by rw [slot?_congr (bare?_clear g _)])
        ((Tame.clear edge).narrows hc).lasts
    | rename v name => exact .modifyValue hc (fun _ => rfl) (.rename v name)
    | touch data alike => exact .modifyValue hc (fun _ => rfl) (.touch data alike)
    | remove run => exact .remove hc run

/-- Quiet changes hand out nothing. -/
theorem Coherent.vacates (hc : g.Coherent) (h : Relation.ReflTransGen Quiet g g') :
    g.Vacates g' := by
  induction h with
  | refl => exact .refl g
  | tail chain step ih => exact ih.trans (step.vacates (hc.quiets chain))

/-- The places of the operand slots of a value become vacant when it goes. -/
theorem Vacates.mem_free (h : g.Vacates g') (hc : g.Coherent) (hc' : g'.Coherent) {v : Value}
    {i : Nat} {u : Use} (hslot : g.slot? (v, i) = some u) (gone : g'.value? v = none) :
    u.index ∈ g'.free := by
  by_contra hout
  obtain ⟨t, ht⟩ := hc.owned hslot
  have hgen := h.counts.gen (gen?_of_edge? ht)
  rw [if_neg (fun hmem => hout hmem.1)] at hgen
  obtain ⟨s, hs, hsgen⟩ := Option.map_eq_some_iff.1 hgen
  -- A place that is not vacant has an edge, here one that the handle still resolves to.
  cases he : s.edge with
  | none => exact hout (hc'.arena.vacant.2 ⟨s, hs, he⟩)
  | some l =>
    have hu : g'.edge? u = some l.toEdge := by simp [edge?, linked?, hs, hsgen, he]
    -- The operand slot that the edge records was one before, and so is that of the value.
    obtain ⟨t', ht'⟩ := hc.owned (h.shrink (hc'.owner hu))
    rw [ht] at ht'
    cases ht'
    obtain ⟨d, hd, -⟩ := Option.bind_eq_some_iff.1 (hc'.owner hu)
    rw [gone] at hd
    cases hd

/-! ## Requests -/

/-- The places that are vacant and were not before. -/
def freed (g g' : Graph) : List Nat := g'.free.filter (· ∉ g.free)

/-- Operand slots stay with their users, and a place that becomes vacant counts one generation. -/
structure Turnover (g g' : Graph) : Prop where
  /-- An operand slot keeps its use, or its user is gone and the place of its edge is vacant. -/
  slot : ∀ {v i u}, g.slot? (v, i) = some u →
    g'.slot? (v, i) = some u ∨ g'.value? v = none ∧ u.index ∈ g.freed g'
  /-- The places that become vacant count one generation; the others keep theirs. -/
  gen : ∀ {k n}, g.gen? k = some n →
    g'.gen? k = some (if k ∈ g.freed g' then (n + 1) % genLimit else n)

/-- A place is freed if it is vacant and was not. -/
theorem mem_freed {k : Nat} : k ∈ g.freed g' ↔ k ∈ g'.free ∧ k ∉ g.free := by
  simp [freed]

/-- Where nothing is given up the operand slots stay. -/
theorem Occupies.turnover (h : g.Occupies g') : g.Turnover g' := by
  refine ⟨fun hslot => .inl (h.slot hslot), fun {k n} hk => ?_⟩
  have hout : k ∉ g.freed g' := fun hmem => (mem_freed.1 hmem).2 (h.free (mem_freed.1 hmem).1)
  rw [h.gen hk, if_neg hout]

/-- Where nothing is handed out a slot is lost only with its user. -/
theorem Vacates.turnover (h : g.Vacates g') (hc : g.Coherent) (hc' : g'.Coherent) :
    g.Turnover g' := by
  refine ⟨fun {v i u} hslot => ?_, fun {k n} hk => ?_⟩
  · cases hv : g'.value? v with
    | some d => exact .inl (h.keep hslot hv)
    | none =>
      obtain ⟨t, ht⟩ := hc.owned hslot
      have hout : u.index ∉ g.free := fun hmem => by simp [hc.arena.edge?_of_mem_free hmem] at ht
      exact .inr ⟨rfl, mem_freed.2 ⟨h.mem_free hc hc' hslot hv, hout⟩⟩
  · rw [h.counts.gen hk]
    simp only [mem_freed]

end Graph

/-- Every answered request turns the arena over. -/
theorem Request.Effect.turnover {g g' : Graph} {r : Request} {a : Answer} (h : r.Effect g a g')
    (hc : g.Coherent) (hc' : g'.Coherent) : g.Turnover g' := by
  -- Factories and attaching requests only hand out places; the others only give them up.
  cases h with
  | factory _ supply run =>
    have created : g.Occupies _ := .of_chain (supply.lift id fun _ _ => Graph.Creates.occupies)
    exact (created.trans (.of_chain (Graph.newUser_occupies _ _ _ _ _ _ _ run))).turnover
  | setOperand run =>
    exact (Graph.Occupies.of_chain (Graph.setOperand_occupies _ _ _ _ _ _ run)).turnover
  | addCase first second =>
    exact ((Graph.Occupies.of_chain (Graph.pushOperand_occupies _ _ _ _ _ first)).trans
      (.of_chain (Graph.pushOperand_occupies _ _ _ _ _ second))).turnover
  | addIncoming first second =>
    exact ((Graph.Occupies.of_chain (Graph.pushOperand_occupies _ _ _ _ _ first)).trans
      (.of_chain (Graph.pushOperand_occupies _ _ _ _ _ second))).turnover
  | replaceAllUses run =>
    exact (Graph.Occupies.of_chain (Graph.replaceAllUses_occupies _ _ _ _ _ run)).turnover
  | quiet _ _ _ chain => exact (hc.vacates chain).turnover hc hc'

end SsaGraph
