import SsaGraph.Proofs.Graph.Reduce

/-!
# The effect of editing the graph

For each operation on a coherent graph: a successful run leaves a coherent graph, and changes the
nodes in a way that one equation tells. Emptying a use (`clear`) and pointing it elsewhere
(`retarget`) set one operand slot; `newUser_ok` adds an instruction with the operands it was given,
`pushOperand_ok` adds an operand slot, and `removeValue_ok` takes one value away. The loops that act
on the first use of a value as long as there is one are passes over its list (`whileUsed_eq_forM`).

Creating and removing instructions go through graphs whose data and arena disagree. There the slots
that count are tracked by hand: `allocateMany_coherent` hands out slots from a number on, and
`freeUses_run` takes them back.
-/

namespace SsaGraph

namespace Graph

/-! ## Questions -/

/-- The data of a value are read exactly when it is alive. -/
@[simp] theorem value_eq_ok_iff {g : Graph} {v : Value} {d : ValueData} :
    g.value v = .ok d ↔ g.value? v = some d := by
  unfold value
  split <;> simp_all

/-- A linked edge is read exactly when its use resolves. -/
@[simp] theorem linked_eq_ok_iff {g : Graph} {u : Use} {l : LinkedEdge} :
    g.linked u = .ok l ↔ g.linked? u = some l := by
  unfold linked
  split <;> simp_all

/-- An edge is read exactly when its use resolves. -/
@[simp] theorem edge_eq_ok_iff {g : Graph} {u : Use} {e : Edge} :
    g.edge u = .ok e ↔ g.edge? u = some e := by
  simp [edge, edge?]

/-- A live value is of the context of the graph. -/
theorem ctx_of_value? {g : Graph} {v : Value} {d : ValueData} (h : g.value? v = some d) :
    v.ctx = g.ctx := by
  by_contra hc
  simp [value?, hc] at h

/-- A live value is in the arena. -/
theorem index_lt_of_value? {g : Graph} {v : Value} {d : ValueData} (h : g.value? v = some d) :
    v.index < g.values.size := by
  rw [value?, if_pos (ctx_of_value? h)] at h
  by_contra hge
  simp [Array.getElem?_eq_none (by omega : g.values.size ≤ v.index)] at h

/-- A value passes the check exactly when it is alive. -/
@[simp] theorem check_eq_ok_iff {g : Graph} {v : Value} {a : Unit} :
    g.check v = .ok a ↔ ∃ d, g.value? v = some d := by
  unfold check
  constructor
  · intro h
    split at h
    · simp at h
    · split at h
      · rename_i hv
        exact Option.isSome_iff_exists.1 hv
      · simp at h
  · rintro ⟨d, hd⟩
    rw [if_neg (by simp [ctx_of_value? hd]), if_pos (by simp [contains, hd])]
    rfl

/-! ## Pointing a use elsewhere -/

/-- Points a use to a value, whatever it pointed to. -/
def retarget (g : Graph) (u : Use) (v : Value) : Graph := (g.clear u).link u v

/-- Pointing a use elsewhere keeps the context. -/
@[simp] theorem ctx_retarget (g : Graph) (u : Use) (v : Value) : (g.retarget u v).ctx = g.ctx := by
  simp [retarget]

/-- Pointing a use elsewhere keeps the data of the values apart from their uses. -/
@[simp] theorem bare?_retarget (g : Graph) (u : Use) (v w : Value) :
    (g.retarget u v).bare? w = g.bare? w := by
  simp [retarget]

/-- The edges after a use has been pointed elsewhere. -/
theorem edge?_retarget {g : Graph} {u : Use} {e : Edge} (h : g.edge? u = some e) (v : Value)
    (w : Use) :
    (g.retarget u v).edge? w = if w = u then some { e with target := some v } else g.edge? w := by
  rw [retarget, edge?_link v w (by rw [edge?_clear h, if_pos rfl]), edge?_clear h]
  split <;> rfl

/-- Pointing a use to a live value keeps the graph coherent. -/
theorem Coherent.retarget {g : Graph} (h : g.Coherent) {u : Use} {e : Edge} {v : Value}
    {d : ValueData} (hu : g.edge? u = some e) (hv : g.value? v = some d) :
    (g.retarget u v).Coherent := by
  obtain ⟨d', hd'⟩ := (alive_congr (bare?_clear g u v)).2 ⟨d, hv⟩
  exact (h.clear u).link (by rw [edge?_clear hu, if_pos rfl]) rfl hd'

/-- The nodes after a use has been pointed elsewhere. -/
theorem Coherent.node?_retargeted {g : Graph} (h : g.Coherent) {u : Use} {e : Edge}
    (hu : g.edge? u = some e) (v w : Value) :
    (g.retarget u v).node? w =
      if w = e.user then
        (g.node? w).map fun n => { n with operands := n.operands.set e.operandNo (some v) }
      else g.node? w :=
  h.node?_retarget hu (bare?_retarget g u v) (edge?_retarget hu v) w

/-- Patching an edge succeeds exactly when it is there. -/
theorem patchEdge_eq_ok_iff {g g' : Graph} {u : Use} {f : LinkedEdge → LinkedEdge} {a : Unit} :
    patchEdge u f g = .ok a g' ↔ (∃ e, g.edge? u = some e) ∧ g' = g.modifyEdge u f := by
  simp only [patchEdge, Run.bind_eq_ok_iff, Run.get_apply, Run.faulting_eq_ok_iff,
    linked_eq_ok_iff]
  constructor
  · rintro ⟨_, _, h₀, l, _, ⟨hl, rfl⟩, h⟩
    cases h₀
    cases h
    exact ⟨⟨_, edge?_of_linked? hl⟩, rfl⟩
  · rintro ⟨⟨e, he⟩, rfl⟩
    obtain ⟨prev, next, hl⟩ := edge?_eq_some_iff.1 he
    exact ⟨g, g, rfl, _, g, ⟨hl, rfl⟩, rfl⟩

/-- Patching a value succeeds exactly when it is there. -/
theorem patchValue_eq_ok_iff {g g' : Graph} {v : Value} {f : ValueData → ValueData} {a : Unit} :
    patchValue v f g = .ok a g' ↔ (∃ d, g.value? v = some d) ∧ g' = g.modifyValue v f := by
  simp only [patchValue, Run.bind_eq_ok_iff, Run.get_apply, Run.faulting_eq_ok_iff,
    value_eq_ok_iff]
  constructor
  · rintro ⟨_, _, h₀, d, _, ⟨hd, rfl⟩, h⟩
    cases h₀
    cases h
    exact ⟨⟨d, hd⟩, rfl⟩
  · rintro ⟨⟨d, hd⟩, rfl⟩
    exact ⟨g, g, rfl, d, g, ⟨hd, rfl⟩, rfl⟩

/-- Linking backward succeeds exactly when the edge, if any, is there. -/
theorem setPrev_eq_ok_iff {g g' : Graph} {u prev : Option Use} {a : Unit} :
    setPrev u prev g = .ok a g' ↔
      (∀ x ∈ u, ∃ e, g.edge? x = some e) ∧ g' = g.withPrev u prev := by
  cases u with
  | none => simp [setPrev, withPrev, eq_comm]
  | some u =>
    rw [setPrev, patchEdge_eq_ok_iff]
    simp [withPrev]

/-- Linking forward succeeds exactly when the edge is there, or the value if there is no edge. -/
theorem setNext_eq_ok_iff {g g' : Graph} {v : Value} {u next : Option Use} {a : Unit} :
    setNext v u next g = .ok a g' ↔
      (∀ x ∈ u, ∃ e, g.edge? x = some e) ∧ (u = none → ∃ d, g.value? v = some d) ∧
        g' = g.withNext v u next := by
  cases u with
  | none =>
    rw [setNext, patchValue_eq_ok_iff]
    simp [withNext]
  | some u =>
    rw [setNext, patchEdge_eq_ok_iff]
    simp [withNext]

/-- The changes that `detach` makes one after the other empty the use. -/
theorem detach_ok {g g' : Graph} {u : Use} {a : Unit} (h : detach u g = .ok a g') :
    (∃ e, g.edge? u = some e) ∧ g' = g.clear u := by
  simp only [detach, Run.bind_eq_ok_iff, Run.get_apply, Run.faulting_eq_ok_iff,
    linked_eq_ok_iff] at h
  obtain ⟨_, _, h₀, l, _, ⟨hl, rfl⟩, h⟩ := h
  cases h₀
  refine ⟨⟨_, edge?_of_linked? hl⟩, ?_⟩
  -- An empty use is in no list, and there is nothing to do.
  cases ht : l.target with
  | none =>
    rw [ht] at h
    cases h
    rw [clear_of_empty hl ht]
  | some v =>
    simp only [ht, Run.bind_eq_ok_iff] at h
    obtain ⟨_, _, h₁, _, _, h₂, _, _, h₃, h₄⟩ := h
    obtain ⟨-, rfl⟩ := patchEdge_eq_ok_iff.1 h₁
    obtain ⟨-, -, rfl⟩ := setNext_eq_ok_iff.1 h₂
    obtain ⟨-, rfl⟩ := setPrev_eq_ok_iff.1 h₃
    obtain ⟨-, rfl⟩ := patchValue_eq_ok_iff.1 h₄
    rw [clear_of_target hl ht]
    rfl

/-- In a coherent graph nothing is missing that `detach` goes through. -/
theorem detach_eq {g : Graph} {S : Value × Nat → Option Use} {u : Use} {e : Edge}
    (hc : g.CoherentFor S) (hu : g.edge? u = some e) : detach u g = .ok () (g.clear u) := by
  obtain ⟨prev, next, hl⟩ := edge?_eq_some_iff.1 hu
  simp only [detach, Run.bind_eq_ok_iff, Run.get_apply, Run.faulting_eq_ok_iff,
    linked_eq_ok_iff]
  refine ⟨g, g, rfl, _, g, ⟨hl, rfl⟩, ?_⟩
  cases ht : e.target with
  | none =>
    rw [clear_of_empty hl ht]
    rfl
  | some v =>
    -- The list of the target splits around the use, so the neighbours recorded in the edge are
    -- there.
    obtain ⟨d, as, bs, hd, hlist, hprev, hnext⟩ := hc.split hl ht
    simp only at hprev hnext
    have before : ∀ x ∈ prev, ∃ e, g.edge? x = some e := by
      rw [hprev]
      exact fun x hx => hlist.alive (List.mem_append_left _ (List.mem_of_getLast? hx))
    have after : ∀ x ∈ next, ∃ e, g.edge? x = some e := by
      rw [hnext]
      exact fun x hx =>
        hlist.alive (List.mem_append_right _ (List.mem_cons_of_mem _ (List.mem_of_mem_head? hx)))
    simp only [Run.bind_eq_ok_iff]
    refine ⟨(), _, patchEdge_eq_ok_iff.2 ⟨⟨e, hu⟩, rfl⟩, (), _,
      setNext_eq_ok_iff.2 ⟨fun x hx => ?_, fun _ => ⟨d, hd⟩, rfl⟩, (), _,
      setPrev_eq_ok_iff.2 ⟨fun x hx => ?_, rfl⟩, patchValue_eq_ok_iff.2 ⟨?_, ?_⟩⟩
    · exact (alive_modifyEdge ..).2 (before x hx)
    · rw [edge?_withNext]
      exact (alive_modifyEdge ..).2 (after x hx)
    · rw [value?_withPrev]
      unfold withNext
      split
      · exact ⟨d, hd⟩
      · rw [value?_modifyValue, if_pos rfl, value?_modifyEdge, hd]
        exact ⟨_, rfl⟩
    · rw [clear_of_target hl ht]
      rfl

/-- The changes that `attach` makes one after the other link the use. -/
theorem attach_ok {g g' : Graph} {u : Use} {v : Value} {a : Unit} (h : attach u v g = .ok a g') :
    (∃ d, g.value? v = some d) ∧ (∃ e, g.edge? u = some e) ∧ g' = g.link u v := by
  simp only [attach, Run.bind_eq_ok_iff, Run.get_apply, Run.faulting_eq_ok_iff,
    value_eq_ok_iff] at h
  obtain ⟨_, _, h₀, d, _, ⟨hd, rfl⟩, _, _, h₁, _, _, h₂, h₃⟩ := h
  cases h₀
  obtain ⟨-, rfl⟩ := patchValue_eq_ok_iff.1 h₁
  obtain ⟨-, rfl⟩ := setPrev_eq_ok_iff.1 h₂
  obtain ⟨⟨e, he⟩, rfl⟩ := patchEdge_eq_ok_iff.1 h₃
  rw [edge?_withPrev, edge?_modifyValue] at he
  refine ⟨⟨d, hd⟩, ⟨e, he⟩, ?_⟩
  rw [link, first?, hd]
  rfl

/-- In a coherent graph nothing is missing that `attach` goes through. -/
theorem attach_eq {g : Graph} {S : Value × Nat → Option Use} {u : Use} {e : Edge} {v : Value}
    {d : ValueData} (hc : g.CoherentFor S) (hu : g.edge? u = some e) (hv : g.value? v = some d) :
    attach u v g = .ok () (g.link u v) := by
  obtain ⟨us, hlist⟩ := hc.lists hv
  have head : ∀ x ∈ d.firstUse, ∃ e, g.edge? x = some e := by
    rw [hlist.first]
    exact fun x hx => hlist.alive (List.mem_of_mem_head? hx)
  simp only [attach, Run.bind_eq_ok_iff, Run.get_apply, Run.faulting_eq_ok_iff, value_eq_ok_iff]
  refine ⟨g, g, rfl, d, g, ⟨hv, rfl⟩, (), _, patchValue_eq_ok_iff.2 ⟨⟨d, hv⟩, rfl⟩, (), _,
    setPrev_eq_ok_iff.2 ⟨fun x hx => ?_, rfl⟩, patchEdge_eq_ok_iff.2 ⟨⟨e, ?_⟩, ?_⟩⟩
  · rw [edge?_modifyValue]
    exact head x hx
  · rw [edge?_withPrev, edge?_modifyValue, hu]
  · rw [link, first?, hv]
    rfl

/-- A successful `setOperand` empties the slot's use, and points it to the new value if there is
one. -/
theorem setOperand_ok {g g' : Graph} {user : Value} {i : Nat} {target : Option Value} {a : Unit}
    (h : setOperand user i target g = .ok a g') :
    ∃ d u e, g.value? user = some d ∧ d.kind.isUser = true ∧ d.operands[i]? = some u ∧
      g.edge? u = some e ∧
      match target with
      | none => g' = g.clear u
      | some v => (∃ d, g.value? v = some d) ∧ g' = g.retarget u v := by
  -- The user and its slot are looked up first; only then something is changed.
  simp only [setOperand, Run.bind_eq_ok_iff, Run.get_apply, Run.faulting_eq_ok_iff,
    Run.guard_eq_ok_iff] at h
  obtain ⟨_, _, h₀, d, _, ⟨hd, rfl⟩, hk, h⟩ := h
  cases h₀
  cases hu : d.operands[i]? with
  | none => simp [hu] at h
  | some u =>
    simp only [hu, Run.bind_eq_ok_iff] at h
    obtain ⟨_, g₁, hdet, h⟩ := h
    -- The slot is emptied first, whatever it gets.
    obtain ⟨⟨e, he⟩, rfl⟩ := detach_ok hdet
    refine ⟨d, u, e, value_eq_ok_iff.1 hd, hk, hu, he, ?_⟩
    cases target with
    | none =>
      cases h
      rfl
    | some v =>
      obtain ⟨alive, -, rfl⟩ := attach_ok h
      exact ⟨(alive_congr (bare?_clear g u v)).1 alive, rfl⟩

/-! ## Going through a use list -/

/-- The state before a round of a loop over the list of `v`: the uses `us` are left. -/
def Remaining (g : Graph) (v : Value) (us : List Use) : Prop :=
  g.Coherent ∧ ∃ d, g.value? v = some d ∧ g.Lists v d us

/-- If each round takes the first use out of the list, the loop goes through the list in order, and
the number of uses is bound enough. -/
theorem whileUsed_eq_forM {v : Value} {round : Use → Run Graph Unit} (us : List Use)
    (hround : ∀ {g g' u us a}, g.Remaining v (u :: us) → round u g = .ok a g' → g'.Remaining v us)
    {g : Graph} (h : g.Remaining v us) : whileUsed v round us.length g = us.forM round g := by
  induction us generalizing g with
  | nil => rfl
  | cons u us ih =>
    obtain ⟨hc, d, hd, hlist⟩ := h
    have hvalue : g.value v = .ok d := value_eq_ok_iff.2 hd
    have hfirst : d.firstUse = some u := hlist.first
    have hloop : whileUsed v round (u :: us).length g =
        (round u >>= fun _ => whileUsed v round us.length) g := by
      rw [List.length_cons, whileUsed, Run.bind_apply, Run.get_apply]
      simp only [Run.bind_apply, Run.faulting_apply, hvalue, hfirst]
    rw [hloop, List.forM_eq_forM, List.forM_cons, Run.bind_apply, Run.bind_apply]
    cases hu : round u g with
    | ok a g' => exact ih (hround ⟨hc, d, hd, hlist⟩ hu)
    | error e g' => rfl

/-- Emptying the first use leaves the others. -/
theorem Remaining.clear {g : Graph} {v : Value} {u : Use} {us : List Use}
    (h : g.Remaining v (u :: us)) : (g.clear u).Remaining v us := by
  obtain ⟨hc, d, hd, hlist⟩ := h
  obtain ⟨e, he, ht⟩ := hlist.mem.1 (List.mem_cons_self ..)
  obtain ⟨e', hu⟩ := hlist.linked [] u us rfl
  rw [edge?_of_linked? hu] at he
  cases he
  have hclear : g.clear u = g.unlink u v ([] : List Use).getLast? us.head? :=
    clear_of_target hu ht
  have hrest := hlist.unlink (List.nil_append (u :: us)).symm
  rw [← hclear] at hrest
  refine ⟨hc.clear u, _, ?_, hrest⟩
  rw [hclear, value?_unlink, if_pos rfl, hd]
  rfl

/-- Pointing the first use to another value leaves the others. -/
theorem Remaining.retarget {g : Graph} {v w : Value} {u : Use} {us : List Use} {d' : ValueData}
    (h : g.Remaining v (u :: us)) (hne : v ≠ w) (hw : g.value? w = some d') :
    (g.retarget u w).Remaining v us := by
  have ⟨hc, _, _, hlist⟩ := h
  obtain ⟨e, he, -⟩ := hlist.mem.1 (List.mem_cons_self ..)
  obtain ⟨hc₁, d₁, hd₁, hlist₁⟩ := h.clear
  obtain ⟨d₂, hd₂⟩ := (alive_congr (bare?_clear g u w)).2 ⟨d', hw⟩
  have hu : (g.clear u).edge? u = some { e with target := none } := by
    rw [edge?_clear he, if_pos rfl]
  -- The use leaves the list of `v` at its head and enters that of `w`.
  obtain ⟨ws, hws⟩ := hc₁.lists hd₂
  refine ⟨hc.retarget he hw, d₁, ?_,
    hlist₁.congr rfl rfl (fun x hx => ?_) fun {x e'} hx ht => ?_⟩
  · rw [Graph.retarget, value?_link, if_neg hne, hd₁]
  · -- The others point to `v`, so they are not in the list that the use enters.
    obtain ⟨e', he', ht⟩ := hlist₁.mem.1 hx
    refine hws.linked?_link_of_ne hd₂ hu ?_ he' (by rw [ht]; simpa using hne)
    rintro rfl
    rw [hu] at he'
    cases he'
    cases ht
  · rw [edge?_retarget he] at hx
    split at hx
    · cases hx
      exact absurd (Option.some.inj ht).symm hne
    · rename_i hxu
      exact hlist₁.mem.2 ⟨e', by rw [edge?_clear he, if_neg hxu, hx], ht⟩

/-- Dropping all uses comes to detaching each use of the list at the beginning. -/
theorem dropAllUses_eq {g : Graph} {v : Value} {us : List Use} (h : g.Remaining v us) :
    dropAllUses v g = us.forM detach g := by
  obtain ⟨hc, d, hd, hlist⟩ := h
  have hvalue : g.value v = .ok d := value_eq_ok_iff.2 hd
  simp only [dropAllUses, Run.bind_apply, Run.get_apply, Run.faulting_apply, hvalue, hlist.count]
  refine whileUsed_eq_forM us (fun h hrun => ?_) ⟨hc, d, hd, hlist⟩
  obtain ⟨-, rfl⟩ := detach_ok hrun
  exact h.clear

/-- Detaching a use and attaching it again points it elsewhere. -/
theorem swap_ok {g g' : Graph} {u : Use} {v : Value} {a : Unit}
    (h : (do detach u; attach u v : Run Graph Unit) g = .ok a g') :
    (∃ d, g.value? v = some d) ∧ g' = g.retarget u v := by
  obtain ⟨_, _, hdet, hatt⟩ := Run.bind_eq_ok_iff.1 h
  obtain ⟨-, rfl⟩ := detach_ok hdet
  obtain ⟨alive, -, rfl⟩ := attach_ok hatt
  exact ⟨(alive_congr (bare?_clear g u v)).1 alive, rfl⟩

/-- The loop of `replaceAllUses`. -/
theorem whileUsed_swap_eq {g : Graph} {old new : Value} {us : List Use} (hne : old ≠ new)
    (h : g.Remaining old us) :
    whileUsed old (fun u => do detach u; attach u new) us.length g =
      (us.forM fun u => do detach u; attach u new) g := by
  refine whileUsed_eq_forM us (fun h hrun => ?_) h
  obtain ⟨⟨d, hd⟩, rfl⟩ := swap_ok hrun
  exact h.retarget hne hd

/-! ## Creating an instruction -/

/-- The slots of `S`, where `user` has the uses `us` from number `first` on. -/
def withSlots (S : Value × Nat → Option Use) (user : Value) (first : Nat) (us : List Use) :
    Value × Nat → Option Use :=
  fun p => if p.1 = user ∧ first ≤ p.2 then us[p.2 - first]? else S p

/-- Without uses no slots are filled. -/
theorem withSlots_nil {S : Value × Nat → Option Use} {user : Value} {first : Nat}
    (hS : ∀ j, first ≤ j → S (user, j) = none) : withSlots S user first [] = S := by
  funext p
  obtain ⟨w, j⟩ := p
  unfold withSlots
  split
  · rename_i hp
    obtain ⟨rfl, hj⟩ := hp
    rw [hS j hj, List.getElem?_nil]
  · rfl

/-- The uses from a number on are the first of them and those from the next number on. -/
theorem withSlots_step (S : Value × Nat → Option Use) (user : Value) (first : Nat)
    (us : List Use) :
    withSlots S user first us =
      withSlots (Function.update S (user, first) us[0]?) user (first + 1) us.tail := by
  funext p
  obtain ⟨w, j⟩ := p
  unfold withSlots
  by_cases hw : w = user
  · subst hw
    rcases Nat.lt_trichotomy j first with hj | rfl | hj
    · rw [if_neg (by omega), if_neg (by omega), Function.update_of_ne (by simp; omega)]
    · rw [if_pos ⟨rfl, Nat.le_refl _⟩, if_neg (by omega), Function.update_self, Nat.sub_self]
    · rw [if_pos ⟨rfl, by omega⟩, if_pos ⟨rfl, by omega⟩, List.getElem?_tail]
      congr 1
      omega
  · rw [if_neg (by simp [hw]), if_neg (by simp [hw]), Function.update_of_ne (by simp [hw])]

/-- Handing out the slots of `user` from number `first` on, where it had none: the uses come in the
order of the slots, their edges are empty, and everything that was there stays. -/
theorem allocateMany_coherent {user : Value} (count : Nat) {first : Nat} {g : Graph}
    {S : Value × Nat → Option Use} (h : g.CoherentFor S) (hS : ∀ j, first ≤ j → S (user, j) = none) :
    let r := allocateMany user first count g
    r.2.CoherentFor (withSlots S user first r.1) ∧
      r.1.length = count ∧ r.2.values = g.values ∧ r.2.ctx = g.ctx ∧
      (∀ i u, r.1[i]? = some u → r.2.edge? u = some ⟨user, first + i, none⟩) ∧
      ∀ x e, g.edge? x = some e → r.2.edge? x = some e := by
  -- On the number of slots, which are filled from the first one on; the later ones are still empty.
  induction count generalizing first g S with
  | zero =>
    refine ⟨?_, rfl, rfl, rfl, by simp [allocateMany], fun x e hx => hx⟩
    simp only [allocateMany, withSlots_nil hS]
    exact h
  | succ count ih =>
    have h₁ := h.allocate (hS first (Nat.le_refl _))
    have hedge := h.arena.edge?_allocate user first
    have hfresh := h.arena.edge?_allocated user first
    have hval : (g.allocate user first).2.values = g.values := by
      unfold allocate
      split <;> rfl
    generalize ha : g.allocate user first = a at h₁ hedge hfresh hval
    obtain ⟨u, g₁⟩ := a
    simp only at h₁ hedge hfresh hval
    have hS₁ : ∀ j, first + 1 ≤ j →
        Function.update S (user, first) (some u) (user, j) = none := by
      intro j hj
      rw [Function.update_of_ne (by simp; omega)]
      exact hS j (by omega)
    obtain ⟨hc, hlen, hvals, hctx, hnew, hold⟩ := ih h₁ hS₁
    simp only [allocateMany, ha]
    refine ⟨?_, by simp [hlen], by rw [hvals, hval], ?_, ?_, ?_⟩
    · rw [withSlots_step]
      exact hc
    · have := ctx_allocate g user first
      rw [ha] at this
      rw [hctx, this]
    · intro i x hx
      cases i with
      | zero =>
        cases hx
        exact hold u _ (by rw [hedge, if_pos rfl, Nat.add_zero])
      | succ i =>
        have := hnew i x hx
        rwa [show first + 1 + i = first + (i + 1) by omega] at this
    · intro x e hx
      refine hold x e ?_
      rw [hedge, if_neg, hx]
      rintro rfl
      simp [hfresh] at hx

/-- Attaching the operands of a new instruction: each of its empty uses gets its target. -/
theorem attachAll_ok {pairs : List (Use × Option Value)} {g g' : Graph} {a : Unit}
    (hc : g.Coherent) (empty : ∀ p ∈ pairs, ∃ v i, g.edge? p.1 = some ⟨v, i, none⟩)
    (nodup : (pairs.map Prod.fst).Nodup) (h : attachAll pairs g = .ok a g') :
    g'.Coherent ∧ g'.ctx = g.ctx ∧ (∀ w, g'.bare? w = g.bare? w) ∧
      (∀ p ∈ pairs, g'.target? p.1 = p.2) ∧
      ∀ x, x ∉ pairs.map Prod.fst → g'.edge? x = g.edge? x := by
  -- On the slots: each use is empty when its turn comes, since the uses are different.
  induction pairs generalizing g with
  | nil =>
    cases h
    exact ⟨hc, rfl, fun _ => rfl, by simp, fun _ _ => rfl⟩
  | cons p pairs ih =>
    obtain ⟨u, o⟩ := p
    obtain ⟨v, i, hu⟩ := empty (u, o) (List.mem_cons_self ..)
    rw [List.map_cons, List.nodup_cons] at nodup
    -- One round, for an empty operand and a full one alike.
    have tail : attachAll ((u, o) :: pairs) g = .ok a g' →
        ∃ g₁, g₁.Coherent ∧ g₁.ctx = g.ctx ∧ (∀ w, g₁.bare? w = g.bare? w) ∧ g₁.target? u = o ∧
          (∀ x, x ≠ u → g₁.edge? x = g.edge? x) ∧ attachAll pairs g₁ = .ok a g' := by
      intro h
      rw [attachAll, List.forM_eq_forM, List.forM_cons, Run.bind_eq_ok_iff] at h
      obtain ⟨_, g₁, h₁, h₂⟩ := h
      cases o with
      | none =>
        cases h₁
        exact ⟨g, hc, rfl, fun _ => rfl, by simp [target?, hu], fun _ _ => rfl, h₂⟩
      | some t =>
        obtain ⟨⟨d, hd⟩, -, rfl⟩ := attach_ok h₁
        refine ⟨g.link u t, hc.link hu rfl hd, ctx_link .., bare?_link g u t, ?_, ?_, h₂⟩
        · simp [target?, edge?_link t u hu]
        · intro x hx
          rw [edge?_link t x hu, if_neg hx]
    obtain ⟨g₁, hc₁, hctx, hb, htu, hx, h₂⟩ := tail h
    have fst_ne : ∀ p ∈ pairs, p.1 ≠ u := by
      rintro p hp rfl
      exact nodup.1 (List.mem_map.2 ⟨p, hp, rfl⟩)
    have empty₁ : ∀ p ∈ pairs, ∃ v i, g₁.edge? p.1 = some ⟨v, i, none⟩ := by
      intro p hp
      rw [hx _ (fst_ne p hp)]
      exact empty p (List.mem_cons_of_mem _ hp)
    obtain ⟨hc', hctx', hb', ht', hx'⟩ := ih hc₁ empty₁ nodup.2 h₂
    refine ⟨hc', hctx'.trans hctx, fun w => (hb' w).trans (hb w), ?_, ?_⟩
    · intro p hp
      rcases List.mem_cons.1 hp with rfl | hp
      · rw [target?, hx' u nodup.1]
        exact htu
      · exact ht' p hp
    · intro x hxm
      simp only [List.map_cons, List.mem_cons, not_or] at hxm
      rw [hx' x hxm.2, hx x hxm.1]

/-- The handle that the next value gets is not alive. -/
theorem value?_next (g : Graph) : g.value? ⟨g.ctx, g.values.size⟩ = none := by
  simp [value?]

/-- A new instruction before its operands are attached: it has empty slots, one for each use that
was handed out, and everything that was there stays. -/
theorem reserve_coherent {g : Graph} (hc : g.Coherent) (ty : Ty) (op : Operation)
    (name : Option String) (count : Nat) :
    let v : Value := ⟨g.ctx, g.values.size⟩
    let r := allocateMany v 0 count g
    let g₂ := (r.2.push ⟨ty, name, .instruction op, r.1, none, 0⟩).2
    g₂.Coherent ∧ g₂.ctx = g.ctx ∧ r.1.length = count ∧ r.1.Nodup ∧
      (∀ w, g₂.bare? w =
        if w = v then some ⟨ty, name, .instruction op, r.1, none, 0⟩ else g.bare? w) ∧
      (∀ i u, r.1[i]? = some u → g₂.edge? u = some ⟨v, i, none⟩) ∧
      ∀ x e, g.edge? x = some e → g₂.edge? x = some e := by
  intro v r g₂
  have hS : ∀ j, 0 ≤ j → g.slot? (v, j) = none := by
    intro j _
    simp [slot?, v, value?_next]
  -- The slots are allocated before the value that they belong to is there.
  obtain ⟨hc₁, hlen, hvals, hctx, hnew, hold⟩ := allocateMany_coherent count hc hS
  have hnew₀ : ∀ i u, r.1[i]? = some u → g₂.edge? u = some ⟨v, i, none⟩ := by
    intro i u hu
    have := hnew i u hu
    rwa [Nat.zero_add] at this
  have hbare : ∀ w, g₂.bare? w =
      if w = v then some ⟨ty, name, .instruction op, r.1, none, 0⟩ else g.bare? w := by
    intro w
    have hv : v = (r.2.push ⟨ty, name, .instruction op, r.1, none, 0⟩).1 := by
      rw [push, hctx, hvals]
    rw [bare?_push, ← hv]
    unfold bare? value?
    rw [hctx, hvals]
    rfl
  -- The new value lists the uses that were just allocated for it.
  have hslot : g₂.slot? = withSlots g.slot? v 0 r.1 := by
    funext p
    obtain ⟨w, j⟩ := p
    rw [slot?_eq, hbare, withSlots]
    by_cases hw : w = v <;> simp [hw, slot?_eq]
  have nodup : r.1.Nodup := by
    -- Two equal uses would have one edge, which records one slot.
    refine List.nodup_iff_getElem?_ne_getElem?.2 fun i j hij hj heq => ?_
    have hj' := List.getElem?_eq_getElem hj
    have h₁ := hnew₀ i _ (heq.trans hj')
    rw [hnew₀ j _ hj'] at h₁
    simp at h₁
    omega
  refine ⟨?_, hctx, hlen, nodup, hbare, hnew₀, hold⟩
  rw [Coherent, hslot]
  exact hc₁.push rfl rfl

/-- A new instruction has the operands it was given; nothing else changes. -/
theorem newUser_ok {g g' : Graph} {ty : Ty} {op : Operation} {name : Option String}
    {operands : List (Option Value)} {v : Value} (hc : g.Coherent)
    (h : newUser ty op name operands g = .ok v g') :
    g'.Coherent ∧ g'.ctx = g.ctx ∧ v = ⟨g.ctx, g.values.size⟩ ∧
      ∀ w, g'.node? w =
        if w = v then some ⟨ty, name, .instruction op, operands⟩ else g.node? w := by
  simp only [newUser, Run.bind_eq_ok_iff, Run.get_apply, Run.modifyGet_apply, Run.modify_apply,
    Run.pure_apply] at h
  obtain ⟨_, _, h₁, _, _, h₂, us, _, h₃, _, _, h₄, _, _, hattach, h₅⟩ := h
  cases h₁
  cases h₂
  cases h₃
  cases h₄
  cases h₅
  obtain ⟨hc₂, hctx₂, hlen, nodup, hbare, hnew, hold⟩ :=
    reserve_coherent hc ty op name operands.length
  generalize hv : (⟨g.ctx, g.values.size⟩ : Value) = v at *
  generalize allocateMany v 0 operands.length g = r at *
  generalize (r.2.push ⟨ty, name, .instruction op, r.1, none, 0⟩).2 = g₂ at *
  have empty : ∀ p ∈ r.1.zip operands, ∃ v i, g₂.edge? p.1 = some ⟨v, i, none⟩ := by
    intro p hp
    obtain ⟨i, hi⟩ := List.mem_iff_getElem?.1 (List.of_mem_zip hp).1
    exact ⟨v, i, hnew i p.1 hi⟩
  have hfst : (r.1.zip operands).map Prod.fst = r.1 := List.map_fst_zip (by omega)
  obtain ⟨hc₃, hctx₃, hbare₃, htarget, hrest⟩ := attachAll_ok hc₂ empty (by rwa [hfst]) hattach
  refine ⟨hc₃, hctx₃.trans hctx₂, rfl, fun w => ?_⟩
  split
  · subst w
    -- Position by position the slot has the use that its operand was attached to.
    have hmap : r.1.map g'.target? = operands := by
      refine List.ext_getElem? fun i => ?_
      rw [List.getElem?_map]
      by_cases hi : i < operands.length
      · have hu := List.getElem?_eq_getElem (hlen ▸ hi : i < r.1.length)
        have ho := List.getElem?_eq_getElem hi
        have hp : (r.1[i], operands[i]) ∈ r.1.zip operands :=
          List.mem_iff_getElem?.2 ⟨i, List.getElem?_zip_eq_some.2 ⟨hu, ho⟩⟩
        rw [hu, ho, Option.map_some, htarget _ hp]
      · rw [List.getElem?_eq_none (by omega), List.getElem?_eq_none (by omega)]
        rfl
    rw [node?, hbare₃, hbare, if_pos rfl, Option.map_some, hmap]
  · -- The edges of the slots of other values are not among the new ones.
    rename_i hw
    refine node?_congr (by rw [hbare₃, hbare, if_neg hw]) fun i x hx => ?_
    obtain ⟨t, ht⟩ := hc.owned hx
    rw [hrest, hold x _ ht, ht]
    rw [hfst]
    intro hmem
    obtain ⟨j, hj⟩ := List.mem_iff_getElem?.1 hmem
    have := hnew j x hj
    rw [hold x _ ht] at this
    cases this
    exact hw rfl

/-! ## Adding an operand slot -/

/-- The node of a value whose data is changed, if the change keeps its operand slots. -/
theorem node?_modifyValue (g : Graph) (v w : Value) (f : ValueData → ValueData) :
    (g.modifyValue v f).node? w =
      if w = v then (g.value? v).map fun d =>
        ⟨(f d).ty, (f d).name, (f d).kind, (f d).operands.map g.target?⟩
      else g.node? w := by
  have ht : (g.modifyValue v f).target? = g.target? := by
    funext u
    simp [target?]
  unfold node?
  rw [bare?_modifyValue, ht]
  split
  · rw [Option.map_map]
    rfl
  · rfl

/-- A variadic instruction before the operand of its new slot is attached. -/
theorem extend_coherent {g : Graph} (hc : g.Coherent) {user : Value} {d : ValueData}
    (hd : g.value? user = some d) :
    let a := g.allocate user d.operands.length
    let g₂ := a.2.modifyValue user fun d => { d with operands := d.operands ++ [a.1] }
    g₂.Coherent ∧ g₂.ctx = g.ctx ∧ g₂.edge? a.1 = some ⟨user, d.operands.length, none⟩ ∧
      (∀ w, (∃ d, g₂.value? w = some d) ↔ ∃ d, g.value? w = some d) ∧
      ∀ w, g₂.node? w =
        if w = user then (g.node? w).map fun n => { n with operands := n.operands ++ [none] }
        else g.node? w := by
  intro a g₂
  have hS : g.slot? (user, d.operands.length) = none := by simp [slot?, hd]
  have hc₁ := hc.allocate hS
  have hedge : ∀ x, g₂.edge? x =
      if x = a.1 then some ⟨user, d.operands.length, none⟩ else g.edge? x := by
    intro x
    rw [edge?_modifyValue, hc.arena.edge?_allocate]
  have hbare : ∀ w, g₂.bare? w = if w = user then
      some { d.bare with operands := d.operands ++ [a.1] } else g.bare? w := by
    intro w
    rw [bare?_modifyValue, value?_allocate, bare?_allocate, hd]
    rfl
  -- Behind the operands the value had, the slot of the new one is the next.
  have hslot : g₂.slot? = Function.update g.slot? (user, d.operands.length) (some a.1) := by
    funext p
    obtain ⟨w, j⟩ := p
    rw [slot?_eq, hbare]
    by_cases hw : w = user
    · subst hw
      by_cases hj : j = d.operands.length
      · subst hj
        simp
      · rw [Function.update_of_ne (by simpa using hj)]
        simp only [if_pos, Option.bind_some, slot?, hd]
        rcases Nat.lt_or_gt_of_ne hj with hlt | hgt
        · rw [List.getElem?_append_left hlt]
        · rw [List.getElem?_eq_none (by simp; omega), List.getElem?_eq_none (by omega)]
    · rw [Function.update_of_ne (by simp [hw]), if_neg hw, slot?_eq]
  -- The use that is allocated did not resolve before.
  have fresh : ∀ {x e}, g.edge? x = some e → x ≠ a.1 := by
    rintro x e hx rfl
    simp [a, hc.arena.edge?_allocated] at hx
  refine ⟨?_, by simp [g₂, a], by rw [hedge, if_pos rfl], fun w => ?_, fun w => ?_⟩
  · rw [Coherent, hslot]
    exact hc₁.modifyValue user (fun _ => rfl) (fun _ => rfl)
  · rw [← Option.isSome_iff_exists, ← Option.isSome_iff_exists, value?_modifyValue,
      value?_allocate, value?_allocate]
    split
    · subst w
      simp
    · rfl
  · have htarget : ∀ u ∈ d.operands, g₂.target? u = g.target? u := by
      intro u hu
      obtain ⟨i, hi⟩ := List.mem_iff_getElem?.1 hu
      obtain ⟨t, ht⟩ := hc.owned (v := user) (i := i) (by simpa [slot?, hd] using hi)
      rw [target?, target?, hedge, if_neg (fresh ht)]
    split
    · subst w
      have hnew : g₂.target? a.1 = none := by simp [target?, hedge]
      rw [node?, hbare, if_pos rfl, node?_of_value? hd]
      simp [ValueData.bare, List.map_congr_left htarget, hnew]
    · rename_i hw
      refine node?_congr (by rw [hbare, if_neg hw]) fun i u hu => ?_
      obtain ⟨t, ht⟩ := hc.owned hu
      rw [hedge, if_neg (fresh ht)]

/-- A new operand slot comes last and points to the value given; nothing else changes. -/
theorem pushOperand_ok {g g' : Graph} {user target : Value} {a : Unit} (hc : g.Coherent)
    (h : pushOperand user target g = .ok a g') :
    g'.Coherent ∧ g'.ctx = g.ctx ∧
      (∃ d, g.value? user = some d ∧ d.kind.isVariadic = true) ∧
      (∃ d, g.value? target = some d) ∧
      ∀ w, g'.node? w =
        if w = user then
          (g.node? w).map fun n => { n with operands := n.operands ++ [some target] }
        else g.node? w := by
  simp only [pushOperand, Run.bind_eq_ok_iff, Run.get_apply, Run.faulting_eq_ok_iff,
    Run.guard_eq_ok_iff, Run.modifyGet_apply, Run.modify_apply, value_eq_ok_iff] at h
  obtain ⟨_, _, h₀, d, _, ⟨hd, rfl⟩, hk, u, _, h₁, _, _, h₂, h⟩ := h
  cases h₀
  cases h₁
  cases h₂
  -- The slot is added empty and filled afterwards.
  obtain ⟨hc₂, hctx, hedge, halive, hnode⟩ := extend_coherent hc hd
  obtain ⟨⟨d', hd'⟩, -, rfl⟩ := attach_ok h
  refine ⟨hc₂.link hedge rfl hd', by rw [ctx_link, hctx], ⟨d, hd, hk⟩, (halive target).1 ⟨d', hd'⟩,
    fun w => ?_⟩
  rw [hc₂.node?_link hedge, hnode]
  split
  · subst w
    rw [node?_of_value? hd]
    simp
  · rfl

/-! ## Removing a value -/

/-- Taking back the uses of the slots of `v` from number `first` on: their edges are gone. -/
theorem freeUses_run {v : Value} (us : List Use) {first : Nat} {g : Graph}
    {S : Value × Nat → Option Use} (hc : g.CoherentFor S) (hus : ∀ j, S (v, first + j) = us[j]?) :
    ∃ g', us.forM freeUse g = .ok () g' ∧ g'.CoherentFor (withSlots S v first []) ∧
      g.Reduced g' us [] ∧ ∀ u ∈ us, g'.edge? u = none := by
  -- On the uses, with the position of the first one: each is emptied and then given up.
  induction us generalizing first g S with
  | nil =>
    refine ⟨g, rfl, ?_, .refl g, by simp⟩
    rw [withSlots_nil]
    · exact hc
    · intro j hj
      have := hus (j - first)
      rwa [Nat.add_sub_cancel' hj] at this
  | cons u us ih =>
    obtain ⟨t, hu⟩ := hc.owned (v := v) (i := first) (hus 0)
    have hclear : (g.clear u).edge? u = some ⟨v, first, none⟩ := by rw [edge?_clear hu, if_pos rfl]
    have hrun : freeUse u g = .ok () ((g.clear u).release u) := by
      simp [freeUse, detach_eq hc hu]
    -- Emptying the slot and giving it up both reduce the graph.
    have reduced := (Reduced.clear hc hu).trans (.release hclear rfl)
    have rest : ∀ j, Function.update S (v, first) none (v, first + 1 + j) = us[j]? := by
      intro j
      rw [Function.update_of_ne (by simp; omega), Nat.add_assoc, Nat.add_comm 1 j]
      exact hus (j + 1)
    obtain ⟨g', run, hc', reduced', freed⟩ := ih ((hc.clear u).release hclear) rest
    refine ⟨g', ?_, ?_, (reduced.trans reduced').congr (by simp) (by simp), ?_⟩
    · rw [List.forM_eq_forM, List.forM_cons, Run.bind_eq_ok_iff]
      exact ⟨(), _, hrun, run⟩
    · rw [withSlots_step]
      exact hc'
    · intro x hx
      by_cases hmem : x ∈ us
      · exact freed x hmem
      · rw [reduced'.edge hmem, edge?_release hclear, if_pos]
        simpa [hmem] using hx

/-- What a successful removal went through. -/
theorem removeValue_eq_ok {g g' : Graph} {v : Value} {a : Unit} (h : removeValue v g = .ok a g') :
    ∃ d, g.value? v = some d ∧ d.numUses = 0 := by
  simp only [removeValue, ensureUnused, Run.bind_eq_ok_iff, Run.get_apply, Run.faulting_eq_ok_iff,
    Question.bind_eq_ok_iff, value_eq_ok_iff] at h
  obtain ⟨_, _, h₀, _, _, ⟨⟨d, hd, hunused⟩, rfl⟩, -⟩ := h
  cases h₀
  refine ⟨d, hd, ?_⟩
  by_contra hne
  simp [hne] at hunused

/-- A value without uses is removed with its operand slots. -/
theorem removeValue_run {g : Graph} {v : Value} {d : ValueData} (hc : g.Coherent)
    (hd : g.value? v = some d) (unused : d.numUses = 0) :
    ∃ g', removeValue v g = .ok () g' ∧ g'.Coherent ∧ g.Reduced g' (g.slotsOf v) [v] := by
  have hus : ∀ j, g.slot? (v, 0 + j) = d.operands[j]? := by
    intro j
    rw [Nat.zero_add]
    simp [slot?, hd]
  have hslots : g.slotsOf v = d.operands := by simp [slotsOf, hd]
  -- First the operand slots go, then the value itself.
  obtain ⟨g₁, run, hc₁, reduced, freed⟩ := freeUses_run d.operands hc hus
  have hb : ∀ w, g₁.bare? w = g.bare? w := fun w => by simpa using reduced.bare w
  -- No edge points to the value, so it is as unused as before.
  obtain ⟨d₁, hd₁⟩ := (alive_congr (hb v)).2 ⟨d, hd⟩
  have unused₁ : d₁.numUses = 0 := by
    refine (hc₁.unused_iff hd₁).2 fun x e hx => ?_
    by_cases hmem : x ∈ d.operands
    · rw [freed x hmem] at hx
      cases hx
    · rw [reduced.edge hmem] at hx
      exact (hc.unused_iff hd).1 unused x e hx
  have hslot : (g₁.drop v).slot? = withSlots g.slot? v 0 [] := by
    funext p
    obtain ⟨w, j⟩ := p
    rw [slot?_eq, bare?_drop, hb, withSlots]
    by_cases hw : w = v <;> simp [hw, slot?_eq]
  refine ⟨g₁.drop v, ?_, ?_, ?_⟩
  · simp only [removeValue, ensureUnused, Run.bind_eq_ok_iff, Run.get_apply,
      Run.faulting_eq_ok_iff, Question.bind_eq_ok_iff, value_eq_ok_iff, Run.modify_apply]
    exact ⟨g, g, rfl, (), g, ⟨⟨d, hd, by rw [if_pos unused]; rfl⟩, rfl⟩, d, g, ⟨hd, rfl⟩, (), g₁, run,
      rfl⟩
  · rw [Coherent, hslot]
    exact hc₁.drop hd₁ unused₁
  · rw [hslots]
    exact (reduced.trans (.drop g₁ v)).congr (by simp) (by simp)

/-- Removing a value removes it and its operand slots, and nothing else. -/
theorem removeValue_reduced {g g' : Graph} {v : Value} {a : Unit} (hc : g.Coherent)
    (h : removeValue v g = .ok a g') : g'.Coherent ∧ g.Reduced g' (g.slotsOf v) [v] := by
  obtain ⟨d, hd, unused⟩ := removeValue_eq_ok h
  obtain ⟨g₁, run, hc₁, reduced⟩ := removeValue_run hc hd unused
  rw [h] at run
  cases run
  exact ⟨hc₁, reduced⟩

/-- A removed value is gone; nothing else changes. It had no uses. -/
theorem removeValue_ok {g g' : Graph} {v : Value} {a : Unit} (hc : g.Coherent)
    (h : removeValue v g = .ok a g') :
    g'.Coherent ∧ g'.ctx = g.ctx ∧ (∃ d, g.value? v = some d ∧ d.numUses = 0) ∧
      ∀ w, g'.node? w = if w = v then none else g.node? w := by
  obtain ⟨hc', reduced⟩ := removeValue_reduced hc h
  refine ⟨hc', reduced.ctx, removeValue_eq_ok h, fun w => ?_⟩
  split
  · subst w
    rw [node?_eq_none_iff, ← bare?_eq_none_iff, reduced.bare, if_pos (by simp)]
  · rename_i hw
    exact reduced.node?_eq (by simpa using hw) fun u hu hu' => hw (hc.eq_of_mem_slotsOf hu hu')

end Graph

end SsaGraph
