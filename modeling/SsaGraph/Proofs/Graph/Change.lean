import SsaGraph.Proofs.Graph.Edit

/-!
# Changes of the graph

Every request changes the graph in small steps, of a few sorts. `Tame` collects those after which an
operand slot holds a value of the type it held before, or nothing: emptying a use, swapping its
target for another of the same type, naming a value, touching up its kind, removing a value.
`Change` adds the others: pointing a use anywhere, creating an instruction, adding an operand slot.
`Trim` are the tame changes that point no use anywhere. A property of all histories is shown for
each sort of change, and not for each request.

The loops over a use list or over operand slots are chains of such changes. Replacing all uses is a
chain of tame ones because the list of a coherent graph has the uses of the old value, each once:
those that are still to be visited point to it still.
-/

namespace SsaGraph

/-- The kinds differ at most in that a function without arguments gets them, or in the marks of a
call. -/
inductive ValueKind.Alike : ValueKind → ValueKind → Prop
  | refl (k : ValueKind) : Alike k k
  | function (ty : Ty) (args : List Argument) : Alike (.function ty []) (.function ty args)
  | call (fnType : Ty) (marker marker' : TailCall) (conv conv' : CallingConv) :
    Alike (.instruction (.call fnType marker conv)) (.instruction (.call fnType marker' conv'))

namespace ValueKind.Alike

variable {k k' k'' : ValueKind}

/-- Alike kinds are both of users or both not. -/
theorem isUser_eq (h : k.Alike k') : k'.isUser = k.isUser := by
  cases h <;> rfl

/-- Being alike is transitive. -/
theorem trans (h : k.Alike k') (h' : k'.Alike k'') : k.Alike k'' := by
  cases h with
  | refl => exact h'
  | function ty args =>
    cases h' with
    | refl => exact .function ty args
    | function => exact .function ty _
  | call =>
    cases h' with
    | refl => exact .call ..
    | call => exact .call ..

end ValueKind.Alike

namespace Graph

/-- The type of a live value. -/
def typeAt? (g : Graph) (v : Value) : Option Ty := (g.value? v).map (·.ty)

/-- The type at a value is the one in its data. -/
theorem typeAt?_of_value? {g : Graph} {v : Value} {d : ValueData} (h : g.value? v = some d) :
    g.typeAt? v = some d.ty := by
  simp [typeAt?, h]

/-- A value has a type in the graph exactly when it is alive with this type. -/
theorem typeAt?_eq_some_iff {g : Graph} {v : Value} {ty : Ty} :
    g.typeAt? v = some ty ↔ ∃ d, g.value? v = some d ∧ d.ty = ty :=
  Option.map_eq_some_iff

/-- A value that keeps its data keeps its type. -/
theorem typeAt?_congr {g g' : Graph} {v : Value} (h : g'.bare? v = g.bare? v) :
    g'.typeAt? v = g.typeAt? v := by
  have hty : ∀ g : Graph, g.typeAt? v = (g.bare? v).map (·.ty) := by
    intro g
    unfold typeAt? bare?
    cases g.value? v <;> rfl
  rw [hty, hty, h]

/-- The types of what operand slots hold. -/
def slotTypes (g : Graph) (operands : List (Option Value)) : List (Option Ty) :=
  operands.map (·.bind g.typeAt?)

/-- A new value has the type it was created with. -/
theorem typeAt?_push (g : Graph) (d : ValueData) :
    (g.push d).2.typeAt? ⟨g.ctx, g.values.size⟩ = some d.ty :=
  typeAt?_of_value? ((value?_push ..).trans (if_pos rfl))

/-- A change that fills no empty operand slot and changes the type of no slot. -/
inductive Tame (g : Graph) : Graph → Prop
  /-- A use is emptied. -/
  | clear {u : Use} {e : Edge} (edge : g.edge? u = some e) : Tame g (g.clear u)
  /-- A use is pointed from one value to another of the same type. -/
  | swap {u : Use} {e : Edge} {v w : Value} {ty : Ty} (edge : g.edge? u = some e)
    (target : e.target = some w) (old : g.typeAt? w = some ty) (new : g.typeAt? v = some ty) :
    Tame g (g.retarget u v)
  /-- A value is named. -/
  | rename (v : Value) (name : Option String) : Tame g (g.modifyValue v ({ · with name }))
  /-- The kind of a value is touched up. -/
  | touch {v : Value} {d : ValueData} {kind : ValueKind} (data : g.value? v = some d)
    (alike : d.kind.Alike kind) : Tame g (g.modifyValue v ({ · with kind }))
  /-- A value is removed. -/
  | remove {v : Value} {a : Unit} {g' : Graph} (run : removeValue v g = .ok a g') : Tame g g'

/-- A tame change that points no use anywhere. -/
inductive Trim (g : Graph) : Graph → Prop
  /-- A use is emptied. -/
  | clear {u : Use} {e : Edge} (edge : g.edge? u = some e) : Trim g (g.clear u)
  /-- A value is named. -/
  | rename (v : Value) (name : Option String) : Trim g (g.modifyValue v ({ · with name }))
  /-- The kind of a value is touched up. -/
  | touch {v : Value} {d : ValueData} {kind : ValueKind} (data : g.value? v = some d)
    (alike : d.kind.Alike kind) : Trim g (g.modifyValue v ({ · with kind }))
  /-- A value is removed. -/
  | remove {v : Value} {a : Unit} {g' : Graph} (run : removeValue v g = .ok a g') : Trim g g'

/-- A trim is tame. -/
theorem Trim.tame {g g' : Graph} (h : g.Trim g') : g.Tame g' := by
  cases h with
  | clear edge => exact .clear edge
  | rename v name => exact .rename v name
  | touch data alike => exact .touch data alike
  | remove run => exact .remove run

/-- A change of any sort, creating values without operands apart. -/
inductive Change (g : Graph) : Graph → Prop
  | tame {g' : Graph} (h : g.Tame g') : Change g g'
  /-- A use is pointed to a live value. -/
  | retarget {u : Use} {e : Edge} {v : Value} {d : ValueData} (edge : g.edge? u = some e)
    (data : g.value? v = some d) : Change g (g.retarget u v)
  /-- An instruction is created. -/
  | build {ty : Ty} {op : Operation} {name : Option String} {operands : List (Option Value)}
    {v : Value} {g' : Graph} (run : newUser ty op name operands g = .ok v g') : Change g g'
  /-- An operand slot is added. -/
  | grow {user target : Value} {a : Unit} {g' : Graph}
    (run : pushOperand user target g = .ok a g') : Change g g'

/-! ## Coherence -/

/-- A change of a value's data that keeps its operand slots and uses. -/
theorem Coherent.modifyValue {g : Graph} (hc : g.Coherent) (v : Value) {f : ValueData → ValueData}
    (operands : ∀ d, (f d).operands = d.operands) (first : ∀ d, (f d).firstUse = d.firstUse)
    (count : ∀ d, (f d).numUses = d.numUses) : (g.modifyValue v f).Coherent := by
  have hslot : (g.modifyValue v f).slot? = g.slot? := by
    funext p
    obtain ⟨w, i⟩ := p
    simp only [slot?, value?_modifyValue]
    split
    · subst w
      cases g.value? v <;> simp [operands]
    · rfl
  rw [Coherent, hslot]
  exact CoherentFor.modifyValue hc v first count

/-- A new value without operands. -/
theorem Coherent.create {g : Graph} (hc : g.Coherent) (ty : Ty) (kind : ValueKind)
    (name : Option String) : (g.push ⟨ty, name, kind, [], none, 0⟩).2.Coherent := by
  have hslot : (g.push ⟨ty, name, kind, [], none, 0⟩).2.slot? = g.slot? := by
    funext p
    obtain ⟨w, i⟩ := p
    simp only [slot?, value?_push]
    split
    · subst w
      simp [push, value?_next]
    · rfl
  rw [Coherent, hslot]
  exact hc.push rfl rfl

/-- The nodes after the creation of a value without operands. -/
theorem node?_create (g : Graph) (ty : Ty) (kind : ValueKind) (name : Option String) (w : Value) :
    (g.push ⟨ty, name, kind, [], none, 0⟩).2.node? w =
      if w = ⟨g.ctx, g.values.size⟩ then some ⟨ty, name, kind, []⟩ else g.node? w := by
  rw [node?, bare?_push]
  change Option.map _ (if w = ⟨g.ctx, g.values.size⟩ then _ else _) = _
  split <;> rfl

/-- A tame change keeps a graph coherent, and its context. -/
theorem Tame.coherent {g g' : Graph} (h : g.Tame g') (hc : g.Coherent) :
    g'.Coherent ∧ g'.ctx = g.ctx := by
  cases h with
  | clear edge => exact ⟨hc.clear _, ctx_clear g _⟩
  | swap edge target old new =>
    obtain ⟨d, hd, -⟩ := typeAt?_eq_some_iff.1 new
    exact ⟨hc.retarget edge hd, ctx_retarget ..⟩
  | rename v name =>
    exact ⟨hc.modifyValue v (fun _ => rfl) (fun _ => rfl) (fun _ => rfl), ctx_modifyValue ..⟩
  | touch data alike =>
    exact ⟨hc.modifyValue _ (fun _ => rfl) (fun _ => rfl) (fun _ => rfl), ctx_modifyValue ..⟩
  | remove run =>
    obtain ⟨hc', hctx, -⟩ := removeValue_ok hc run
    exact ⟨hc', hctx⟩

/-- A change keeps a graph coherent, and its context. -/
theorem Change.coherent {g g' : Graph} (h : g.Change g') (hc : g.Coherent) :
    g'.Coherent ∧ g'.ctx = g.ctx := by
  cases h with
  | tame h => exact h.coherent hc
  | retarget edge data => exact ⟨hc.retarget edge data, ctx_retarget ..⟩
  | build run =>
    obtain ⟨hc', hctx, -⟩ := newUser_ok hc run
    exact ⟨hc', hctx⟩
  | grow run =>
    obtain ⟨hc', hctx, -⟩ := pushOperand_ok hc run
    exact ⟨hc', hctx⟩

/-! ## The number of values -/

/-- Pointing a use elsewhere creates no value. -/
@[simp] theorem size_retarget (g : Graph) (u : Use) (v : Value) :
    (g.retarget u v).values.size = g.values.size := by
  simp [retarget]

/-- Allocating edges creates no value. -/
@[simp] theorem size_allocateMany (user : Value) (first count : Nat) (g : Graph) :
    (allocateMany user first count g).2.values.size = g.values.size := by
  induction count generalizing first g with
  | zero => rfl
  | succ count ih => simp [allocateMany, ih]

/-- No value is created, and none gives up its place. -/
def SameSize (g g' : Graph) : Prop := g'.values.size = g.values.size

/-- A chain of steps that create no value creates none. -/
theorem size_of_sameSize {g g' : Graph} (h : Relation.ReflTransGen SameSize g g') :
    g'.values.size = g.values.size := by
  induction h with
  | refl => rfl
  | tail _ h ih => exact h.trans ih

/-- Detaching an edge creates no value. -/
theorem detach_sameSize (u : Use) (g : Graph) : Run.Steps SameSize (detach u) g := by
  intro a g' h
  obtain ⟨-, rfl⟩ := detach_ok h
  exact .single (size_clear g u)

/-- Attaching an edge creates no value. -/
theorem attach_sameSize (u : Use) (v : Value) (g : Graph) : Run.Steps SameSize (attach u v) g := by
  intro a g' h
  obtain ⟨-, -, rfl⟩ := attach_ok h
  exact .single (size_link ..)

/-- An unconditional change creates no value if its function does not. -/
theorem modify_sameSize {f : Graph → Graph} {g : Graph} (h : (f g).values.size = g.values.size) :
    Run.Steps SameSize (modify f) g := by
  rintro a g' ⟨⟩
  exact .single h

/-- An unconditional change with an answer creates no value if its function does not. -/
theorem modifyGet_sameSize {α : Type} {f : Graph → α × Graph} {g : Graph}
    (h : (f g).2.values.size = g.values.size) : Run.Steps SameSize (modifyGet f) g := by
  rintro a g' ⟨⟩
  exact .single h

/-- Filling slots creates no value. -/
theorem attachAll_sameSize (slots : List (Use × Option Value)) (g : Graph) :
    Run.Steps SameSize (attachAll slots) g := by
  refine .forM _ (fun p _ g => ?_) g
  obtain ⟨u, operand⟩ := p
  cases operand with
  | none => exact .pure
  | some v => exact attach_sameSize u v g

/-- An instruction takes one place. -/
theorem newUser_size {ty : Ty} {op : Operation} {name : Option String}
    {operands : List (Option Value)} {g g' : Graph} {v : Value}
    (h : newUser ty op name operands g = .ok v g') : g'.values.size = g.values.size + 1 := by
  simp only [newUser, Run.bind_eq_ok_iff, Run.get_apply, Run.modifyGet_apply, Run.modify_apply] at h
  obtain ⟨_, _, h₀, _, _, h₁, uses, _, h₂, _, _, h₃, _, g₁, h₄, h₅⟩ := h
  cases h₀
  cases h₁
  cases h₂
  cases h₃
  cases h₅
  have attached := size_of_sameSize (attachAll_sameSize _ _ _ _ h₄)
  simpa [push] using attached

/-- Adding an operand creates no value. -/
theorem pushOperand_sameSize (user target : Value) (g : Graph) :
    Run.Steps SameSize (pushOperand user target) g := by
  refine .get_bind (.ask_fault fun d _ => .guard fun _ => ?_)
  refine .bind (modifyGet_sameSize (by simp)) fun u g₁ _ => ?_
  exact .bind (modify_sameSize (by simp)) fun _ g₂ _ => attach_sameSize u target g₂

/-- Adding two operand slots, one after the other. -/
theorem pushPair_ok {g g₁ g₂ : Graph} {user x y : Value} {a b : Unit} (hc : g.Coherent)
    (run₁ : pushOperand user x g = .ok a g₁) (run₂ : pushOperand user y g₁ = .ok b g₂) :
    g₂.values.size = g.values.size ∧
      ∀ w, g₂.node? w =
        if w = user then
          (g.node? w).map fun n => { n with operands := n.operands ++ [some x, some y] }
        else g.node? w := by
  obtain ⟨hc₁, -, -, -, node₁⟩ := pushOperand_ok hc run₁
  obtain ⟨-, -, -, -, node₂⟩ := pushOperand_ok hc₁ run₂
  have size₁ := size_of_sameSize (pushOperand_sameSize _ _ _ _ _ run₁)
  have size₂ := size_of_sameSize (pushOperand_sameSize _ _ _ _ _ run₂)
  refine ⟨size₂.trans size₁, fun w => ?_⟩
  rw [node₂, node₁]
  split
  · cases g.node? w <;> simp
  · rfl

/-- Removing a value keeps its place in the arena. -/
theorem removeValue_sameSize (v : Value) (g : Graph) : Run.Steps SameSize (removeValue v) g := by
  refine .get_bind (.ask_fault fun _ _ => .ask_fault fun d _ => ?_)
  refine .bind (.forM _ (fun u _ g => ?_) g) fun _ g₁ _ => modify_sameSize (by simp)
  exact .bind (detach_sameSize u g) fun _ g₁ _ => modify_sameSize (by simp [release])

/-- A tame change creates no value. -/
theorem Tame.size_eq {g g' : Graph} (h : g.Tame g') : g'.values.size = g.values.size := by
  cases h with
  | clear edge => simp
  | swap edge target old new => simp
  | rename v name => simp
  | touch data alike => simp
  | remove run => exact size_of_sameSize (removeValue_sameSize _ _ _ _ run)

/-! ## The loops -/

/-- Detaching an edge is a trim. -/
theorem detach_steps (u : Use) (g : Graph) : Run.Steps Trim (detach u) g := by
  intro a g' h
  obtain ⟨⟨e, he⟩, rfl⟩ := detach_ok h
  exact .single (.clear he)

/-- Dropping all uses makes trims. -/
theorem dropAllUses_steps {g : Graph} (hc : g.Coherent) (v : Value) :
    Run.Steps Trim (dropAllUses v) g := by
  cases hd : g.value? v with
  | none =>
    refine .get_bind (.ask_fault fun d hv => ?_)
    rw [value_eq_ok_iff, hd] at hv
    cases hv
  | some d =>
    obtain ⟨us, hlist⟩ := hc.lists hd
    intro a g' h
    rw [dropAllUses_eq ⟨hc, d, hd, hlist⟩] at h
    exact Run.Steps.forM us (fun u _ g => detach_steps u g) g a g' h

/-- Dropping the operands makes trims. -/
theorem dropAllReferences_steps (user : Value) (g : Graph) :
    Run.Steps Trim (dropAllReferences user) g := by
  refine .get_bind (.ask_fault fun d _ => ?_)
  exact .forM d.operands (fun u _ g => detach_steps u g) g

/-- Removing a value is a trim. -/
theorem removeValue_steps (v : Value) (g : Graph) : Run.Steps Trim (removeValue v) g :=
  fun _ _ h => .single (.remove h)

/-- Visiting different uses that all point to `old`, and pointing each to `new`. -/
theorem swapAll_steps {old new : Value} {ty : Ty} (us : List Use) {g : Graph} (nodup : us.Nodup)
    (points : ∀ u ∈ us, ∃ e, g.edge? u = some e ∧ e.target = some old)
    (hold : g.typeAt? old = some ty) (hnew : g.typeAt? new = some ty) :
    Run.Steps Tame (us.forM fun u => do detach u; attach u new) g := by
  -- On the uses that are left, all of which still point to the old value.
  induction us generalizing g with
  | nil => exact .pure
  | cons u us ih =>
    rw [List.nodup_cons] at nodup
    obtain ⟨e, he, ht⟩ := points u (List.mem_cons_self ..)
    rw [List.forM_eq_forM, List.forM_cons]
    refine .bind (fun a g₁ h => ?_) (fun a g₁ h => ?_)
    · obtain ⟨-, rfl⟩ := swap_ok h
      exact .single (.swap he ht hold hnew)
    · -- The others point to the old value still.
      obtain ⟨-, rfl⟩ := swap_ok h
      refine ih nodup.2 (fun x hx => ?_) ?_ ?_
      · have hxu : x ≠ u := by
          rintro rfl
          exact nodup.1 hx
        rw [edge?_retarget he, if_neg hxu]
        exact points x (List.mem_cons_of_mem u hx)
      · rwa [typeAt?_congr (bare?_retarget g u new old)]
      · rwa [typeAt?_congr (bare?_retarget g u new new)]

/-- Replacing all uses is a chain of tame changes. -/
theorem replaceAllUses_steps {g : Graph} (hc : g.Coherent) (old new : Value) :
    Run.Steps Tame (replaceAllUses old new) g := by
  unfold replaceAllUses
  by_cases heq : old = new
  · rw [if_pos heq]
    exact .pure
  · rw [if_neg heq]
    refine .get_bind (.ask_fault fun d hd => ?_)
    refine .get_bind (.ask_fault fun d' hd' => .guard fun hty => ?_)
    rw [value_eq_ok_iff] at hd hd'
    have hnew : g.typeAt? new = some d.ty := by rw [hty, typeAt?_of_value? hd']
    obtain ⟨us, hlist⟩ := hc.lists hd
    intro a g' h
    change whileUsed old _ d.numUses g = .ok a g' at h
    -- The loop takes the head of a list that changes under it; it comes to one pass over the list
    -- at the beginning.
    rw [hlist.count, whileUsed_swap_eq heq ⟨hc, d, hd, hlist⟩] at h
    exact swapAll_steps us hlist.nodup (fun u hu => hlist.mem.1 hu) (typeAt?_of_value? hd) hnew a g'
      h

end Graph

end SsaGraph
