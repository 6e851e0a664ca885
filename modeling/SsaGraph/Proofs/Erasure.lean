import SsaGraph.Proofs.Arrangement
import SsaGraph.Proofs.Mirror

/-!
# Erasing a block or a function

A block is erased with its instructions, and a function with its arguments and its blocks. Both are
treated together: a `Part` has a body, the instructions in it, and values, all that goes with it.
Erasing a part ends the run exactly when an instruction outside the body has an operand slot that
holds one of the values. Otherwise it succeeds, and `Erased` says what is left: the live values
without those of the part, each with the operands it had and with the uses it had, in order, without
those of the body; the arena without the operand slots of the body; and the layout, the registry,
the types and the pool of constants as they were, apart from what was there about the part.

That nothing else uses the part is what `eraseBlock_calm` and `eraseFunction_calm` ask for. That it
is needed is seen at the end: what is left of an outside use would point to a value that is gone,
but operand slots only hold live values.
-/

namespace SsaGraph

open Run (Calm Firm)

/-! ## Counting what is left -/

/-- The parts of a list that a test divides it into have together as many images as the list. -/
theorem length_flatMap_filter {α β : Type} (p : α → Bool) (s : α → List β) (l : List α) :
    (l.flatMap s).length =
      ((l.filter p).flatMap s).length + ((l.filter (!p ·)).flatMap s).length := by
  have perm := (List.filter_append_perm p l).flatMap_right s
  rw [← perm.length_eq, List.flatMap_append, List.length_append]

namespace Graph

variable {g g' : Graph} {emptied : List Use} {gone : List Value} {v : Value}

/-- After a reduction a value is contained if it was and has not gone. -/
theorem Reduced.contains_eq (h : g.Reduced g' emptied gone) (v : Value) :
    g'.contains v = (decide (v ∉ gone) && g.contains v) := by
  have hbare := congrArg Option.isSome (h.bare v)
  simp only [bare?, Option.isSome_map] at hbare
  rw [contains, contains, hbare]
  split <;> simp_all

/-- The live values after a reduction are those before without the gone ones. -/
theorem Reduced.live_eq (h : g.Reduced g' emptied gone) :
    g'.live = g.live.filter (· ∉ gone) := by
  rw [live, live, h.ctx, h.size, List.filter_filter]
  exact List.filter_congr fun v _ => h.contains_eq v

/-- The live users after a reduction are those before without the gone ones. -/
theorem Reduced.liveUsers_eq (h : g.Reduced g' emptied gone) :
    g'.liveUsers = g.liveUsers.filter (· ∉ gone) := by
  rw [liveUsers, liveUsers, h.live_eq, List.filter_filter, List.filter_filter]
  refine List.filter_congr fun v _ => ?_
  by_cases hv : v ∈ gone
  · simp [hv]
  · have hbare := congrArg (Option.any (·.kind.isUser)) (h.bare v)
    rw [if_neg hv] at hbare
    simpa [bare?, ValueData.bare, hv, Option.any_map, Function.comp_def] using hbare

/-- The live users are the instructions. -/
theorem mem_liveUsers : v ∈ g.liveUsers ↔ g.Has .instruction v := by
  rw [liveUsers, List.mem_filter, mem_live, has_iff]
  constructor
  · rintro ⟨⟨d, hd⟩, huser⟩
    refine ⟨d, hd, ?_⟩
    rw [hd] at huser
    cases hkind : d.kind <;> simp_all [Class.contains, ValueKind.isUser]
  · rintro ⟨d, hd, hkind⟩
    refine ⟨⟨d, hd⟩, ?_⟩
    cases hk : d.kind <;> simp_all [Class.contains, ValueKind.isUser]

/-- With instructions go their operand slots. -/
theorem Reduced.numEdges_eq (h : g.Reduced g' emptied gone) (hc : g.Coherent) (hc' : g'.Coherent)
    (hu : g.OnlyUsers) (hu' : g'.OnlyUsers) {body : List Value} (nodup : body.Nodup)
    (mem : ∀ v, v ∈ body ↔ v ∈ gone ∧ g.Has .instruction v) :
    g.numEdges = g'.numEdges + (body.flatMap g.slotsOf).length := by
  have left : (g'.liveUsers.flatMap g'.slotsOf).length =
      ((g.liveUsers.filter (· ∉ gone)).flatMap g.slotsOf).length := by
    rw [h.liveUsers_eq]
    refine congrArg List.length (List.flatMap_congr fun v hv => h.slotsOf_eq ?_)
    simpa using (List.mem_filter.1 hv).2
  have went : ((g.liveUsers.filter fun v => !decide (v ∉ gone)).flatMap g.slotsOf).length =
      (body.flatMap g.slotsOf).length := by
    refine List.Perm.length_eq (.flatMap_right _ ?_)
    refine (List.perm_ext_iff_of_nodup (((nodup_live g).filter _).filter _) nodup).2 fun v => ?_
    rw [mem, ← mem_liveUsers, liveUsers, List.mem_filter, and_comm]
    simp
  rw [hc.numEdges_eq hu, hc'.numEdges_eq hu', left, ← went]
  exact length_flatMap_filter _ _ _

end Graph

/-! ## Parts -/

namespace Context

variable {c c' : Context} {a : Unit}

/-- The arguments of a function. -/
def argumentsOf (c : Context) (f : Func) : List Argument :=
  match c.functionData f with
  | .ok (_, args) => args
  | .error _ => []

/-- A live function has a face, with the arguments it lists. -/
theorem face?_of_function (hs : c.Sound) {f : Func} (alive : c.isa .function f.value = .ok true) :
    ∃ ty name fnType,
      c.graph.face? f.value = some ⟨ty, name, .function fnType (c.argumentsOf f)⟩ := by
  obtain ⟨d, hd, hkind⟩ := (isa_eq_ok_iff hs).1 alive
  have hface := Graph.face?_of_value? hd
  cases hk : d.kind with
  | function fnType args =>
    have data := (functionData_eq_ok_iff hs (x := (fnType, args))).2 ⟨d, hd, hk⟩
    rw [hk] at hface
    exact ⟨d.ty, d.name, fnType, by rw [argumentsOf, data]; exact hface⟩
  | _ =>
    rw [hk] at hkind
    cases hkind

/-- The use is that of an operand slot of one of the values. -/
def ownedBy (c : Context) (vs : List Value) (u : Use) : Bool :=
  match c.useData u with
  | .ok e => e.user ∈ vs
  | .error _ => false

end Context

/-- What is erased with all that is in it. -/
inductive Part where
  | block (b : Block)
  | function (f : Func)

namespace Part

open Context

variable {c c' : Context} {p : Part} {a : Unit} {v : Value}

/-- Erases the part. -/
def erase : Part → Run Context Unit
  | block b => eraseBlock b
  | function f => eraseFunction f

/-- The part is alive. -/
def Alive (c : Context) : Part → Prop
  | block b => c.isa .block b.value = .ok true
  | function f => c.isa .function f.value = .ok true

/-- The instructions in the part. -/
def body (c : Context) : Part → List Value
  | block b => (c.layout.instructions b).map (·.value)
  | function f => c.body f

/-- All values that go with the part. -/
def values (c : Context) : Part → List Value
  | block b => c.layout.extent b
  | function f => c.extent f (c.argumentsOf f)

/-- An instruction outside the part has an operand slot that holds one of the values of the part. -/
def UsedFromOutside (c : Context) (p : Part) : Prop :=
  ∃ user i v, c.isa .instruction user = .ok true ∧ user ∉ p.body c ∧
    c.operandAt user i = .ok (some v) ∧ v ∈ p.values c

/-- The part is no longer in the lists it was in. -/
def Removed (c c' : Context) : Part → Prop
  -- The function that had the block keeps the others in order.
  | block b => (∀ f, c'.layout.blocks f = (c.layout.blocks f).filter (· ≠ b)) ∧
    c'.functions = c.functions ∧ ∀ name, c'.names.get? name = c.names.get? name
  -- The other functions keep their blocks, and the name of the function is free again.
  | function f => (∀ f', f' ≠ f → c'.layout.blocks f' = c.layout.blocks f') ∧
    c'.functions = c.functions.filter (· ≠ f) ∧
    ∃ name, c.nameOf f.value = .ok (some name) ∧
      ∀ n, c'.names.get? n = if n = name then none else c.names.get? n

/-- What is left when the part is erased. -/
structure Erased (c c' : Context) (p : Part) : Prop where
  /-- The values of the part are gone, and no others. -/
  live : c'.graph.live = c.graph.live.filter (· ∉ p.values c)
  /-- The others keep their types, names and kinds. -/
  faces : ∀ v ∈ c'.graph.live, c'.typeOf v = c.typeOf v ∧ c'.nameOf v = c.nameOf v ∧
    c'.kindOf v = c.kindOf v
  /-- They keep their operands. -/
  operands : ∀ v ∈ c'.graph.live, c'.operandSlots v = c.operandSlots v ∧ c'.operands v = c.operands v
  /-- They keep their uses in order, those by instructions of the part apart. -/
  uses : ∀ v ∈ c'.graph.live, ∃ us, c.uses v = .ok us ∧
    c'.uses v = .ok (us.filter fun u => !c.ownedBy (p.body c) u)
  /-- The operand slots of the part are given up. -/
  edges : c.graph.numEdges = c'.graph.numEdges + ((p.body c).flatMap c.graph.slotsOf).length
  /-- The other blocks have the instructions they had. -/
  instructions : ∀ b, b.value ∉ p.values c → c'.layout.instructions b = c.layout.instructions b
  /-- Blocks and instructions stay where they are. -/
  parents : (∀ i, i.value ∉ p.values c → c'.layout.parentBlock? i = c.layout.parentBlock? i) ∧
    ∀ b, b.value ∉ p.values c → c'.layout.parentFunction? b = c.layout.parentFunction? b
  /-- The part has left its lists. -/
  removed : p.Removed c c'
  /-- The types are the same. -/
  types : c'.types = c.types
  /-- The constants are the same. -/
  pool : c'.pool = c.pool

/-! ## What the parts have in common -/

/-- A value of a class is of the context. -/
theorem ctx_eq (hs : c.Sound) {cls : Class} (alive : c.isa cls v = .ok true) :
    v.ctx = c.graph.ctx := by
  obtain ⟨d, hd, -⟩ := (isa_eq_ok_iff hs).1 alive
  exact Graph.ctx_of_value? hd

/-- The body are the instructions among the values. -/
theorem mem_body_iff (hs : c.Sound) (hi : c.Intact) (alive : p.Alive c) :
    v ∈ p.body c ↔ v ∈ p.values c ∧ c.graph.Has .instruction v := by
  cases p with
  | block b =>
    have hb := (isa_eq_true_iff hs).1 alive
    constructor
    · intro hv
      obtain ⟨i, hmem, rfl⟩ := List.mem_map.1 hv
      exact ⟨List.mem_cons_of_mem _ hv, hi.layout.instruction_of_mem hmem⟩
    · rintro ⟨hv, hinst⟩
      rcases List.mem_cons.1 hv with rfl | hv
      · exact absurd hinst (hb.apart (by decide))
      · exact hv
  | function f =>
    obtain ⟨ty, name, fnType, hf⟩ := face?_of_function hs alive
    constructor
    · intro hv
      exact ⟨List.mem_append_right _ (List.mem_cons_of_mem _ (c.body_subset f hv)),
        has_of_mem_body hi hv⟩
    · rintro ⟨hv, hinst⟩
      -- Of the four sorts of what goes with a function only the body consists of instructions.
      rcases of_mem_extent hi hf hv with ⟨harg, -⟩ | rfl | ⟨b, hb, rfl⟩ | hbody
      · exact absurd hinst (harg.apart (by decide))
      · exact absurd ⟨_, hf, rfl⟩ (hinst.apart (b := .function) (by decide))
      · exact absurd hinst ((hi.layout.block_of_mem hb).apart (by decide))
      · exact hbody

/-- An instruction of the body is in a block that goes too. -/
theorem block_of_mem_body (hv : v ∈ p.body c) :
    ∃ b, b.value ∈ p.values c ∧ ∃ i ∈ c.layout.instructions b, i.value = v := by
  cases p with
  | block b => exact ⟨b, List.mem_cons_self .., List.mem_map.1 hv⟩
  | function f =>
    obtain ⟨b, hb, hv⟩ := List.mem_flatMap.1 hv
    have hmem : b.value ∈ (c.layout.blocks f).flatMap c.layout.extent :=
      List.mem_flatMap.2 ⟨b, hb, List.mem_cons_self ..⟩
    exact ⟨b, List.mem_append_right _ (List.mem_cons_of_mem _ hmem), List.mem_map.1 hv⟩

/-- Of the functions only the erased one goes. -/
theorem function_mem_values_iff (hs : c.Sound) (hi : c.Intact) (alive : p.Alive c) {f : Func}
    (hf : c.graph.Has .function f.value) : f.value ∈ p.values c ↔ p = .function f := by
  cases p with
  | block b =>
    have hb := (isa_eq_true_iff hs).1 alive
    refine ⟨fun hmem => ?_, nofun⟩
    rcases hi.layout.of_mem_extent hb hmem with h | h
    · exact absurd h (hf.apart (by decide))
    · exact absurd h (hf.apart (by decide))
  | function f' =>
    obtain ⟨ty, name, fnType, hf'⟩ := face?_of_function hs alive
    rw [function.injEq, eq_comm]
    exact function_mem_extent_iff hi hf' hf

/-- Of the blocks only the erased one goes, or those of the erased function. -/
theorem block_mem_values_iff (hs : c.Sound) (hi : c.Intact) (alive : p.Alive c) {b : Block}
    (hb : c.graph.Has .block b.value) :
    b.value ∈ p.values c ↔ p = .block b ∨ ∃ f, p = .function f ∧ b ∈ c.layout.blocks f := by
  cases p with
  | block b' =>
    simp only [block.injEq, reduceCtorEq, false_and, exists_false, or_false]
    constructor
    · intro hmem
      -- A block goes with its instructions, and none of those is a block.
      rcases List.mem_cons.1 hmem with heq | hmem
      · exact (Handle.ext heq).symm
      · obtain ⟨i, hi', heq⟩ := List.mem_map.1 hmem
        have hi' := hi.layout.instruction_of_mem hi'
        rw [heq] at hi'
        exact absurd hi' (hb.apart (by decide))
    · rintro rfl
      exact List.mem_cons_self ..
  | function f =>
    obtain ⟨ty, name, fnType, hf⟩ := face?_of_function hs alive
    simp only [reduceCtorEq, function.injEq, exists_eq_left', false_or]
    constructor
    · intro hmem
      -- Of the four sorts of what goes with a function only its blocks are blocks.
      rcases of_mem_extent hi hf hmem with ⟨h, -⟩ | h | ⟨b', hb', heq⟩ | h
      · exact absurd h (hb.apart (by decide))
      · rw [h] at hb
        exact absurd ⟨_, hf, rfl⟩ (hb.apart (b := .function) (by decide))
      · rwa [Handle.ext heq]
      · exact absurd (has_of_mem_body hi h) (hb.apart (by decide))
    · intro hmem
      refine List.mem_append_right _ (List.mem_cons_of_mem _ (List.mem_flatMap.2 ⟨b, hmem, ?_⟩))
      exact List.mem_cons_self ..

/-- No instruction is in the body twice. -/
theorem nodup_body (hi : c.Intact) (p : Part) : (p.body c).Nodup := by
  have instructions : ∀ b, ((c.layout.instructions b).map (·.value)).Nodup :=
    fun b => (hi.layout.contents.nodup b).map fun i j h => Handle.ext h
  cases p with
  | block b => exact instructions b
  | function f =>
    refine List.nodup_flatMap.2 ⟨fun b _ => instructions b, ?_⟩
    refine (hi.layout.bodies.nodup f).imp fun {b b'} hne v hv hv' => ?_
    -- An instruction is in one block only.
    obtain ⟨i, hmem, rfl⟩ := List.mem_map.1 hv
    obtain ⟨j, hmem', heq⟩ := List.mem_map.1 hv'
    rw [Handle.ext heq] at hmem'
    exact hne (hi.layout.contents.eq_of_mem hmem hmem')

/-- The erasure of a part makes tame changes. -/
theorem erase_steps : Run.Steps Tame p.erase c := by
  cases p with
  | block b => exact eraseBlock_steps.mono fun _ _ h => h.quiet.tame
  | function f => exact eraseFunction_steps.mono fun _ _ h => h.quiet.tame

/-- The erasure of a live part is not rejected. -/
theorem erase_firm (hs : c.Sound) (alive : p.Alive c) : Firm p.erase c := by
  cases p with
  | block b => exact eraseBlock_firm hs (ctx_eq hs alive)
  | function f => exact eraseFunction_firm hs (ctx_eq hs alive)

/-- The erasure of a part sheds its values. -/
theorem erase_sheds (hs : c.Sound) (hi : c.Intact) (alive : p.Alive c)
    (run : p.erase c = .ok a c') : c.Sheds c' (p.values c) (p.values c) := by
  cases p with
  | block b => exact eraseBlock_sheds hs hi ((isa_eq_true_iff hs).1 alive) run
  | function f =>
    obtain ⟨ty, name, fnType, hf⟩ := face?_of_function hs alive
    exact eraseFunction_sheds hs hi hf run

/-- The erasure of a part does not end the run if only its body uses its values. -/
theorem erase_calm (hs : c.Sound) (hi : c.Intact) (alive : p.Alive c)
    (used : c.graph.UsedBy (p.values c) (p.body c)) : Calm p.erase c := by
  cases p with
  | block b => exact eraseBlock_calm hs hi ((isa_eq_true_iff hs).1 alive) used
  | function f =>
    obtain ⟨ty, name, fnType, hf⟩ := face?_of_function hs alive
    exact eraseFunction_calm hs hi hf used

/-! ## Outside uses -/

/-- A part is used from outside exactly when something else than its body uses its values. -/
theorem usedFromOutside_iff (hs : c.Sound) (hu : c.graph.OnlyUsers) :
    p.UsedFromOutside c ↔ ¬ c.graph.UsedBy (p.values c) (p.body c) := by
  constructor
  · rintro ⟨user, i, v, -, hout, hop, hv⟩ used
    obtain ⟨u, -, he⟩ := (operandAt_eq_ok_iff hs).1 hop
    exact hout (used u _ v he rfl hv)
  · intro h
    simp only [Graph.UsedBy, not_forall] at h
    obtain ⟨u, ⟨user, i, t⟩, v, he, ht, hv, hout⟩ := h
    simp only at ht
    subst ht
    have hslot := hs.graph.owner he
    have instruction := Graph.OnlyUsers.has_instruction hu hslot
    exact ⟨user, i, v, (isa_eq_true_iff hs).2 instruction, hout,
      (operandAt_eq_ok_iff hs).2 ⟨u, hslot, he⟩, hv⟩

/-- A part that is erased was not used from outside. -/
theorem usedBy_of_erased (hs : c.Sound) (hi : c.Intact) (hu : c.graph.OnlyUsers) (alive : p.Alive c)
    (run : p.erase c = .ok a c') : c.graph.UsedBy (p.values c) (p.body c) := by
  intro u e v he ht hv
  by_contra hout
  have shed := erase_sheds hs hi alive run
  have hs' := hs.of_chain (chain_of_tame (erase_steps _ _ run))
  have user := Graph.OnlyUsers.has_instruction hu (hs.graph.owner he)
  -- The outside use is still there, so what it points to has to be alive.
  have he' := shed.graph.edge?_eq hs.graph he fun hmem =>
    hout ((mem_body_iff hs hi alive).2 ⟨hmem, user⟩)
  obtain ⟨d, hd⟩ := hs'.graph.alive he' ht
  have hgone := shed.graph.reduced.bare v
  rw [if_pos hv, Graph.bare?_eq_none_iff, hd] at hgone
  cases hgone

/-! ## What is left -/

/-- The use of a live value belongs to the body exactly when it is a slot of one of the values. -/
theorem ownedBy_body (hs : c.Sound) (hi : c.Intact) (hu : c.graph.OnlyUsers) (alive : p.Alive c)
    {u : Use} {e : Edge} (he : c.graph.edge? u = some e) :
    c.ownedBy (p.body c) u = decide (u ∈ (p.values c).flatMap c.graph.slotsOf) := by
  have user := Graph.OnlyUsers.has_instruction hu (hs.graph.owner he)
  rw [ownedBy, useData, Graph.edge_eq_ok_iff.2 he, decide_eq_decide, mem_body_iff hs hi alive,
    List.mem_flatMap]
  constructor
  · rintro ⟨hmem, -⟩
    exact ⟨e.user, hmem, (hs.graph.mem_slotsOf_iff he).2 rfl⟩
  · rintro ⟨w, hw, hmem⟩
    rw [hs.graph.mem_slotsOf_iff he] at hmem
    exact ⟨hmem ▸ hw, user⟩

/-- A context that has shed a block or function is without it in its layout and its registry. -/
theorem removed_of_sheds (hs : c.Sound) (hi : c.Intact) (alive : p.Alive c)
    (shed : c.Sheds c' (p.values c) (p.values c)) : p.Removed c c' := by
  have functionGoes : ∀ {f : Func}, c.graph.Has .function f.value →
      (f.value ∈ p.values c ↔ p = .function f) := function_mem_values_iff hs hi alive
  have blockGoes : ∀ {f b}, b ∈ c.layout.blocks f → (b.value ∈ p.values c ↔ p = .block b ∨
      ∃ f, p = .function f ∧ b ∈ c.layout.blocks f) :=
    fun hb => block_mem_values_iff hs hi alive (hi.layout.block_of_mem hb)
  -- A block takes nothing from the registry; a function takes itself and its name.
  cases p with
  | block b =>
    refine ⟨fun f => ?_, ?_, fun name => ?_⟩
    · rw [Layout.blocks, shed.layout.bodies.members]
      refine List.filter_congr fun b' hb' => ?_
      simp [blockGoes hb', eq_comm]
    · rw [shed.functions, List.filter_eq_self]
      intro f hf
      simp [functionGoes (hi.functions.mem.1 hf)]
    · -- A name goes exactly with the function it leads to.
      rw [shed.names]
      cases hn : c.names.get? name with
      | none => rfl
      | some f =>
        obtain ⟨x, hx, hkind, -⟩ := hi.functions.entry.1 hn
        simp [functionGoes ⟨x, hx, hkind⟩]
  | function f =>
    obtain ⟨ty, name, fnType, hf⟩ := face?_of_function hs alive
    obtain ⟨name', hname⟩ := hi.functions.named hf rfl
    simp only at hname
    subst hname
    obtain ⟨d, hd, hface⟩ := Graph.value?_of_face? hf
    refine ⟨fun f' hne => ?_, ?_, name', ?_, fun n => ?_⟩
    · rw [Layout.blocks, shed.layout.bodies.members, Layout.blocks, List.filter_eq_self]
      intro b hb
      -- A block is in one function only.
      have hout : b ∉ c.layout.blocks f := fun hb' => hne (hi.layout.bodies.eq_of_mem hb hb')
      simp [blockGoes hb, hout]
    · rw [shed.functions]
      refine List.filter_congr fun f' hf' => ?_
      simp [functionGoes (hi.functions.mem.1 hf'), eq_comm]
    · have hname := (congrArg Face.name hface).symm
      simp only at hname
      simp [nameOf, (valueData_eq_ok_iff hs).2 hd, hname]
    · rw [shed.names]
      cases hn : c.names.get? n with
      | none => simp
      | some f' =>
        obtain ⟨x, hx, hkind, -⟩ := hi.functions.entry.1 hn
        have same := hi.functions.name_iff hf rfl rfl hn
        rw [Option.filter_some]
        simp only [functionGoes ⟨x, hx, hkind⟩, same, function.injEq, eq_comm (a := f)]
        by_cases heq : f' = f <;> simp [heq]

/-- What is left keeps its uses in order, those by instructions of the part apart. -/
theorem uses_of_sheds (hs : c.Sound) (hi : c.Intact) (hu : c.graph.OnlyUsers) (hs' : c'.Sound)
    (alive : p.Alive c) (shed : c.Sheds c' (p.values c) (p.values c)) (hv : v ∈ c'.graph.live) :
    ∃ us, c.uses v = .ok us ∧ c'.uses v = .ok (us.filter fun u => !c.ownedBy (p.body c) u) := by
  obtain ⟨d', hd'⟩ := Graph.mem_live.1 hv
  obtain ⟨hout, d, hd, -⟩ := shed.graph.reduced.value?_of_value? hd'
  obtain ⟨us, hlist⟩ := hs.graph.lists hd
  obtain ⟨d'', hd'', hlist'⟩ := shed.graph.reduced.lists hout hd hlist
  have same : us.filter (fun u => !c.ownedBy (p.body c) u) =
      us.filter (· ∉ (p.values c).flatMap c.graph.slotsOf) := by
    refine List.filter_congr fun u hmem => ?_
    obtain ⟨e, he, -⟩ := hlist.mem.1 hmem
    rw [ownedBy_body hs hi hu alive he, decide_not]
  refine ⟨us, by simp [uses, (valueData_eq_ok_iff hs).2 hd, hlist.uses_eq hd], ?_⟩
  rw [same]
  simp [uses, (valueData_eq_ok_iff hs').2 hd'', hlist'.uses_eq hd'']

/-- A block that is left keeps its instructions. -/
theorem instructions_of_sheds (hs : c.Sound) (hi : c.Intact) (alive : p.Alive c)
    (shed : c.Sheds c' (p.values c) (p.values c)) {b : Block} (hb : b.value ∉ p.values c) :
    c'.layout.instructions b = c.layout.instructions b := by
  rw [Layout.instructions, shed.layout.contents.members, Layout.instructions,
    List.filter_eq_self]
  intro i hmem
  have hout : i.value ∉ p.values c := by
    intro hv
    have hbody := (mem_body_iff hs hi alive).2 ⟨hv, hi.layout.instruction_of_mem hmem⟩
    -- The instruction would be in a block that goes.
    obtain ⟨b', hb', j, hj, heq⟩ := block_of_mem_body hbody
    rw [Handle.ext heq] at hj
    exact hb (hi.layout.contents.eq_of_mem hj hmem ▸ hb')
  simpa using hout

/-- A context that has shed the values of a block or function differs by the effect of the
erasure. -/
theorem erased_of_sheds (hs : c.Sound) (hi : c.Intact) (hu : c.graph.OnlyUsers) (hs' : c'.Sound)
    (hu' : c'.graph.OnlyUsers) (alive : p.Alive c) (shed : c.Sheds c' (p.values c) (p.values c)) :
    p.Erased c c' := by
  have reduced := shed.graph.reduced
  refine ⟨reduced.live_eq, fun v hv => ?_, fun v hv => ?_, fun v hv => ?_, ?_, fun b hb => ?_,
    ⟨fun i hi => ?_, fun b hb => ?_⟩, removed_of_sheds hs hi alive shed, shed.types, shed.pool⟩
  · -- What remains has its data as before, apart from the links of its use list.
    obtain ⟨d', hd'⟩ := Graph.mem_live.1 hv
    obtain ⟨-, d, hd, hbare⟩ := reduced.value?_of_value? hd'
    have data := (valueData_eq_ok_iff hs).2 hd
    have data' := (valueData_eq_ok_iff hs').2 hd'
    simp only [ValueData.bare, ValueData.mk.injEq] at hbare
    simp [typeOf, nameOf, kindOf, data, data', hbare]
  · obtain ⟨d', hd'⟩ := Graph.mem_live.1 hv
    obtain ⟨hout, d, hd, hbare⟩ := reduced.value?_of_value? hd'
    have data := (valueData_eq_ok_iff hs).2 hd
    have data' := (valueData_eq_ok_iff hs').2 hd'
    -- The slots are the same, and what is in them too.
    have node := shed.graph.node?_eq hs.graph hout
    rw [Graph.node?_of_value? hd, Graph.node?_of_value? hd', Option.some.injEq, Node.mk.injEq] at node
    simp only [ValueData.bare, ValueData.mk.injEq] at hbare
    rw [operands_eq_ok hs hd, operands_eq_ok hs' hd', node.2.2.2]
    simp [operandSlots, data, data', hbare]
  · exact uses_of_sheds hs hi hu hs' alive shed hv
  · exact reduced.numEdges_eq hs.graph hs'.graph hu hu' (nodup_body hi p) fun v =>
      mem_body_iff hs hi alive
  · exact instructions_of_sheds hs hi alive shed hb
  · rw [Layout.parentBlock?, shed.layout.contents.owner?, Layout.parentBlock?,
      if_neg (by simpa using hi)]
  · rw [Layout.parentFunction?, shed.layout.bodies.owner?, Layout.parentFunction?,
      if_neg (by simpa using hb)]

/-! ## Erasing -/

/-- Erasing a live part ends the run exactly when it is used from outside; otherwise the part is
gone, and everything else is as it was. -/
theorem erase_exact (hc : ClassChecked c) (alive : p.Alive c) :
    ((∃ e c', p.erase c = .error (.fatal e) c') ↔ p.UsedFromOutside c) ∧
      (¬ p.UsedFromOutside c → ∃ c', p.erase c = .ok () c' ∧ p.Erased c c') := by
  have hs := hc.sound
  have hi := hc.intact
  have hu : c.graph.OnlyUsers := hc.onlyUsers
  rw [usedFromOutside_iff hs hu, not_not]
  have firm := erase_firm hs alive
  -- The erasure succeeds exactly when nothing outside uses the part; it can end in a fatal report
  -- only otherwise.
  have erased_iff : (∃ a c', p.erase c = .ok a c') ↔ c.graph.UsedBy (p.values c) (p.body c) := by
    constructor
    · rintro ⟨a, c', run⟩
      exact usedBy_of_erased hs hi hu alive run
    · exact fun used => Run.ok_of_avoids firm (erase_calm hs hi alive used)
  refine ⟨by rw [Run.fatal_iff_of_firm firm, erased_iff], fun used => ?_⟩
  obtain ⟨⟨⟩, c', run⟩ := erased_iff.2 used
  have chain := chain_of_tame (erase_steps _ _ run)
  exact ⟨c', run, erased_of_sheds hs hi hu (hs.of_chain chain) (onlyUsers_of_chain hs hu chain)
    alive (erase_sheds hs hi alive run)⟩

/-- A function with an argument and two blocks that branch to each other. -/
def cycle : List Request :=
  [.functionType ⟨⟨1⟩, 0⟩ [⟨⟨1⟩, 9⟩] false, .newFunction "f" ⟨⟨1⟩, 11⟩, .newBlock none,
    .newBlock none, .appendBlock ⟨⟨⟨1⟩, 0⟩⟩ ⟨⟨⟨1⟩, 2⟩⟩, .appendBlock ⟨⟨⟨1⟩, 0⟩⟩ ⟨⟨⟨1⟩, 3⟩⟩,
    .br { point := .atEnd ⟨⟨⟨1⟩, 2⟩⟩ } ⟨⟨⟨1⟩, 3⟩⟩, .br { point := .atEnd ⟨⟨⟨1⟩, 3⟩⟩ } ⟨⟨⟨1⟩, 2⟩⟩]

/-- For instance, a function whose two blocks branch to each other can be erased, and neither block
alone. -/
theorem erase_exact_after_cycle : ∃ c : Context, replay cycle (.initial ⟨1⟩) = some c ∧
    (function ⟨⟨⟨1⟩, 0⟩⟩).Alive c ∧ ¬ (function ⟨⟨⟨1⟩, 0⟩⟩).UsedFromOutside c ∧
    (∃ c', (function ⟨⟨⟨1⟩, 0⟩⟩).erase c = .ok () c' ∧ (function ⟨⟨⟨1⟩, 0⟩⟩).Erased c c') ∧
    (block ⟨⟨⟨1⟩, 2⟩⟩).Alive c ∧ (block ⟨⟨⟨1⟩, 2⟩⟩).UsedFromOutside c ∧
    ∃ e c', (block ⟨⟨⟨1⟩, 2⟩⟩).erase c = .error (.fatal e) c' := by
  obtain ⟨c, hc, ⟨functionAlive, erases, blockAlive, fails⟩, checked⟩ := exists_replay cycle ⟨1⟩
    (P := fun c => c.isa .function ⟨⟨1⟩, 0⟩ = .ok true ∧
      (match eraseFunction ⟨⟨⟨1⟩, 0⟩⟩ c with | .ok _ _ => true | .error _ _ => false) = true ∧
      c.isa .block ⟨⟨1⟩, 2⟩ = .ok true ∧
      (match eraseBlock ⟨⟨⟨1⟩, 2⟩⟩ c with | .ok _ _ => true | .error _ _ => false) = false)
    (by decide +kernel) fun c hc _ => hc
  obtain ⟨fatal, erased⟩ := erase_exact (p := function ⟨⟨⟨1⟩, 0⟩⟩) checked functionAlive
  obtain ⟨fatal', erased'⟩ := erase_exact (p := block ⟨⟨⟨1⟩, 2⟩⟩) checked blockAlive
  -- The two runs tell on which side of the alternative each part is.
  have inside : ¬ (function ⟨⟨⟨1⟩, 0⟩⟩).UsedFromOutside c := by
    intro outside
    obtain ⟨e, c', run⟩ := fatal.2 outside
    rw [erase] at run
    simp [run] at erases
  have outside : (block ⟨⟨⟨1⟩, 2⟩⟩).UsedFromOutside c := by
    by_contra inside
    obtain ⟨c', run, -⟩ := erased' inside
    rw [erase] at run
    simp [run] at fails
  exact ⟨c, hc, functionAlive, inside, erased inside, blockAlive, outside, fatal'.2 outside⟩

end Part

end SsaGraph
