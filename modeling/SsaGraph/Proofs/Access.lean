import SsaGraph.Proofs.Addressing
import SsaGraph.Proofs.Sizing

/-!
# Storing and loading back

A store and a load through the same pointer are about values of the same type, the one pointed to.
What is asked of this type differs: a load wants it to be sized, and a store does not. So what was
stored through a pointer can be loaded from it exactly if it is of a sized type
(`Reachable.loads_back_if_sized`). The place of the store is there for the load, too: what comes to
stand before an instruction or at the end of a block leaves the place as it is (`emit_open`).
-/

namespace SsaGraph

namespace Context

variable {c c' : Context} {cls : Class} {site : Site} {ty : Ty} {op : Operation}
  {operands : List (Option Value)} {point : InsertPoint} {v p : Value}

/-! ## Places that are there -/

/-- A place is there before something is put there, and after. -/
theorem place_offers {i : Instruction} {a : Unit} (run : place i point c = .ok a c') :
    c.layout.Offers point ∧ c'.layout.Offers point := by
  cases point with
  | detached => exact ⟨trivial, trivial⟩
  | before anchor =>
    have run : onLayout (Layout.insertInstruction anchor i) c = .ok a c' := run
    obtain ⟨l, hl, rfl⟩ := Run.on_eq_ok_iff.1 run
    obtain ⟨n, hn, rfl⟩ := Layout.onContents_eq_ok_iff.1 hl
    obtain ⟨b, xs, hb, -, -, rfl⟩ := Nest.insert_eq_ok_iff.1 hn
    refine ⟨⟨b, hb⟩, b, ?_⟩
    -- The new instruction has the owner of the anchor, and the anchor keeps it.
    show (c.layout.contents.enter b i (insertBefore anchor i xs)).owner? anchor = some b
    rw [Nest.owner?_enter]
    split
    · rfl
    · exact hb
  | atEnd b =>
    have run : onLayout (Layout.appendInstruction b i) c = .ok a c' := run
    obtain ⟨l, hl, rfl⟩ := Run.on_eq_ok_iff.1 run
    obtain ⟨n, hn, rfl⟩ := Layout.onContents_eq_ok_iff.1 hl
    obtain ⟨xs, hxs, -⟩ := Nest.append_eq_ok_iff.1 hn
    have there : c.layout.contents.lists.contains b = true := Keyed.contains_iff.2 ⟨xs, hxs⟩
    exact ⟨there, (Nest.append_contains hn).trans there⟩

/-- What was emitted was emitted at a point that passed its check. -/
theorem emit_checked {i : Handle cls} (run : emit site ty op operands c = .ok i c') :
    c.checkPoint site.point = .ok () := by
  simp only [emit, Run.bind_eq_ok_iff, Run.get_apply, Run.question_eq_ok_iff] at run
  obtain ⟨_, _, h₀, _, _, ⟨checked, -⟩, -⟩ := run
  cases h₀
  exact checked

/-- The values that are there stay as they are. -/
theorem emit_node? {i : Handle cls} {n : Node} (hs : c.Sound)
    (run : emit site ty op operands c = .ok i c') (hn : c.graph.node? v = some n) :
    c'.graph.node? v = some n := by
  obtain ⟨graph, _, built, rfl, placed⟩ := emit_ok run
  obtain ⟨layout, rfl⟩ := place_ok placed
  obtain ⟨-, -, hi, node⟩ := Graph.newUser_ok hs.graph built
  obtain ⟨d, hd, -⟩ := Graph.value?_of_node? hn
  have old := Graph.index_lt_of_value? hd
  refine (node v).trans ((if_neg ?_).trans hn)
  rintro rfl
  rw [hi] at old
  exact Nat.lt_irrefl _ old

/-- A value that passes its check passes it after an emission. -/
theorem emit_check {i : Handle cls} {a : Unit} (hs : c.Sound)
    (run : emit site ty op operands c = .ok i c') (hv : c.check v = .ok a) :
    c'.check v = .ok a := by
  obtain ⟨d, hd⟩ := check_eq_ok_iff.1 hv
  obtain ⟨d', hd', -⟩ := Graph.value?_of_node? (emit_node? hs run (Graph.node?_of_value? hd))
  exact check_eq_ok_iff.2 ⟨d', hd'⟩

/-- The type of a value is that of its node. -/
theorem typeOf_eq_ok_iff (hs : c.Sound) :
    c.typeOf v = .ok ty ↔ ∃ n, c.graph.node? v = some n ∧ n.ty = ty := by
  simp only [typeOf, Question.bind_eq_ok_iff, valueData_eq_ok_iff hs, Question.pure_eq_ok_iff]
  constructor
  · rintro ⟨d, hd, rfl⟩
    exact ⟨_, Graph.node?_of_value? hd, rfl⟩
  · rintro ⟨n, hn, rfl⟩
    obtain ⟨d, hd, rfl⟩ := Graph.value?_of_node? hn
    exact ⟨d, hd, rfl⟩

/-- A value keeps its type in an emission. -/
theorem emit_typeOf {i : Handle cls} {t : Ty} (hs : c.Sound) (hs' : c'.Sound)
    (run : emit site ty op operands c = .ok i c') (hv : c.typeOf v = .ok t) :
    c'.typeOf v = .ok t := by
  obtain ⟨n, hn, same⟩ := (typeOf_eq_ok_iff hs).1 hv
  exact (typeOf_eq_ok_iff hs').2 ⟨n, emit_node? hs run hn, same⟩

/-- Where something was put, more can be put. -/
theorem emit_open {i : Handle cls} (hs : c.Sound)
    (run : emit site ty op operands c = .ok i c') : c'.OpenAt site.point := by
  have checked := emit_checked run
  have stays : ∀ {w a}, c.check w = .ok a → c'.check w = .ok a := emit_check hs run
  obtain ⟨graph, _, -, rfl, placed⟩ := emit_ok run
  have offers := (place_offers placed).2
  refine ⟨?_, offers⟩
  revert checked offers
  cases site.point with
  | detached => exact fun _ _ => rfl
  | before anchor =>
    rintro checked ⟨b, hb⟩
    simp only [checkPoint, Question.bind_eq_ok_iff, Question.guard_last_eq_ok_iff] at checked ⊢
    obtain ⟨_, alive, -⟩ := checked
    exact ⟨(), stays alive, by simp [hb], rfl⟩
  | atEnd b => exact fun checked _ => stays checked

/-! ## Loads and stores -/

/-- Values of the type can be loaded and stored, sized or not. -/
def Accessible (c : Context) (ty : Ty) : Prop :=
  ∃ d, c.types.data ty = .ok d ∧ d.kind.canBeAccessed = true

/-- For something accessible, the answer is whether it is sized. -/
theorem isStorable_eq (h : c.Accessible ty) {b : Bool} (sized : c.types.isSized ty = .ok b) :
    c.isStorable ty = .ok b := by
  obtain ⟨d, hd, accessible⟩ := h
  rw [isStorable, TypeTable.kind, hd, sized]
  show Except.ok (d.kind.canBeAccessed && b) = .ok b
  rw [accessible, Bool.true_and]

/-- A store that was built has checked all that is asked of it, and then emitted. -/
theorem buildStore_ok {i : Handle .store} (run : buildStore site v p c = .ok i c') :
    ∃ ty space, p ∈ c.graph.live ∧ c.typeOf v = .ok ty ∧ c.PointsTo p ty space ∧
      c.Accessible ty ∧ emit site c.types.void .store [some v, some p] c = .ok i c' := by
  simp only [buildStore, Run.bind_eq_ok_iff, Run.get_apply, Run.question_eq_ok_iff,
    Run.faulting_eq_ok_iff, Run.guard_eq_ok_iff, checkAll_eq_ok_iff] at run
  obtain ⟨_, _, h₀, _, _, ⟨alive, rfl⟩, ⟨pointee, space⟩, _, ⟨parts, rfl⟩, ty, _, ⟨hty, rfl⟩, same,
    k, _, ⟨hk, rfl⟩, accessible, emitted⟩ := run
  cases h₀
  obtain rfl : pointee = ty := same
  obtain ⟨d, hd, rfl⟩ := TypeTable.kind_eq_ok_iff.1 hk
  exact ⟨pointee, space, alive p (by simp), hty, pointerParts_eq_ok_iff.1 parts,
    ⟨d, TypeTable.data_eq_ok_iff.2 hd, accessible⟩, emitted⟩

/-- Through a pointer to something accessible, it depends on the size whether there is a load. -/
theorem buildLoad_eq {space : Nat} (hp : p ∈ c.graph.live) (points : c.PointsTo p ty space)
    (accessible : c.Accessible ty) {b : Bool} (sized : c.types.isSized ty = .ok b) :
    buildLoad site p c = if b then emit site ty .load [some p] c
      else .error (.rejected (.badLoad (c.types.display ty))) c := by
  simp only [buildLoad, Run.bind_apply, Run.get_apply, Run.question_apply, Run.faulting_apply,
    check_of_live hp, pointerParts_eq_ok_iff.2 points, isStorable_eq accessible sized]
  cases b <;> rfl

/-- What can be accessed is not the type without values. -/
theorem Accessible.ne_void (hs : c.Sound) (h : c.Accessible ty) : ty ≠ c.types.void := by
  rintro rfl
  obtain ⟨d, hd, accessible⟩ := h
  have void : c.types.data c.types.void = .ok .void :=
    TypeTable.data_eq_ok_iff.2 (hs.types.primitive rfl)
  rw [void] at hd
  cases hd
  cases accessible

/-- A load through the pointer answers with a value of the type if the type is sized, and is
rejected if it is not. -/
structure LoadsIfSized (c : Context) (site : Site) (p : Value) (ty : Ty) : Prop where
  /-- The value loaded is of the type. -/
  sized : c.types.Sized ty → ∃ v c', (Request.load site p).run c = .ok (.value v) c' ∧
    c'.typeOf v = .ok ty
  /-- What is not sized is not loaded. -/
  unsized : ¬ c.types.Sized ty →
    (Request.load site p).run c = .error (.rejected (.badLoad (c.types.display ty))) c

/-- Through a live pointer to something accessible there is a load if and only if it is sized. -/
theorem loadsIfSized (hc : c.Reachable) {space : Nat} (hp : p ∈ c.graph.live)
    (points : c.PointsTo p ty space) (accessible : c.Accessible ty) (h : c.OpenAt site.point) :
    c.LoadsIfSized site p ty := by
  have hs := hc.sound
  have decides := hs.types.decidesSized hc.ordered
  have ⟨d, hd, _⟩ := accessible
  constructor
  · intro sized
    have alive : ∀ o ∈ [some p], ∀ v ∈ o, ∃ d, c.graph.value? v = some d := by
      simpa using Graph.mem_live.1 hp
    -- All that an emission asks for is there, so the load is built.
    obtain ⟨i, c', emitted⟩ : ∃ (i : Handle .load) (c' : Context),
        emit site ty .load [some p] c = .ok i c' :=
      emit_at hs hc.tidy h (.inr (accessible.ne_void hs)) alive
    have built : buildLoad site p c = .ok i c' := by
      rw [buildLoad_eq hp points accessible ((decides.sized hd).2 sized), if_pos rfl, emitted]
    have run : (Request.load site p).run c = .ok (.value i.value) c' :=
      Run.bind_eq_ok_iff.2 ⟨i, c', built, rfl⟩
    have hs' : c'.Sound := hs.of_chain (Request.run_steps hs _ _ _ run)
    exact ⟨i.value, c', run, (emit_data hs hs' emitted).2.1⟩
  · intro unsized
    -- The question for the size is answered, and here it can only be no.
    obtain ⟨b, hb, -⟩ := decides.ends hd
    have hb : c.types.isSized ty = .ok false := by
      cases b with
      | true => exact absurd ((decides.sized hd).1 hb) unsized
      | false => exact hb
    show Request.valued (buildLoad site p) c = _
    rw [Request.valued, Run.bind_apply, buildLoad_eq hp points accessible hb]
    rfl

/-- After a value has been stored, the pointer leads back to it at the place of the store if its
type is sized. -/
theorem Reachable.loads_back_if_sized (hc : c.Reachable) {a : Answer}
    (run : (Request.store site v p).run c = .ok a c') :
    ∃ ty, c.typeOf v = .ok ty ∧ c'.typeOf v = .ok ty ∧ c'.types = c.types ∧
      ∀ name, c'.LoadsIfSized { site with name } p ty := by
  have hs := hc.sound
  have hc' : c'.Reachable := .answered hc trivial run
  -- The store has checked what a load asks for, except the size.
  obtain ⟨i, rfl, built⟩ := Request.valued_eq_ok run
  obtain ⟨ty, space, hp, hv, points, accessible, emitted⟩ := buildStore_ok built
  obtain ⟨types, -⟩ := emit_data hs hc'.sound emitted
  refine ⟨ty, hv, emit_typeOf hs hc'.sound emitted hv, types, fun name => ?_⟩
  -- The pointer, what it points to and the place have not changed.
  have hp' : p ∈ c'.graph.live :=
    Graph.mem_live.2 (check_eq_ok_iff.1 (emit_check hs emitted (check_of_live hp)))
  have place : c'.OpenAt site.point := emit_open hs emitted
  have points' : c'.PointsTo p ty space := by
    obtain ⟨pointer, hpointer, data⟩ := points
    exact ⟨pointer, emit_typeOf hs hc'.sound emitted hpointer, types ▸ data⟩
  have accessible' : c'.Accessible ty := by
    rw [Accessible, types]
    exact accessible
  exact loadsIfSized hc' hp' points' accessible' place

/-- A request after other requests, with something that can be seen of it and something that then
holds of all such requests. -/
theorem exists_run (rs : List Request) (r : Request) (id : ContextId)
    {P Q : Context → Context → Prop} [∀ c c', Decidable (P c c')]
    (h : ((replay rs (.initial id)).any fun c =>
      (replay [r] c).any fun c' => decide (P c c')) = true)
    (hQ : ∀ c a c', ClassChecked c → r.ClassChecked c → r.run c = .ok a c' → P c c' → Q c c') :
    ∃ c a c', replay rs (.initial id) = some c ∧ r.run c = .ok a c' ∧ P c c' ∧ Q c c' := by
  obtain ⟨c, hc, h⟩ := (Option.any_eq_true ..).1 h
  obtain ⟨c', hr, hP⟩ := (Option.any_eq_true ..).1 h
  have hP : P c c' := of_decide_eq_true hP
  have reached : ClassChecked c := classChecked_of_replay hc (.initial id)
  -- Replaying a single request is checking its handles and running it.
  rw [replay] at hr
  split at hr
  · rename_i checked
    split at hr
    · rename_i a c₁ run
      cases hr
      have asked : r.ClassChecked c := fun m hm => hasClass_of_isa (checked m hm)
      exact ⟨c, a, c', hc, run, hP, hQ c a c' reached asked run hP⟩
    · cases hr
  · cases hr

/-- For instance, a number stored into a stack slot in the middle of a block. -/
theorem loads_back_from_stack : ∃ c a c',
    replay [.newBlock none, .alloca { point := .atEnd ⟨⟨⟨1⟩, 0⟩⟩ } ⟨⟨1⟩, 9⟩ none,
      .ret { point := .atEnd ⟨⟨⟨1⟩, 0⟩⟩ } none] (.initial ⟨1⟩) = some c ∧
    (Request.store { point := .before ⟨⟨⟨1⟩, 3⟩⟩ } ⟨⟨1⟩, 1⟩ ⟨⟨1⟩, 2⟩).run c = .ok a c' ∧
    c'.layout.instructions ⟨⟨⟨1⟩, 0⟩⟩ = [⟨⟨⟨1⟩, 2⟩⟩, ⟨⟨⟨1⟩, 4⟩⟩, ⟨⟨⟨1⟩, 3⟩⟩] ∧
    ∃ ty, c.typeOf ⟨⟨1⟩, 1⟩ = .ok ty ∧ c'.typeOf ⟨⟨1⟩, 1⟩ = .ok ty ∧ c'.types = c.types ∧
      ∀ name, c'.LoadsIfSized { point := .before ⟨⟨⟨1⟩, 3⟩⟩, name } ⟨⟨1⟩, 2⟩ ty :=
  exists_run _ _ _ (by decide +kernel) fun _ _ _ hc _ run _ =>
    Reachable.loads_back_if_sized (hc.mono fun _ _ _ => trivial) run

/-- The error that a request is rejected with. -/
def rejection? (c : Context) (r : Request) : Option Error :=
  match r.run c with
  | .error (.rejected e) _ => some e
  | _ => none

/-- A request with a rejection to be found is rejected and changes nothing. -/
theorem run_of_rejection? {r : Request} {e : Error} (hs : c.Sound)
    (h : c.rejection? r = some e) : r.run c = .error (.rejected e) c := by
  rw [rejection?] at h
  split at h
  · rename_i e' c' run
    cases h
    rw [run, Request.run_atomic hs r e c' run]
  · cases h

/-- A struct without a body can be stored, and then not be loaded. -/
theorem bodyless_struct_stored_and_not_loaded : ∃ c a c',
    replay [.createStruct (some "s"), .pointerType ⟨⟨1⟩, 11⟩ 0, .undef ⟨⟨1⟩, 11⟩,
      .phi {} ⟨⟨1⟩, 12⟩] (.initial ⟨1⟩) = some c ∧
    (Request.store {} ⟨⟨1⟩, 0⟩ ⟨⟨1⟩, 1⟩).run c = .ok a c' ∧
    c'.rejection? (.load {} ⟨⟨1⟩, 1⟩) = some (.badLoad "%s") ∧
    (Request.load {} ⟨⟨1⟩, 1⟩).run c' = .error (.rejected (.badLoad "%s")) c' := by
  refine exists_run _ _ _ (by decide +kernel) fun c a c' hc _ run rejected => ?_
  exact run_of_rejection? (hc.sound.of_chain (Request.run_steps hc.sound _ _ _ run)) rejected

end Context

end SsaGraph
