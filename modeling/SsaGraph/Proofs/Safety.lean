import SsaGraph.Proofs.Arrangement
import SsaGraph.Proofs.Build.Calm

/-!
# No request ends the run

A fault is met when something that a context keeps does not lead where it should. In the contexts
that class-checked requests lead to, everything does. So a request that is made with handles of live
values, each of its class, and of types of the context is answered or rejected, unless it erases
something. An erasure is refused by ending the run: erasing a live instruction does so exactly if
the instruction is still used.
-/

namespace SsaGraph

open Run (Calm)

/-! ## Single requests -/

namespace Request

open Context

variable {c : Context} {r : Request}

/-- A request for a type is calm if its run is. -/
theorem typed_calm {m : Run TypeTable Ty} (h : Calm m c.types) : Calm (typed m) c :=
  .bind (.on h) fun _ _ _ => .pure

/-- A request for a value is calm if its run is. -/
theorem valued_calm {cls : Class} {m : Run Context (Handle cls)} (h : Calm m c) :
    Calm (valued m) c :=
  .bind h fun _ _ _ => .pure

/-- A request without an answer is calm if its run is. -/
theorem silent_calm {m : Run Context Unit} (h : Calm m c) : Calm (silent m) c :=
  .bind h fun _ _ _ => .pure

/-- A request that answers with a parent is calm if its run is. -/
theorem parental_calm {cls : Class} {m : Run Context (Option (Handle cls))} (h : Calm m c) :
    Calm (parental m) c :=
  .bind h fun _ _ _ => .pure

/-- A factory mentions its place first, and then its operands. -/
theorem place_and_operands {site : Site} {rest : List (Class × Value)}
    (h : ∀ m ∈ site.point.mentions ++ rest, c.graph.Has m.1 m.2) :
    (∀ m ∈ site.point.mentions, c.Knows m.1 m.2) ∧ ∀ m ∈ rest, c.graph.Has m.1 m.2 := by
  obtain ⟨point, rest⟩ := List.forall_mem_append.1 h
  exact ⟨fun m hm _ => point m hm, rest⟩

/-- The requests that erase something. -/
def isErasure : Request → Bool
  | eraseInstruction _ | eraseBlock _ | eraseFunction _ | eraseValue _ => true
  | _ => false

section

variable (hs : c.Sound) (values : ∀ m ∈ r.mentions, c.graph.Has m.1 m.2)
  (types : ∀ ty ∈ r.types, c.types.Has ty)

include hs types

/-- A request for a type or a constant does not end the run if the types it is made with are there.
-/
theorem supply_calm (hr : r.isSupply = true) : Calm r.run c := by
  -- All that such a request reads of its handles are the types, which are in the table.
  cases r with
  | integerType bits => exact typed_calm (TypeTable.integerType_calm bits _)
  | functionType ret params varArg =>
    obtain ⟨hret, hparams⟩ := List.forall_mem_cons.1 types
    exact typed_calm (TypeTable.functionType_calm hret hparams)
  | pointerType pointee space => exact typed_calm (TypeTable.pointerType_calm (types _ (.head _)))
  | arrayType elem len => exact typed_calm (TypeTable.arrayType_calm (types _ (.head _)))
  | vectorType elem lanes => exact typed_calm (TypeTable.vectorType_calm (types _ (.head _)))
  | literalStruct fields packed => exact typed_calm (TypeTable.literalStruct_calm types)
  | createStruct name => exact typed_calm .modifyGet
  | createStructWithBody name fields packed =>
    exact typed_calm (TypeTable.createStructWithBody_calm types)
  | setStructBody ty fields packed =>
    obtain ⟨hty, hfields⟩ := List.forall_mem_cons.1 types
    exact silent_calm (.on (TypeTable.setStructBody_calm hty hfields))
  | setStructName ty name =>
    exact silent_calm (.on (TypeTable.setStructName_calm (types _ (.head _))))
  | deriveVector how ty =>
    exact typed_calm (TypeTable.deriveVector_calm how hs.types (types _ (.head _)))
  | constInt ty x => exact valued_calm (constInt_calm (types _ (.head _)))
  | constBool b => exact valued_calm constBool_calm
  | constFloat ty bits => exact valued_calm (constFloat_calm (types _ (.head _)))
  | constNull ty => exact valued_calm (constNull_calm (types _ (.head _)))
  | undef ty => exact valued_calm (undef_calm (types _ (.head _)))
  | _ => cases hr

include values

/-- A factory does not end the run if its place, its operands and its type are there. -/
theorem factory_calm (hi : c.Intact) (hr : r.isFactory = true) : Calm r.run c := by
  -- The mentioned values are the place and the operands, and both are of the class that is asked
  -- for.
  cases r with
  | ret site value =>
    obtain ⟨point, rest⟩ := place_and_operands values
    exact valued_calm (buildRet_calm hs hi point fun v hv => rest (.value, v) (by simpa using hv))
  | br site dest =>
    obtain ⟨point, rest⟩ := place_and_operands values
    exact valued_calm (buildBr_calm hs hi point (rest (.block, dest.value) (by simp)))
  | condBr site cond ifTrue ifFalse =>
    obtain ⟨point, rest⟩ := place_and_operands values
    exact valued_calm (buildCondBr_calm hs hi point (rest (.value, cond) (by simp))
      (rest (.block, ifTrue.value) (by simp)) (rest (.block, ifFalse.value) (by simp)))
  | switch site cond dest =>
    obtain ⟨point, rest⟩ := place_and_operands values
    exact valued_calm (buildSwitch_calm hs hi point (rest (.value, cond) (by simp))
      (rest (.block, dest.value) (by simp)))
  | unreachable site => exact valued_calm (buildUnreachable_calm hs hi fun m hm _ => values m hm)
  | binary site op lhs rhs =>
    obtain ⟨point, rest⟩ := place_and_operands values
    exact valued_calm (buildBinary_calm hs hi point (rest (.value, lhs) (by simp))
      (rest (.value, rhs) (by simp)))
  | alloca site ty size =>
    obtain ⟨point, rest⟩ := place_and_operands values
    exact valued_calm (buildAlloca_calm hs hi point (types _ (.head _))
      fun v hv => rest (.value, v) (by simpa using hv))
  | load site ptr =>
    obtain ⟨point, rest⟩ := place_and_operands values
    exact valued_calm (buildLoad_calm hs hi point (rest (.value, ptr) (by simp)))
  | store site value ptr =>
    obtain ⟨point, rest⟩ := place_and_operands values
    exact valued_calm (buildStore_calm hs hi point (rest (.value, value) (by simp))
      (rest (.value, ptr) (by simp)))
  | elementPtr site ptr indices inbounds =>
    obtain ⟨point, rest⟩ := place_and_operands values
    exact valued_calm (buildElementPtr_calm hs hi point (rest (.value, ptr) (by simp))
      fun v hv => rest (.value, v) (by simp [hv]))
  | cast site op value ty =>
    obtain ⟨point, rest⟩ := place_and_operands values
    exact valued_calm (buildCast_calm hs hi point (rest (.value, value) (by simp))
      (types _ (.head _)))
  | icmp site pred lhs rhs =>
    obtain ⟨point, rest⟩ := place_and_operands values
    exact valued_calm (buildIcmp_calm hs hi point (rest (.value, lhs) (by simp))
      (rest (.value, rhs) (by simp)))
  | fcmp site pred lhs rhs =>
    obtain ⟨point, rest⟩ := place_and_operands values
    exact valued_calm (buildFcmp_calm hs hi point (rest (.value, lhs) (by simp))
      (rest (.value, rhs) (by simp)))
  | phi site ty =>
    exact valued_calm (buildPhi_calm hs hi (fun m hm _ => values m hm) (types _ (.head _)))
  | call site callee args =>
    obtain ⟨point, rest⟩ := place_and_operands values
    exact valued_calm (buildCall_calm hs hi point (rest (.value, callee) (by simp))
      fun v hv => rest (.value, v) (by simp [hv]))
  | select site cond ifTrue ifFalse =>
    obtain ⟨point, rest⟩ := place_and_operands values
    exact valued_calm (buildSelect_calm hs hi point (rest (.value, cond) (by simp))
      (rest (.value, ifTrue) (by simp)) (rest (.value, ifFalse) (by simp)))
  | _ => cases hr

/-- A request that erases nothing does not end the run if all its handles are live. -/
theorem run_calm (hi : c.Intact) (hr : r.isErasure = false) : Calm r.run c := by
  cases hsupply : r.isSupply with
  | true => exact supply_calm hs types hsupply
  | false =>
    cases hfactory : r.isFactory with
    | true => exact factory_calm hs values types hi hfactory
    | false =>
      -- What is left changes operands or names, or arranges blocks and instructions.
      have other : (r.isFactory || r.isSupply || r.isErasure) = false := by
        rw [hfactory, hsupply, hr]; rfl
      cases r with
      | setName v name =>
        exact silent_calm (setName_calm hs (values (.value, v) (by simp [mentions])))
      | setOperand user index target =>
        exact silent_calm (setOperand_calm hs (values (.value, user) (by simp [mentions]))
          fun v hv => values (.value, v) (by simpa [mentions] using .inr hv))
      | replaceAllUses old new =>
        exact silent_calm (replaceAllUses_calm hs (values (.value, old) (by simp [mentions]))
          (values (.value, new) (by simp [mentions])))
      | dropAllUses v =>
        exact silent_calm (dropAllUses_calm hs (values (.value, v) (by simp [mentions])))
      | dropAllReferences user =>
        exact silent_calm (dropAllReferences_calm hs (values (.value, user) (by simp [mentions])))
      | addCase i value dest =>
        exact silent_calm (addCase_calm hs (values (.switch, i.value) (by simp [mentions]))
          (values (.intConstant, value.value) (by simp [mentions]))
          (values (.block, dest.value) (by simp [mentions])))
      | addIncoming i value b =>
        exact silent_calm (addIncoming_calm hs (values (.phi, i.value) (by simp [mentions]))
          (values (.value, value) (by simp [mentions]))
          (values (.block, b.value) (by simp [mentions])))
      | setTailCall i marker =>
        exact silent_calm (setTailCall_calm hs (values (.call, i.value) (by simp [mentions])))
      | setCallingConv i conv =>
        exact silent_calm (setCallingConv_calm hs (values (.call, i.value) (by simp [mentions])))
      | newFunction name ty => exact valued_calm (newFunction_calm (types _ (.head _)))
      | newBlock name => exact valued_calm newBlock_avoids
      | appendBlock f b =>
        exact silent_calm (appendBlock_calm hi (values (.function, f.value) (by simp [mentions]))
          (values (.block, b.value) (by simp [mentions])))
      | insertBlock anchor b =>
        exact silent_calm (insertBlock_calm hi (values (.block, anchor.value) (by simp [mentions]))
          (values (.block, b.value) (by simp [mentions])))
      | removeBlock b =>
        exact parental_calm (removeBlock_calm hi (values (.block, b.value) (by simp [mentions])))
      | removeInstruction i =>
        exact parental_calm
          (removeInstruction_calm hi (values (.instruction, i.value) (by simp [mentions])))
      | insertInstruction i anchor =>
        exact silent_calm
          (insertInstruction_calm hi (values (.instruction, i.value) (by simp [mentions]))
            (values (.instruction, anchor.value) (by simp [mentions])))
      | appendInstruction i b =>
        exact silent_calm
          (appendInstruction_calm hi (values (.instruction, i.value) (by simp [mentions]))
            (values (.block, b.value) (by simp [mentions])))
      | moveBefore i anchor =>
        exact silent_calm (moveBefore_calm hi (values (.instruction, i.value) (by simp [mentions]))
          (values (.instruction, anchor.value) (by simp [mentions])))
      | moveToEnd i b =>
        exact silent_calm (moveToEnd_calm hi (values (.instruction, i.value) (by simp [mentions]))
          (values (.block, b.value) (by simp [mentions])))
      | _ => cases other

end

end Request

/-! ## Histories -/

namespace Context

variable {c : Context}

/-- A live instruction that is still used is not erased, and an instruction that is not used is. -/
theorem eraseInstruction_fatal_iff {i : Instruction} (hs : c.Sound) (hi : c.Intact)
    (hv : c.graph.Has .instruction i.value) :
    (∃ f c', eraseInstruction i c = .error (.fatal f) c') ↔
      ∃ u e, c.graph.edge? u = some e ∧ e.target = some i.value := by
  obtain ⟨d, hd⟩ := hv.value?
  have firm := eraseInstruction_firm (Graph.ctx_of_value? hd)
  rw [Run.fatal_iff_of_firm firm, not_iff_comm]
  constructor
  · intro unused
    -- Without uses from outside nothing stops the erasure.
    refine Run.ok_of_avoids firm (eraseInstruction_calm hs hi hv fun u e v hu ht hmem => ?_)
    rw [List.mem_singleton.1 hmem] at ht
    exact absurd ⟨u, e, hu, ht⟩ unused
  · rintro ⟨a, c', run⟩ ⟨u, e, hu, ht⟩
    obtain ⟨d', _, _, _, hd', unused, -⟩ := eraseInstruction_eq_ok run
    exact (hs.graph.unused_iff hd').1 unused u e hu ht

/-- In every context that class-checked requests lead to, a request with live handles that erases
nothing is answered or rejected. Erasing a live instruction ends the run exactly if an operand slot
still points to it. -/
theorem ReachedBy.answered_or_rejected (hc : ClassChecked c) :
    (∀ r : Request, r.isErasure = false → r.Live c →
      (∃ a c', r.run c = .ok a c') ∨ ∃ err c', r.run c = .error (.rejected err) c') ∧
    ∀ i : Instruction, c.isa .instruction i.value = .ok true →
      ((∃ f c', eraseInstruction i c = .error (.fatal f) c') ↔
        ∃ u e, c.useData u = .ok e ∧ e.target = some i.value) := by
  have hs := hc.sound
  have hi := hc.intact
  constructor
  · intro r hr live
    have values : ∀ m ∈ r.mentions, c.graph.Has m.1 m.2 :=
      fun m hm => (isa_eq_true_iff hs).1 (live.values m hm)
    have types : ∀ ty ∈ r.types, c.types.Has ty := by
      intro ty hty
      obtain ⟨d, hd⟩ := live.types ty hty
      exact ⟨d, TypeTable.data_eq_ok_iff.1 hd⟩
    exact Run.ok_or_rejected (Request.run_calm hs values types hi hr)
  · intro i isa
    rw [eraseInstruction_fatal_iff hs hi ((isa_eq_true_iff hs).1 isa)]
    simp only [useData, Graph.edge_eq_ok_iff]

/-- For instance, when a block loads from a stack slot: another slot can be asked for before the
load, and the first one cannot be erased. -/
theorem answered_or_rejected_before_load : ∃ c : Context,
    replay [.newBlock none, .alloca { point := .atEnd ⟨⟨⟨1⟩, 0⟩⟩ } ⟨⟨1⟩, 9⟩ none,
      .load { point := .atEnd ⟨⟨⟨1⟩, 0⟩⟩ } ⟨⟨1⟩, 2⟩] (.initial ⟨1⟩) = some c ∧
    (c.isa .instruction ⟨⟨1⟩, 2⟩ = .ok true ∧ c.isa .instruction ⟨⟨1⟩, 3⟩ = .ok true ∧
      c.types.data ⟨⟨1⟩, 9⟩ = .ok (.integer 32) ∧
      c.useData ⟨1, 0⟩ = .ok ⟨⟨⟨1⟩, 3⟩, 0, some ⟨⟨1⟩, 2⟩⟩) ∧
    ((∃ a c', (Request.alloca { point := .before ⟨⟨⟨1⟩, 3⟩⟩ } ⟨⟨1⟩, 9⟩ none).run c = .ok a c') ∨
      ∃ err c', (Request.alloca { point := .before ⟨⟨⟨1⟩, 3⟩⟩ } ⟨⟨1⟩, 9⟩ none).run c =
        .error (.rejected err) c') ∧
    ∃ f c', eraseInstruction ⟨⟨⟨1⟩, 2⟩⟩ c = .error (.fatal f) c' := by
  refine exists_replay _ _ (by decide +kernel) fun c hc ⟨slot, load, int32, used⟩ => ?_
  obtain ⟨answered, erased⟩ := ReachedBy.answered_or_rejected hc
  refine ⟨answered _ rfl ⟨fun m hm => ?_, fun ty hty => ?_⟩, (erased _ slot).2 ⟨_, _, used, rfl⟩⟩
  · rw [List.mem_singleton.1 hm]
    exact load
  · rw [List.mem_singleton.1 hty]
    exact ⟨_, int32⟩

end Context

end SsaGraph
