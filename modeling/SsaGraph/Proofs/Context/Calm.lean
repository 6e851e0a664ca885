import SsaGraph.Proofs.Handles
import SsaGraph.Proofs.Type.Calm

/-!
# Requests cause no faults

For each request on a sound and intact context that neither erases nor builds an instruction: if the
values it is given are alive and of the classes they are claimed to be of, and its types are in the
table, it does not end the run. A fault is a look-up that finds nothing, and each look-up finds
something for a reason of its own: a live value has its data, and its type is in the table; an
operand slot has an edge, and what the edge points to is alive; a live block or function has a list;
what has a parent is in the parent's list, and what has none can be put into any.

What a request learns in one step it may rely on in the next. An instruction that is moved is in no
block once it was taken out, and the place it goes to is still there; an instruction that has taken
one operand is still there for the second.
-/

namespace SsaGraph

open Run (Calm)

/-! ## Questions about live values -/

namespace Graph

/-- A value of a class is a value. -/
theorem Has.alive {g : Graph} {cls : Class} {v : Value} (h : g.Has cls v) : g.Has .value v := by
  obtain ⟨x, hx, -⟩ := h
  exact ⟨x, hx, rfl⟩

/-- A live value has the class of all values. -/
theorem has_of_value? {g : Graph} {v : Value} {d : ValueData} (h : g.value? v = some d) :
    g.Has .value v := ⟨_, face?_of_value? h, rfl⟩

namespace Has

variable {c : Context} {cls : Class} {v : Value} (h : c.graph.Has cls v) (hs : c.Sound)

include h hs

/-- The data of a value of a class are answered, with a kind of the class. -/
theorem valueData : ∃ d, c.valueData v = .ok d ∧ cls.contains d.kind = true := by
  obtain ⟨d, hd, hkind⟩ := has_iff.1 h
  exact ⟨d, (Context.valueData_eq_ok_iff hs).2 hd, hkind⟩

/-- The type of a value is answered. -/
theorem typeOf : ∃ ty, c.typeOf v = .ok ty := by
  obtain ⟨d, hd, -⟩ := h.valueData hs
  exact ⟨_, Question.bind_eq_ok_iff.2 ⟨d, hd, rfl⟩⟩

/-- The kind of a value of a class is answered, and is one of the class. -/
theorem kindOf : ∃ k, c.kindOf v = .ok k ∧ cls.contains k = true := by
  obtain ⟨d, hd, hkind⟩ := h.valueData hs
  exact ⟨d.kind, Question.bind_eq_ok_iff.2 ⟨d, hd, rfl⟩, hkind⟩

/-- The name of a value is answered. -/
theorem nameOf : ∃ name, c.nameOf v = .ok name := by
  obtain ⟨d, hd, -⟩ := h.valueData hs
  exact ⟨_, Question.bind_eq_ok_iff.2 ⟨d, hd, rfl⟩⟩

/-- Whether a value is a condition is answered. -/
theorem isBool : ∃ b, c.isBool v = .ok b := by
  obtain ⟨ty, hty⟩ := h.typeOf hs
  exact ⟨_, Question.bind_eq_ok_iff.2 ⟨ty, hty, rfl⟩⟩

/-- Narrowing a value to any class is answered. -/
theorem narrow? (cls' : Class) : ∃ o, c.narrow? cls' v = .ok o := by
  obtain ⟨k, hk, -⟩ := h.kindOf hs
  exact ⟨_, Question.bind_eq_ok_iff.2 ⟨_, Question.bind_eq_ok_iff.2 ⟨k, hk, rfl⟩, rfl⟩⟩

/-- What an operand slot points to is alive. -/
theorem operandAt (i : Nat) : ∃ o, c.operandAt v i = .ok o ∧ ∀ w ∈ o, c.graph.Has .value w := by
  obtain ⟨d, hd⟩ := h.value?
  simp only [Context.operandAt, Graph.operand, Question.bind_eq_ok_iff,
    Context.valueData_eq_ok_iff hs, value_eq_ok_iff]
  cases hx : d.operands[i]? with
  | none => exact ⟨none, ⟨d, hd, d, hd, by rw [hx]; rfl⟩, by simp⟩
  | some x =>
    -- A slot of a live value has an edge.
    obtain ⟨target, ht⟩ := hs.graph.owned (v := v) (i := i) (by simpa [slot?, hd] using hx)
    refine ⟨target, ⟨d, hd, d, hd, ?_⟩, fun w hw => ?_⟩
    · simp [hx, edge_eq_ok_iff.2 ht]
    · obtain ⟨_, hw⟩ := hs.graph.alive ht hw
      exact has_of_value? hw

end Has

end Graph

namespace Context

variable {c : Context}

/-- The type of a value is in the table. -/
theorem has_of_typeOf (hi : c.Intact) {v : Value} {ty : Ty} (h : c.typeOf v = .ok ty) :
    c.types.Has ty := by
  simp only [typeOf, Question.bind_eq_ok_iff] at h
  obtain ⟨d, hd, h⟩ := h
  cases h
  exact hi.types.has (Graph.face?_of_value? (valueData_eq_ok hd)) _ List.mem_cons_self

/-- The value is alive and of the class if it is one of the context; nothing is said about the
values of other contexts. -/
def Knows (c : Context) (cls : Class) (v : Value) : Prop := v.ctx = c.graph.ctx → c.graph.Has cls v

/-- Checking a known handle does not end the run. -/
theorem Knows.check_calm {cls : Class} {v : Value} (h : c.Knows cls v) :
    Question.Calm (c.check v) := by
  by_cases hv : v.ctx = c.graph.ctx
  · exact Context.check_calm (h hv)
  · rw [check, Graph.check, if_pos hv]
    exact .reject

/-- A value that passed the check is one of the context. -/
theorem Knows.of_check {cls : Class} {v : Value} {a : Unit} (h : c.Knows cls v)
    (hv : c.check v = .ok a) : c.graph.Has cls v := h (ctx_of_check hv)

/-- Checking known operands does not end the run. -/
theorem checkAll_calm {vs : List Value} (h : ∀ v ∈ vs, c.graph.Has .value v) :
    Question.Calm (c.checkAll vs) :=
  .forM fun v hv => check_calm (h v hv)

/-! ## Constants -/

/-- Asking for an integer constant does not end the run. -/
theorem constInt_calm {ty : Ty} {x : Nat} (h : c.types.Has ty) : Calm (constInt ty x) c := by
  refine .get_bind (.ask TypeTable.check_calm fun _ _ => .answered h.data fun d _ => ?_)
  split
  · exact .guard fun _ => constantHandle_avoids
  · exact .reject
  · exact .reject

/-- Asking for a truth value does not end the run. -/
theorem constBool_calm {b : Bool} : Calm (constBool b) c := .get_bind constantHandle_avoids

/-- Asking for a float constant does not end the run. -/
theorem constFloat_calm {ty : Ty} {bits : BitVec 64} (h : c.types.Has ty) :
    Calm (constFloat ty bits) c := by
  refine .get_bind (.ask TypeTable.check_calm fun _ _ => .answered h.kind fun k _ => ?_)
  split
  · exact constantHandle_avoids
  · exact constantHandle_avoids
  · exact .reject
  · exact .reject

/-- Asking for a null constant does not end the run. -/
theorem constNull_calm {ty : Ty} (h : c.types.Has ty) : Calm (constNull ty) c :=
  .get_bind (.ask TypeTable.check_calm fun _ _ => .answered h.kind fun _ _ => .guard fun _ =>
    constantHandle_avoids)

/-- Asking for an undefined value does not end the run. -/
theorem undef_calm {ty : Ty} (h : c.types.Has ty) : Calm (undef ty) c :=
  .get_bind (.ask TypeTable.check_calm fun _ _ => .answered h.kind fun _ _ => .guard fun _ =>
    constantHandle_avoids)

/-! ## Functions and names -/

/-- A type of the kind of functions has parameters. -/
theorem newFunction_calm {name : String} {ty : Ty} (h : c.types.Has ty) :
    Calm (newFunction name ty) c := by
  refine .get_bind (.ask TypeTable.check_calm fun _ _ => .answered h.kind fun k hk => ?_)
  refine .guard fun function => ?_
  split
  · exact .reject_bind
  · refine .bind (.on (TypeTable.pointerType_calm h)) fun ptr c₁ _ => ?_
    refine .answered h.data fun d hd => ?_
    -- Kind and description are both asked of the table as it was before the pointer type.
    obtain ⟨d', hd', hkind⟩ := TypeTable.kind_eq_ok_iff.1 hk
    rw [TypeTable.data_eq_ok_iff, hd'] at hd
    cases hd
    cases d with
    | function ret params varArg =>
      exact .bind (.on .modifyGet) fun _ _ _ => .bind newArguments_avoids fun _ _ _ =>
        .bind (.on .modify) fun _ _ _ => .bind .modify fun _ _ _ => .pure
    | _ =>
      rw [function] at hkind
      cases hkind

/-- Registering a name does not end the run. -/
theorem registerName_calm {f : Func} {name : Option String} {cls : Class} (hs : c.Sound)
    (hf : c.graph.Has cls f.value) : Calm (registerName f name) c := by
  unfold registerName
  split
  · exact .reject
  · refine .get_bind ?_
    split
    · split
      · exact .pure
      · exact .reject
    · exact .answered (hf.nameOf hs) fun _ _ => .set

/-- Renaming a value does not end the run. -/
theorem setName_calm {v : Value} {name : Option String} {cls : Class} (hs : c.Sound)
    (hv : c.graph.Has cls v) : Calm (setName v name) c := by
  refine .get_bind (.ask (check_calm hv) fun _ _ => .answered (hv.typeOf hs) fun ty _ => ?_)
  refine .guard fun _ => .answered (hv.narrow? hs .function) fun o ho => ?_
  obtain ⟨d, hd, rfl⟩ := narrow?_eq_ok ho
  cases Class.function.contains d.kind with
  | true => exact .bind (registerName_calm (f := ⟨v⟩) hs hv) fun _ _ _ => .on .modify
  | false => exact .on .modify

/-! ## Blocks and instructions -/

/-- Checking that a block is detached does not end the run. -/
theorem checkDetachedBlock_calm {b : Block} {cls : Class} (hb : c.graph.Has cls b.value) :
    Question.Calm (c.checkDetachedBlock b) :=
  .bind (check_calm hb) fun _ _ => .guard_last fun _ => .pure

/-- Checking that an instruction is detached does not end the run. -/
theorem checkDetached_calm {i : Instruction} {cls : Class} (hi : c.graph.Has cls i.value) :
    Question.Calm (c.checkDetached i) :=
  .bind (check_calm hi) fun _ _ => .guard_last fun _ => .pure

/-- Appending a block does not end the run. -/
theorem appendBlock_calm {f : Func} {b : Block} (hi : c.Intact)
    (hf : c.graph.Has .function f.value) (hb : c.graph.Has .block b.value) :
    Calm (appendBlock f b) c := by
  refine .get_bind (.ask (check_calm hf) fun _ _ => .ask (checkDetachedBlock_calm hb) fun _ h => ?_)
  have list := hi.layout.function.2 hf
  exact .on (.on (hi.layout.bodies.append_calm list (checkDetachedBlock_eq_ok h).2))

/-- Inserting a block does not end the run. -/
theorem insertBlock_calm {anchor b : Block} (hi : c.Intact) (ha : c.graph.Has .block anchor.value)
    (hb : c.graph.Has .block b.value) : Calm (insertBlock anchor b) c := by
  refine .get_bind (.ask (check_calm ha) fun _ _ => .ask (checkDetachedBlock_calm hb) fun _ h => ?_)
  refine .guard fun attached => ?_
  obtain ⟨f, hf⟩ := Option.isSome_iff_exists.1 attached
  exact .on (.on (hi.layout.bodies.insert_calm hf (checkDetachedBlock_eq_ok h).2))

/-- Removing a block does not end the run. -/
theorem removeBlock_calm {b : Block} (hi : c.Intact) (hb : c.graph.Has .block b.value) :
    Calm (removeBlock b) c :=
  .get_bind (.ask (check_calm hb) fun _ _ => .on (.on hi.layout.bodies.remove_calm))

end Context

namespace Layout

variable {l l' : Layout}

/-- The layout has the place. -/
def Offers (l : Layout) : InsertPoint → Prop
  | .detached => True
  | .before anchor => ∃ b, l.parentBlock? anchor = some b
  | .atEnd b => l.contents.lists.contains b = true

/-- The place is still there after an instruction was taken out, unless it is next to that one. -/
theorem Offers.remove {point : InsertPoint} {i : Instruction} {o : Option Block}
    (h : l.Offers point) (linked : l.contents.Linked) (other : point ≠ .before i)
    (run : removeInstruction i l = .ok o l') : l'.Offers point := by
  obtain ⟨n, hn, rfl⟩ := onContents_eq_ok_iff.1 run
  have sheds := Nest.remove_sheds linked hn
  cases point with
  | detached => exact trivial
  | before anchor =>
    obtain ⟨b, hb⟩ := h
    have hne : anchor ≠ i := by
      rintro rfl
      exact other rfl
    refine ⟨b, (sheds.owner? anchor).trans ?_⟩
    -- Only the removed instruction loses its block, and the anchor is another one.
    rw [if_neg (by simpa using hne)]
    exact hb
  | atEnd b =>
    have list : l.contents.lists.contains b = true := h
    exact (sheds.contains b).trans (by simpa using list)

end Layout

namespace Context

variable {c : Context}

/-- Checking a place does not end the run when what it mentions is known. -/
theorem checkPoint_calm {point : InsertPoint} (h : ∀ m ∈ point.mentions, c.Knows m.1 m.2) :
    Question.Calm (c.checkPoint point) := by
  cases point with
  | detached => exact .pure
  | before anchor =>
    have anchor := h (.instruction, anchor.value) (by simp [InsertPoint.mentions])
    exact .bind anchor.check_calm fun _ _ => .guard_last fun _ => .pure
  | atEnd b => exact (h (.block, b.value) (by simp [InsertPoint.mentions])).check_calm

/-- A live block has a list, and an instruction that passed the check has a parent. -/
theorem offers_of_checkPoint {point : InsertPoint} {a : Unit} (hi : c.Intact)
    (h : ∀ m ∈ point.mentions, c.Knows m.1 m.2) (hp : c.checkPoint point = .ok a) :
    c.layout.Offers point := by
  cases point with
  | detached => exact trivial
  | before anchor =>
    simp only [checkPoint, Question.bind_eq_ok_iff, Question.guard_last_eq_ok_iff] at hp
    obtain ⟨_, -, attached, -⟩ := hp
    exact Option.isSome_iff_exists.1 attached
  | atEnd b =>
    have known := h (.block, b.value) (by simp [InsertPoint.mentions])
    exact hi.layout.block.2 (known.of_check hp)

/-- An instruction that is in no block can be placed. -/
theorem place_calm {i : Instruction} {point : InsertPoint} (linked : c.layout.contents.Linked)
    (offers : c.layout.Offers point) (detached : c.layout.parentBlock? i = none) :
    Calm (place i point) c := by
  cases point with
  | detached => exact .pure
  | before anchor =>
    obtain ⟨b, hb⟩ := offers
    exact .on (.on (linked.insert_calm hb detached))
  | atEnd b => exact .on (.on (linked.append_calm offers detached))

/-- Taking an instruction out of the layout does not end the run. -/
theorem takeOut_calm {i : Instruction} (hi : c.Intact) :
    Calm (onLayout (Layout.removeInstruction i)) c :=
  .on (.on hi.layout.contents.remove_calm)

/-- Removing an instruction does not end the run. -/
theorem removeInstruction_calm {i : Instruction} (hi : c.Intact)
    (hv : c.graph.Has .instruction i.value) : Calm (removeInstruction i) c :=
  .get_bind (.ask (check_calm hv) fun _ _ => takeOut_calm hi)

/-- Inserting an instruction does not end the run. -/
theorem insertInstruction_calm {i anchor : Instruction} (hi : c.Intact)
    (hv : c.graph.Has .instruction i.value) (ha : c.graph.Has .instruction anchor.value) :
    Calm (insertInstruction i anchor) c := by
  have point : ∀ m ∈ (InsertPoint.before anchor).mentions, c.Knows m.1 m.2 :=
    List.forall_mem_singleton.2 fun _ => ha
  refine .get_bind (.ask (checkDetached_calm hv) fun _ h => ?_)
  refine .ask (checkPoint_calm point) fun _ hp => ?_
  exact place_calm hi.layout.contents (offers_of_checkPoint hi point hp) (checkDetached_eq_ok h).2

/-- Appending an instruction does not end the run. -/
theorem appendInstruction_calm {i : Instruction} {b : Block} (hi : c.Intact)
    (hv : c.graph.Has .instruction i.value) (hb : c.graph.Has .block b.value) :
    Calm (appendInstruction i b) c := by
  refine .get_bind (.ask (checkDetached_calm hv) fun _ h => .ask (check_calm hb) fun _ _ => ?_)
  have offers : c.layout.Offers (.atEnd b) := hi.layout.block.2 hb
  exact place_calm hi.layout.contents offers (checkDetached_eq_ok h).2

/-- Moving an instruction to a place that is not next to itself. -/
theorem move_calm {i : Instruction} {point : InsertPoint} (hi : c.Intact)
    (offers : c.layout.Offers point) (other : point ≠ .before i) :
    Calm (do discard <| onLayout (Layout.removeInstruction i); place i point) c := by
  refine .bind (.map (takeOut_calm hi)) fun _ c' run => ?_
  obtain ⟨_, run, -⟩ := Run.map_eq_ok_iff.1 run
  obtain ⟨l, hl, rfl⟩ := Run.on_eq_ok_iff.1 run
  obtain ⟨laid, detached⟩ := hi.layout.removeInstruction hl
  exact place_calm (c := { c with layout := l }) laid.contents
    (offers.remove hi.layout.contents other hl) detached

/-- Moving an instruction before another does not end the run. -/
theorem moveBefore_calm {i anchor : Instruction} (hi : c.Intact)
    (hv : c.graph.Has .instruction i.value) (ha : c.graph.Has .instruction anchor.value) :
    Calm (moveBefore i anchor) c := by
  have point : ∀ m ∈ (InsertPoint.before anchor).mentions, c.Knows m.1 m.2 :=
    List.forall_mem_singleton.2 fun _ => ha
  refine .get_bind (.ask (check_calm hv) fun _ _ => ?_)
  split
  · exact .reject_bind
  · rename_i hne
    refine .ask (checkPoint_calm point) fun _ hp => ?_
    refine move_calm hi (offers_of_checkPoint hi point hp) fun heq => ?_
    cases heq
    exact hne rfl

/-- Moving an instruction to the end of a block does not end the run. -/
theorem moveToEnd_calm {i : Instruction} {b : Block} (hi : c.Intact)
    (hv : c.graph.Has .instruction i.value) (hb : c.graph.Has .block b.value) :
    Calm (moveToEnd i b) c := by
  refine .get_bind (.ask (check_calm hv) fun _ _ => .ask (check_calm hb) fun _ _ => ?_)
  have offers : c.layout.Offers (.atEnd b) := hi.layout.block.2 hb
  exact move_calm hi offers nofun

/-! ## Operands -/

/-- Setting an operand does not end the run. -/
theorem setOperand_calm {user : Value} {index : Nat} {target : Option Value} (hs : c.Sound)
    (hu : c.graph.Has .value user) (ht : ∀ v ∈ target, c.graph.Has .value v) :
    Calm (setOperand user index target) c := by
  obtain ⟨d, hd⟩ := hu.value?
  have targets : ∀ v ∈ target.toList, c.graph.Has .value v := by simpa using ht
  refine .get_bind (.ask (check_calm hu) fun _ _ => .ask (checkAll_calm targets) fun _ _ => ?_)
  exact .on (Graph.setOperand_calm hs.graph hd fun v hv => (ht v hv).value?)

/-- Replacing all uses of a value does not end the run. -/
theorem replaceAllUses_calm {old new : Value} (hs : c.Sound) (ho : c.graph.Has .value old)
    (hn : c.graph.Has .value new) : Calm (replaceAllUses old new) c := by
  obtain ⟨d, hd⟩ := ho.value?
  obtain ⟨dn, hdn⟩ := hn.value?
  refine .get_bind (.ask (check_calm ho) fun _ _ => .ask (check_calm hn) fun _ _ => ?_)
  exact .on (Graph.replaceAllUses_calm hs.graph hd hdn)

/-- Dropping all uses of a value does not end the run. -/
theorem dropAllUses_calm {v : Value} (hs : c.Sound) (hv : c.graph.Has .value v) :
    Calm (dropAllUses v) c := by
  obtain ⟨d, hd⟩ := hv.value?
  exact .get_bind (.ask (check_calm hv) fun _ _ => .on (Graph.dropAllUses_calm hs.graph hd))

/-- Dropping the operands of a value does not end the run. -/
theorem dropAllReferences_calm {user : Value} (hs : c.Sound) (hu : c.graph.Has .value user) :
    Calm (dropAllReferences user) c := by
  obtain ⟨d, hd⟩ := hu.value?
  obtain ⟨_, run, -⟩ := Graph.dropAllReferences_run hs.graph hd
  exact .get_bind (.ask (check_calm hu) fun _ _ => .on (.of_ok run))

/-- Adding an operand does not end the run. -/
theorem pushOperand_calm {user target : Value} {a b : Class} (hg : c.graph.Coherent)
    (hu : c.graph.Has a user) (ht : c.graph.Has b target) : Calm (pushOperand user target) c := by
  obtain ⟨d, hd⟩ := hu.value?
  obtain ⟨dt, hdt⟩ := ht.value?
  refine .get_bind (.ask (check_calm hu) fun _ _ => .ask (check_calm ht) fun _ _ => ?_)
  exact .on (Graph.pushOperand_calm hg hd hdt)

/-- The first operand leaves the instruction and the second operand alive. -/
theorem pushTwice_calm {user x y : Value} {a b d : Class} (hs : c.Sound)
    (hu : c.graph.Has a user) (hx : c.graph.Has b x) (hy : c.graph.Has d y) :
    Calm (do pushOperand user x; pushOperand user y) c := by
  refine .bind (pushOperand_calm hs.graph hu hx) fun _ c₁ h => ?_
  obtain ⟨g, hg, rfl⟩ := pushOperand_ok h
  obtain ⟨coherent, -⟩ := Graph.pushOperand_ok hs.graph hg
  -- A new operand changes slots and use lists; all values stay alive and of their classes.
  have same := (Graph.still_of_chain (Graph.pushOperand_still _ _ _ _ _ hg)).resembles
  exact pushOperand_calm (c := { c with graph := g }) coherent (same.has hu) (same.has hy)

/-- The type that a switch compares in is answered. -/
theorem switchType_answered {i : Handle .switch} (hs : c.Sound)
    (h : c.graph.Has .switch i.value) : ∃ o, c.switchType i = .ok o := by
  obtain ⟨cond, hcond, alive⟩ := h.operandAt hs 0
  cases cond with
  | none => exact ⟨none, Question.bind_eq_ok_iff.2 ⟨none, hcond, rfl⟩⟩
  | some w =>
    obtain ⟨ty, hty⟩ := (alive w rfl).typeOf hs
    exact ⟨some ty, Question.bind_eq_ok_iff.2 ⟨some w, hcond,
      Question.map_eq_ok_iff.2 ⟨ty, hty, rfl⟩⟩⟩

/-- Adding a case does not end the run. -/
theorem addCase_calm {i : Handle .switch} {value : Handle .intConstant} {dest : Block}
    (hs : c.Sound) (hi : c.graph.Has .switch i.value) (hv : c.graph.Has .intConstant value.value)
    (hd : c.graph.Has .block dest.value) : Calm (addCase i value dest) c := by
  refine .get_bind (.ask (check_calm hv) fun _ _ => .ask (check_calm hd) fun _ _ => ?_)
  refine .answered (switchType_answered hs hi) fun _ _ => .answered (hv.typeOf hs) fun _ _ => ?_
  exact .guard fun _ => pushTwice_calm hs hi hv hd

/-- Adding an incoming edge does not end the run. -/
theorem addIncoming_calm {p : Handle .phi} {value : Value} {b : Block} (hs : c.Sound)
    (hp : c.graph.Has .phi p.value) (hv : c.graph.Has .value value)
    (hb : c.graph.Has .block b.value) : Calm (addIncoming p value b) c := by
  refine .get_bind (.ask (check_calm hv) fun _ _ => .ask (check_calm hb) fun _ _ => ?_)
  refine .answered (hv.typeOf hs) fun _ _ => .answered (hp.typeOf hs) fun _ _ => ?_
  exact .guard fun _ => pushTwice_calm hs hp hv hb

/-- What is done with the marks of a call finds them. -/
theorem onCall_calm {i : Handle .call} {f : Operation → Run Context Unit} (hs : c.Sound)
    (hi : c.graph.Has .call i.value)
    (hf : ∀ fnType marker conv, Calm (f (.call fnType marker conv)) c) :
    Calm (do f (← (← get).operation i.toInstruction)) c := by
  -- The class of the handle excludes the other operations, for which the request would be a fault.
  obtain ⟨k, hk, hcall⟩ := hi.kindOf hs
  obtain ⟨fnType, marker, conv, rfl⟩ := Class.kind_of_call hcall
  have hop : c.operation i.toInstruction = .ok (.call fnType marker conv) :=
    Question.bind_eq_ok_iff.2 ⟨_, hk, rfl⟩
  refine .get_bind (.answered ⟨_, hop⟩ fun op hop' => ?_)
  rw [hop] at hop'
  cases hop'
  exact hf fnType marker conv

/-- Setting the operation of an instruction does not end the run. -/
theorem setOperation_calm {i : Instruction} {op : Operation} : Calm (setOperation i op) c := by
  unfold setOperation
  exact .on .modify

/-- Setting the tail call marker does not end the run. -/
theorem setTailCall_calm {i : Handle .call} {marker : TailCall} (hs : c.Sound)
    (hi : c.graph.Has .call i.value) : Calm (setTailCall i marker) c :=
  onCall_calm hs hi fun _ _ _ => setOperation_calm

/-- Setting the calling convention does not end the run. -/
theorem setCallingConv_calm {i : Handle .call} {conv : CallingConv} (hs : c.Sound)
    (hi : c.graph.Has .call i.value) : Calm (setCallingConv i conv) c :=
  onCall_calm hs hi fun _ _ _ => setOperation_calm

end Context

end SsaGraph
