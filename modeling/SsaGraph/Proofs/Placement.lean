import SsaGraph.Proofs.Build.Emission

/-!
# Placing is a matter of lists

The blocks of functions and the instructions of blocks are lists, and the requests that arrange them
do to these lists what their names say. There are three things to do: to put a member at the end of
a list (`Appends`), to put one immediately before another (`Inserts`), and to take one out
(`Deletes`). Each of them leaves all other lists alone and the other members in their order, which
`Relocates` says at once for all three, so that it also holds of a move.

A move takes an instruction out and puts it back. The place is looked up first, and taking the
instruction out may change the list that it is in; but an anchor other than the instruction itself
stays where it is among the others (`Layout.Offers.remove`), so the place is still there.
-/

namespace SsaGraph

/-! ## Lists -/

section Lists

variable {κ ν : Type} [DecidableEq ν] {ls ls' : κ → List ν} {k : κ} {x y : ν}

/-- A member is put at the end of a list. -/
def Appends (ls ls' : κ → List ν) (k : κ) (x : ν) : Prop :=
  ls' k = ls k ++ [x] ∧ ∀ k', k' ≠ k → ls' k' = ls k'

/-- A member is put immediately before another, in its list. -/
def Inserts (ls ls' : κ → List ν) (y x : ν) : Prop :=
  ∃ k pre post, ls k = pre ++ y :: post ∧ ls' k = pre ++ x :: y :: post ∧
    ∀ k', k' ≠ k → ls' k' = ls k'

/-- A member is taken out of its list, if it is in one. -/
def Deletes (ls ls' : κ → List ν) (x : ν) : Prop := ∀ k, ls' k = (ls k).erase x

/-- Appending leaves the order of the others. -/
theorem Appends.order (h : Appends ls ls' k x) (new : x ∉ ls k) (k' : κ) :
    (ls' k').erase x = (ls k').erase x := by
  obtain ⟨list, others⟩ := h
  by_cases hk : k' = k
  · -- Both sides are the old list: the new member stands last, and the old list does not have it.
    subst k'
    rw [list, List.erase_append_right _ new, List.erase_of_not_mem new]
    simp
  · rw [others k' hk]

/-- Inserting leaves the order of the others. -/
theorem Inserts.order (h : Inserts ls ls' y x) (new : ∀ k, x ∉ ls k) (k' : κ) :
    (ls' k').erase x = (ls k').erase x := by
  obtain ⟨k, pre, post, old, list, others⟩ := h
  by_cases hk : k' = k
  · subst k'
    -- The first occurrence is the new one, since the part before the anchor does not have it.
    have hpre : x ∉ pre := fun hx => new k (by simp [old, hx])
    rw [List.erase_of_not_mem (new k), list, old, List.erase_append_right _ hpre,
      List.erase_cons_head]
  · rw [others k' hk]

/-- Taking out leaves the order of the others. -/
theorem Deletes.order (h : Deletes ls ls' x) (nodup : ∀ k, (ls k).Nodup) (k : κ) :
    (ls' k).erase x = (ls k).erase x := by
  rw [h k]
  exact List.erase_of_not_mem (nodup k).not_mem_erase

end Lists

/-! ## Nests -/

namespace Nest

variable {κ ν : Type} [DecidableEq κ] [DecidableEq ν] {faults : NestFaults κ ν}
  {n n' n'' : Nest κ ν} {k : κ} {x : ν}

/-- One member may have another place, and the others are as they were. -/
structure Relocates (n n' : Nest κ ν) (x : ν) : Prop where
  /-- The others are in the same lists, in the same order. -/
  order : ∀ k, (n'.members k).erase x = (n.members k).erase x
  /-- The others have the same owners. -/
  owner? : ∀ y, y ≠ x → n'.owner? y = n.owner? y

/-- Nothing is relocated while nothing happens. -/
theorem Relocates.refl (n : Nest κ ν) (x : ν) : n.Relocates n x := ⟨fun _ => rfl, fun _ _ => rfl⟩

/-- Relocating a member twice relocates it. -/
theorem Relocates.trans (h : n.Relocates n' x) (h' : n'.Relocates n'' x) : n.Relocates n'' x :=
  ⟨fun k => (h'.order k).trans (h.order k), fun y hy => (h'.owner? y hy).trans (h.owner? y hy)⟩

/-- Appending in a nest appends to the list. -/
theorem append_appends {a : Unit} (run : append faults k x n = .ok a n') :
    Appends n.members n'.members k x := by
  obtain ⟨xs, hxs, -, rfl⟩ := append_eq_ok_iff.1 run
  refine ⟨?_, fun k' hk => ?_⟩
  · rw [members_enter, if_pos rfl, members_of_lists hxs]
  · rw [members_enter, if_neg hk]

/-- A member that is in no list is not taken out of one. -/
theorem remove_detached {o : Option κ} (detached : n.owner? x = none)
    (run : remove faults x n = .ok o n') : n' = n := by
  obtain ⟨ho, run⟩ := remove_eq_ok_iff.1 run
  rw [detached] at ho
  subst o
  exact run

namespace Linked

/-- Appending a detached member relocates it only. -/
theorem append_relocates {a : Unit} (h : n.Linked) (detached : n.owner? x = none)
    (run : Nest.append faults k x n = .ok a n') : n.Relocates n' x := by
  refine ⟨(append_appends run).order (h.not_mem detached k), fun y hy => ?_⟩
  obtain ⟨xs, -, -, rfl⟩ := append_eq_ok_iff.1 run
  rw [owner?_enter, if_neg hy]

/-- Inserting in a nest inserts in the list of the anchor. -/
theorem insert_inserts {anchor : ν} {a : Unit} (h : n.Linked)
    (run : Nest.insert faults anchor x n = .ok a n') : Inserts n.members n'.members anchor x := by
  obtain ⟨k, xs, hk, hxs, -, rfl⟩ := insert_eq_ok_iff.1 run
  obtain rfl := members_of_lists hxs
  obtain ⟨pre, post, list⟩ := List.append_of_mem (h.owner.1 hk)
  have nodup := h.nodup k
  rw [list] at nodup
  -- The anchor occurs once, so the first occurrence the insertion looks for is this one.
  have first : anchor ∉ pre := by
    intro hmem
    exact List.disjoint_of_nodup_append nodup hmem List.mem_cons_self
  refine ⟨k, pre, post, list, ?_, fun k' hk' => ?_⟩
  · rw [members_enter, if_pos rfl, list, insertBefore_append_cons first]
  · rw [members_enter, if_neg hk']

/-- Inserting a detached member relocates it only. -/
theorem insert_relocates {anchor : ν} {a : Unit} (h : n.Linked) (detached : n.owner? x = none)
    (run : Nest.insert faults anchor x n = .ok a n') : n.Relocates n' x := by
  refine ⟨(h.insert_inserts run).order (h.not_mem detached), fun y hy => ?_⟩
  obtain ⟨k, xs, -, -, -, rfl⟩ := insert_eq_ok_iff.1 run
  rw [owner?_enter, if_neg hy]

/-- Removing from a nest takes the member out. -/
theorem remove_deletes {o : Option κ} (h : n.Linked) (run : Nest.remove faults x n = .ok o n') :
    Deletes n.members n'.members x := by
  intro k
  rw [(remove_sheds h run).members, (h.nodup k).erase_eq_filter]
  refine List.filter_congr fun y _ => ?_
  simp [bne, beq_eq_decide]

/-- Removing a member relocates it only. -/
theorem remove_relocates {o : Option κ} (h : n.Linked) (run : Nest.remove faults x n = .ok o n') :
    n.Relocates n' x := by
  refine ⟨(h.remove_deletes run).order h.nodup, fun y hy => ?_⟩
  rw [(remove_sheds h run).owner?, if_neg (by simpa using hy)]

end Linked

end Nest

/-! ## Instructions -/

/-- What a place for an instruction means for the lists. -/
def InsertPoint.Puts (ls ls' : Block → List Instruction) (i : Instruction) : InsertPoint → Prop
  | detached => ls' = ls
  | before anchor => Inserts ls ls' anchor i
  | atEnd b => Appends ls ls' b i

/-- A request with a place for an instruction is a factory. -/
theorem Request.isFactory_of_site? {r : Request} {site : Site} (h : r.site? = some site) :
    r.isFactory = true := by
  cases r <;> first | rfl | cases h

namespace Context

variable {c c' c'' : Context} {i anchor : Instruction} {b : Block}

/-- Only the place of one instruction changes. -/
structure Relocates (c c' : Context) (i : Instruction) : Prop where
  /-- Nothing but the layout changes: values, operands and uses, types, constants and names stay. -/
  rest : c' = { c with layout := c'.layout }
  /-- The blocks of functions stay. -/
  bodies : c'.layout.bodies = c.layout.bodies
  /-- The other instructions stay. -/
  contents : c.layout.contents.Relocates c'.layout.contents i

/-- Relocating an instruction twice relocates it. -/
theorem Relocates.trans (h : c.Relocates c' i) (h' : c'.Relocates c'' i) : c.Relocates c'' i := by
  refine ⟨?_, h'.bodies.trans h.bodies, h.contents.trans h'.contents⟩
  rw [h'.rest, h.rest]

/-- Relocating an instruction keeps the graph. -/
theorem Relocates.graph (h : c.Relocates c' i) : c'.graph = c.graph := by
  rw [h.rest]

/-- An instruction that is in no block is put at a place. -/
theorem place_puts {point : InsertPoint} {a : Unit} (linked : c.layout.contents.Linked)
    (detached : c.layout.parentBlock? i = none) (run : place i point c = .ok a c') :
    c.Relocates c' i ∧ point.Puts c.layout.instructions c'.layout.instructions i := by
  -- The place says which list operation is made; the detached place makes none.
  cases point with
  | detached =>
    cases run
    exact ⟨⟨rfl, rfl, .refl ..⟩, rfl⟩
  | before anchor =>
    have run : onLayout (Layout.insertInstruction anchor i) c = .ok a c' := run
    obtain ⟨l, hl, rfl⟩ := Run.on_eq_ok_iff.1 run
    obtain ⟨n, hn, rfl⟩ := Layout.onContents_eq_ok_iff.1 hl
    exact ⟨⟨rfl, rfl, linked.insert_relocates detached hn⟩, linked.insert_inserts hn⟩
  | atEnd b =>
    have run : onLayout (Layout.appendInstruction b i) c = .ok a c' := run
    obtain ⟨l, hl, rfl⟩ := Run.on_eq_ok_iff.1 run
    obtain ⟨n, hn, rfl⟩ := Layout.onContents_eq_ok_iff.1 hl
    exact ⟨⟨rfl, rfl, linked.append_relocates detached hn⟩, Nest.append_appends hn⟩

/-- It can be put at every place that is there. -/
theorem place_answered {point : InsertPoint} (linked : c.layout.contents.Linked)
    (offers : c.layout.Offers point) (detached : c.layout.parentBlock? i = none) :
    ∃ c', place i point c = .ok () c' ∧ c.Relocates c' i ∧
      point.Puts c.layout.instructions c'.layout.instructions i := by
  obtain ⟨_, c', run⟩ := Run.ok_of_avoids place_firm (place_calm linked offers detached)
  exact ⟨c', run, place_puts linked detached run⟩

/-- An instruction is taken out of its block, and every place but the one before it is still there.
-/
theorem takeOut_deletes (linked : c.layout.contents.Linked) (i : Instruction) :
    ∃ c', onLayout (Layout.removeInstruction i) c = .ok (c.layout.parentBlock? i) c' ∧
      c.Relocates c' i ∧ Deletes c.layout.instructions c'.layout.instructions i ∧
      (c.layout.parentBlock? i = none → c' = c) ∧ c'.layout.contents.Linked ∧
      c'.layout.parentBlock? i = none ∧
      ∀ point, point ≠ .before i → c.layout.Offers point → c'.layout.Offers point := by
  obtain ⟨o, c', run⟩ := Run.ok_of_avoids takeOut_firm (.on (.on linked.remove_calm))
  obtain ⟨l, hl, rfl⟩ := Run.on_eq_ok_iff.1 run
  obtain ⟨n, hn, rfl⟩ := Layout.onContents_eq_ok_iff.1 hl
  obtain ⟨linked', detached⟩ := linked.remove hn
  -- The answer of the removal is the block that the instruction was in.
  obtain rfl : c.layout.parentBlock? i = o := (Nest.remove_eq_ok_iff.1 hn).1
  refine ⟨_, run, ⟨rfl, rfl, linked.remove_relocates hn⟩, linked.remove_deletes hn, fun none => ?_,
    linked', detached, fun point other offers => offers.remove linked other hl⟩
  rw [Nest.remove_detached none hn]

/-! ### Requests -/

/-- A live instruction passes the check exactly when it is in no block. -/
theorem checkDetached_eq (hv : i.value ∈ c.graph.live) :
    c.checkDetached i =
      if c.layout.parentBlock? i = none then .ok ()
      else .error (.rejected (.instructionAttached i)) := by
  rw [checkDetached, check_of_live hv]
  cases c.layout.parentBlock? i <;> rfl

/-- The place before a live instruction is accepted exactly when this one is in a block. -/
theorem checkPoint_before_eq (ha : anchor.value ∈ c.graph.live) :
    c.checkPoint (.before anchor) =
      if c.layout.parentBlock? anchor = none then .error (.rejected (.anchorDetached anchor))
      else .ok () := by
  rw [checkPoint, check_of_live ha]
  cases c.layout.parentBlock? anchor <;> rfl

/-- The request takes the instruction out and answers with its block. -/
theorem run_removeInstruction (hv : i.value ∈ c.graph.live)
    (taken : onLayout (Layout.removeInstruction i) c = .ok (c.layout.parentBlock? i) c') :
    (Request.removeInstruction i).run c =
      .ok (.parent ((c.layout.parentBlock? i).map (·.value))) c' := by
  -- The handle passes its check, and the rest of the request is the removal.
  simp only [Request.run, Request.parental, removeInstruction, Run.bind_apply, Run.get_apply,
    Run.question_apply, check_of_live hv, taken, Run.pure_apply]

/-- The request appends a detached instruction. -/
theorem run_appendInstruction (hv : i.value ∈ c.graph.live) (hb : b.value ∈ c.graph.live)
    (detached : c.layout.parentBlock? i = none) (placed : place i (.atEnd b) c = .ok () c') :
    (Request.appendInstruction i b).run c = .ok .unit c' := by
  -- Three checks come before the change: both handles are known and the instruction is detached.
  simp only [Request.run, Request.silent, appendInstruction, Run.bind_apply, Run.get_apply,
    Run.question_apply, checkDetached_eq hv, if_pos detached, check_of_live hb, placed,
    Run.pure_apply]

/-- The request is rejected if the instruction is in a block. -/
theorem run_appendInstruction_attached (hv : i.value ∈ c.graph.live)
    (attached : c.layout.parentBlock? i ≠ none) :
    (Request.appendInstruction i b).run c = .error (.rejected (.instructionAttached i)) c := by
  simp only [Request.run, Request.silent, appendInstruction, Run.bind_apply, Run.get_apply,
    Run.question_apply, checkDetached_eq hv, if_neg attached]

/-- The request inserts a detached instruction before one that is in a block. -/
theorem run_insertInstruction (hv : i.value ∈ c.graph.live) (ha : anchor.value ∈ c.graph.live)
    (detached : c.layout.parentBlock? i = none) (attached : c.layout.parentBlock? anchor ≠ none)
    (placed : place i (.before anchor) c = .ok () c') :
    (Request.insertInstruction i anchor).run c = .ok .unit c' := by
  -- The instruction is checked before the anchor, so the two rejections below do not overlap.
  simp only [Request.run, Request.silent, insertInstruction, Run.bind_apply, Run.get_apply,
    Run.question_apply, checkDetached_eq hv, if_pos detached, checkPoint_before_eq ha,
    if_neg attached, placed, Run.pure_apply]

/-- The request is rejected if the instruction is in a block. -/
theorem run_insertInstruction_attached (hv : i.value ∈ c.graph.live)
    (attached : c.layout.parentBlock? i ≠ none) :
    (Request.insertInstruction i anchor).run c = .error (.rejected (.instructionAttached i)) c := by
  simp only [Request.run, Request.silent, insertInstruction, Run.bind_apply, Run.get_apply,
    Run.question_apply, checkDetached_eq hv, if_neg attached]

/-- The request is rejected if the anchor is in no block. -/
theorem run_insertInstruction_nowhere (hv : i.value ∈ c.graph.live)
    (ha : anchor.value ∈ c.graph.live) (detached : c.layout.parentBlock? i = none)
    (nowhere : c.layout.parentBlock? anchor = none) :
    (Request.insertInstruction i anchor).run c = .error (.rejected (.anchorDetached anchor)) c := by
  simp only [Request.run, Request.silent, insertInstruction, Run.bind_apply, Run.get_apply,
    Run.question_apply, checkDetached_eq hv, if_pos detached, checkPoint_before_eq ha,
    if_pos nowhere]

/-! ### Moves -/

/-- An instruction is taken out and put at a place that is not next to itself. -/
theorem move_answered {point : InsertPoint} (linked : c.layout.contents.Linked)
    (offers : c.layout.Offers point) (other : point ≠ .before i) :
    ∃ c₁ c', onLayout (Layout.removeInstruction i) c = .ok (c.layout.parentBlock? i) c₁ ∧
      place i point c₁ = .ok () c' ∧ c₁.graph = c.graph ∧ c₁.layout.parentBlock? i = none ∧
      c₁.layout.Offers point ∧ c.Relocates c' i ∧
      Deletes c.layout.instructions c₁.layout.instructions i ∧
      point.Puts c₁.layout.instructions c'.layout.instructions i := by
  -- Taking the instruction out does not take the place away, so the second step finds it.
  obtain ⟨c₁, taken, first, deletes, -, linked', detached, still⟩ := takeOut_deletes linked i
  have offers' := still point other offers
  obtain ⟨c', placed, second, puts⟩ := place_answered linked' offers' detached
  exact ⟨c₁, c', taken, placed, first.graph, detached, offers', first.trans second, deletes, puts⟩

/-- A move in two steps. -/
theorem takeOut_place {point : InsertPoint} {o : Option Block}
    (taken : onLayout (Layout.removeInstruction i) c = .ok o c')
    (placed : place i point c' = .ok () c'') :
    (do discard <| onLayout (Layout.removeInstruction i); place i point : Run Context Unit) c =
      .ok () c'' :=
  Run.bind_eq_ok_iff.2 ⟨(), c', Run.map_eq_ok_iff.2 ⟨o, taken, rfl⟩, placed⟩

/-- The request takes the instruction out and puts it before the anchor. -/
theorem run_moveBefore (hv : i.value ∈ c.graph.live) (ha : anchor.value ∈ c.graph.live)
    (hne : i ≠ anchor) (attached : c.layout.parentBlock? anchor ≠ none) {o : Option Block}
    (taken : onLayout (Layout.removeInstruction i) c = .ok o c')
    (placed : place i (.before anchor) c' = .ok () c'') :
    (Request.moveBefore i anchor).run c = .ok .unit c'' := by
  -- All checks are made on the old layout; then come the two changes, with no check in between.
  have moved := takeOut_place taken placed
  simp only [Request.run, Request.silent, moveBefore, Run.bind_apply, Run.get_apply,
    Run.question_apply, check_of_live hv, if_neg hne, checkPoint_before_eq ha, if_neg attached]
    at moved ⊢
  rw [moved]
  rfl

/-- An instruction is not moved before itself. -/
theorem run_moveBefore_itself (hv : i.value ∈ c.graph.live) :
    (Request.moveBefore i i).run c = .error (.rejected .moveBeforeItself) c := by
  simp only [Request.run, Request.silent, moveBefore, Run.bind_apply, Run.get_apply,
    Run.question_apply, check_of_live hv, if_true, Run.reject_apply]

/-- The request is rejected if the anchor is in no block. -/
theorem run_moveBefore_nowhere (hv : i.value ∈ c.graph.live) (ha : anchor.value ∈ c.graph.live)
    (hne : i ≠ anchor) (nowhere : c.layout.parentBlock? anchor = none) :
    (Request.moveBefore i anchor).run c = .error (.rejected (.anchorDetached anchor)) c := by
  simp only [Request.run, Request.silent, moveBefore, Run.bind_apply, Run.get_apply,
    Run.question_apply, check_of_live hv, if_neg hne, checkPoint_before_eq ha, if_pos nowhere]

/-- The request takes the instruction out and puts it at the end of the block. -/
theorem run_moveToEnd (hv : i.value ∈ c.graph.live) (hb : b.value ∈ c.graph.live)
    {o : Option Block} (taken : onLayout (Layout.removeInstruction i) c = .ok o c')
    (placed : place i (.atEnd b) c' = .ok () c'') :
    (Request.moveToEnd i b).run c = .ok .unit c'' := by
  have moved := takeOut_place taken placed
  simp only [Request.run, Request.silent, moveToEnd, Run.bind_apply, Run.get_apply,
    Run.question_apply, check_of_live hv, check_of_live hb] at moved ⊢
  rw [moved]
  rfl

/-! ## Blocks -/

variable {f : Func} {before : Block}

/-- Only the place of one block changes. -/
structure RelocatesBlock (c c' : Context) (b : Block) : Prop where
  /-- Nothing but the layout changes. -/
  rest : c' = { c with layout := c'.layout }
  /-- The instructions of blocks stay, those of the block itself included. -/
  contents : c'.layout.contents = c.layout.contents
  /-- The other blocks stay. -/
  bodies : c.layout.bodies.Relocates c'.layout.bodies b

/-- A live block passes the check exactly when it is in no function. -/
theorem checkDetachedBlock_eq (hb : b.value ∈ c.graph.live) :
    c.checkDetachedBlock b =
      if c.layout.parentFunction? b = none then .ok () else .error (.rejected (.blockAttached b)) := by
  rw [checkDetachedBlock, check_of_live hb]
  cases c.layout.parentFunction? b <;> rfl

/-- What is done to the lists of blocks leaves everything else as it is. -/
theorem onBodies_answered {α : Type} (m : Run (Nest Func Block) α)
    (firm : Run.Firm m c.layout.bodies) (calm : Run.Calm m c.layout.bodies) :
    ∃ a n, m c.layout.bodies = .ok a n ∧ onLayout (Layout.onBodies m) c =
      .ok a { c with layout := { c.layout with bodies := n } } := by
  obtain ⟨a, n, hn⟩ := Run.ok_of_avoids firm calm
  exact ⟨a, n, hn, Run.on_eq_ok_iff.2 ⟨_, Layout.onBodies_eq_ok_iff.2 ⟨n, hn, rfl⟩, rfl⟩⟩

/-- The request appends a detached block to a function. -/
theorem run_appendBlock (linked : c.layout.bodies.Linked)
    (list : c.layout.bodies.lists.contains f = true) (hf : f.value ∈ c.graph.live)
    (hb : b.value ∈ c.graph.live) (detached : c.layout.parentFunction? b = none) :
    ∃ c', (Request.appendBlock f b).run c = .ok .unit c' ∧ c.RelocatesBlock c' b ∧
      Appends c.layout.blocks c'.layout.blocks f b := by
  obtain ⟨_, n, hn, run⟩ := onBodies_answered (Nest.append Layout.bodyFaults f b)
    (Nest.append_firm _) (linked.append_calm list detached)
  refine ⟨{ c with layout := { c.layout with bodies := n } }, ?_,
    ⟨rfl, rfl, linked.append_relocates detached hn⟩, Nest.append_appends hn⟩
  -- The checks pass, and what is left is the operation on the lists of blocks.
  simp only [Request.run, Request.silent, appendBlock, Layout.appendBlock, Run.bind_apply,
    Run.get_apply, Run.question_apply, check_of_live hf, checkDetachedBlock_eq hb, if_pos detached,
    run, Run.pure_apply]

/-- The request is rejected if the block is in a function. -/
theorem run_appendBlock_attached (hf : f.value ∈ c.graph.live) (hb : b.value ∈ c.graph.live)
    (attached : c.layout.parentFunction? b ≠ none) :
    (Request.appendBlock f b).run c = .error (.rejected (.blockAttached b)) c := by
  simp only [Request.run, Request.silent, appendBlock, Run.bind_apply, Run.get_apply,
    Run.question_apply, check_of_live hf, checkDetachedBlock_eq hb, if_neg attached]

/-- The request inserts a detached block before one that is in a function. -/
theorem run_insertBlock (linked : c.layout.bodies.Linked) (ha : before.value ∈ c.graph.live)
    (hb : b.value ∈ c.graph.live) (detached : c.layout.parentFunction? b = none)
    (attached : c.layout.parentFunction? before = some f) :
    ∃ c', (Request.insertBlock before b).run c = .ok .unit c' ∧ c.RelocatesBlock c' b ∧
      Inserts c.layout.blocks c'.layout.blocks before b := by
  obtain ⟨_, n, hn, run⟩ := onBodies_answered (Nest.insert Layout.bodyFaults before b)
    (Nest.insert_firm _) (linked.insert_calm attached detached)
  refine ⟨{ c with layout := { c.layout with bodies := n } }, ?_,
    ⟨rfl, rfl, linked.insert_relocates detached hn⟩, linked.insert_inserts hn⟩
  simp only [Request.run, Request.silent, insertBlock, Layout.insertBlock, Run.bind_apply,
    Run.get_apply, Run.question_apply, check_of_live ha, checkDetachedBlock_eq hb, if_pos detached,
    attached, Option.isSome_some, if_true, run, Run.pure_apply]

/-- The request is rejected if the block is in a function. -/
theorem run_insertBlock_attached (ha : before.value ∈ c.graph.live) (hb : b.value ∈ c.graph.live)
    (attached : c.layout.parentFunction? b ≠ none) :
    (Request.insertBlock before b).run c = .error (.rejected (.blockAttached b)) c := by
  simp only [Request.run, Request.silent, insertBlock, Run.bind_apply, Run.get_apply,
    Run.question_apply, check_of_live ha, checkDetachedBlock_eq hb, if_neg attached]

/-- The request is rejected if the other block is in no function. -/
theorem run_insertBlock_nowhere (ha : before.value ∈ c.graph.live) (hb : b.value ∈ c.graph.live)
    (detached : c.layout.parentFunction? b = none)
    (nowhere : c.layout.parentFunction? before = none) :
    (Request.insertBlock before b).run c = .error (.rejected (.blockDetached before)) c := by
  simp only [Request.run, Request.silent, insertBlock, Run.bind_apply, Run.get_apply,
    Run.question_apply, check_of_live ha, checkDetachedBlock_eq hb, if_pos detached, nowhere,
    Option.isSome_none, Bool.false_eq_true, if_false, Run.reject_apply]

/-- The request takes the block out and answers with its function. -/
theorem run_removeBlock (linked : c.layout.bodies.Linked) (hb : b.value ∈ c.graph.live) :
    ∃ c', (Request.removeBlock b).run c =
        .ok (.parent ((c.layout.parentFunction? b).map (·.value))) c' ∧
      c.RelocatesBlock c' b ∧ Deletes c.layout.blocks c'.layout.blocks b ∧
      (c.layout.parentFunction? b = none → c' = c) := by
  obtain ⟨o, n, hn, run⟩ := onBodies_answered (Nest.remove Layout.bodyFaults b)
    (Nest.remove_firm _) linked.remove_calm
  -- The answer of the removal is the function that the block was in.
  obtain rfl : c.layout.parentFunction? b = o := (Nest.remove_eq_ok_iff.1 hn).1
  refine ⟨{ c with layout := { c.layout with bodies := n } }, ?_,
    ⟨rfl, rfl, linked.remove_relocates hn⟩, linked.remove_deletes hn, fun none => ?_⟩
  · simp only [Request.run, Request.parental, removeBlock, Layout.removeBlock, Run.bind_apply,
      Run.get_apply, Run.question_apply, check_of_live hb, run, Run.pure_apply]
  · rw [Nest.remove_detached none hn]

/-! ## Factories -/

/-- Making types and constants available leaves the layout alone. -/
theorem supplies_layout (h : Relation.ReflTransGen Supply c c') : c'.layout = c.layout := by
  induction h with
  | refl => rfl
  | tail _ step ih => cases step <;> exact ih

/-- A factory puts the instruction that it answers with at the place it was given. -/
theorem run_factory_puts (hs : c.Sound) (ht : c.Tidy) {r : Request} {site : Site} {a : Answer}
    (hr : r.site? = some site) (run : r.run c = .ok a c') :
    ∃ v, a = .value v ∧ c.layout.parentBlock? ⟨v⟩ = none ∧
      c'.layout.bodies = c.layout.bodies ∧
      c.layout.contents.Relocates c'.layout.contents ⟨v⟩ ∧
      site.point.Puts c.layout.instructions c'.layout.instructions ⟨v⟩ := by
  have hf := Request.isFactory_of_site? hr
  -- What the factory supplies before does not touch the layout, so the place is still as it was.
  obtain ⟨i, site', c₁, ty, op, operands, rfl, hsite, supplies, -, -, emitted⟩ :=
    Request.run_emits hs hf run
  obtain rfl : site' = site := Option.some.inj (hsite.symm.trans hr)
  have chain := Request.chain_of_supplies supplies
  obtain ⟨graph, _, built, rfl, placed⟩ := emit_ok emitted
  obtain ⟨-, -, hi, -⟩ := Graph.newUser_ok (hs.supplies chain).graph built
  -- The instruction has just been created, so no list has it.
  have detached : c₁.layout.parentBlock? ⟨i.value⟩ = none :=
    (ht.supplies chain).parentBlock?_eq_none (Nat.le_of_eq (by rw [hi]))
  obtain ⟨relocates, puts⟩ := place_puts (c := { c₁ with graph }) (ht.supplies chain).contents
    detached placed
  have same := supplies_layout chain
  refine ⟨i.value, rfl, same ▸ detached, ?_, ?_, ?_⟩
  · rw [relocates.bodies, ← same]
  · rw [← same]
    exact relocates.contents
  · rw [← same]
    exact puts

/-! ## All requests -/

/-- The requests that place blocks and instructions do to the lists what their names say, or are
rejected and change nothing. -/
structure PlacesExactly (c : Context) : Prop where
  /-- An instruction is taken out of its block, which is the answer. -/
  removeInstruction : ∀ {i : Instruction}, (Request.removeInstruction i).Live c →
    ∃ c', (Request.removeInstruction i).run c =
        .ok (.parent ((c.layout.parentBlock? i).map (·.value))) c' ∧
      c.Relocates c' i ∧ Deletes c.layout.instructions c'.layout.instructions i ∧
      (c.layout.parentBlock? i = none → c' = c)
  /-- An instruction that is in no block is put at the end of one. -/
  appendInstruction : ∀ {i : Instruction} {b : Block}, (Request.appendInstruction i b).Live c →
    (c.layout.parentBlock? i = none →
      ∃ c', (Request.appendInstruction i b).run c = .ok .unit c' ∧ c.Relocates c' i ∧
        Appends c.layout.instructions c'.layout.instructions b i) ∧
    (c.layout.parentBlock? i ≠ none →
      (Request.appendInstruction i b).run c = .error (.rejected (.instructionAttached i)) c)
  /-- An instruction that is in no block is put immediately before one that is. -/
  insertInstruction : ∀ {i anchor : Instruction}, (Request.insertInstruction i anchor).Live c →
    (c.layout.parentBlock? i = none → c.layout.parentBlock? anchor ≠ none →
      ∃ c', (Request.insertInstruction i anchor).run c = .ok .unit c' ∧ c.Relocates c' i ∧
        Inserts c.layout.instructions c'.layout.instructions anchor i) ∧
    (c.layout.parentBlock? i ≠ none →
      (Request.insertInstruction i anchor).run c =
        .error (.rejected (.instructionAttached i)) c) ∧
    (c.layout.parentBlock? i = none → c.layout.parentBlock? anchor = none →
      (Request.insertInstruction i anchor).run c = .error (.rejected (.anchorDetached anchor)) c)
  /-- An instruction is moved before another one that is in a block, which is the same as to take it
  out, wherever it is, and to insert it there. -/
  moveBefore : ∀ {i anchor : Instruction}, (Request.moveBefore i anchor).Live c →
    (i ≠ anchor → c.layout.parentBlock? anchor ≠ none →
      ∃ a c₁ c', (Request.removeInstruction i).run c = .ok a c₁ ∧
        (Request.insertInstruction i anchor).run c₁ = .ok .unit c' ∧
        (Request.moveBefore i anchor).run c = .ok .unit c' ∧ c.Relocates c' i ∧
        Deletes c.layout.instructions c₁.layout.instructions i ∧
        Inserts c₁.layout.instructions c'.layout.instructions anchor i) ∧
    (i = anchor → (Request.moveBefore i anchor).run c = .error (.rejected .moveBeforeItself) c) ∧
    (i ≠ anchor → c.layout.parentBlock? anchor = none →
      (Request.moveBefore i anchor).run c = .error (.rejected (.anchorDetached anchor)) c)
  /-- An instruction is moved to the end of a block, which is the same as to take it out, wherever it
  is, and to append it there. -/
  moveToEnd : ∀ {i : Instruction} {b : Block}, (Request.moveToEnd i b).Live c →
    ∃ a c₁ c', (Request.removeInstruction i).run c = .ok a c₁ ∧
      (Request.appendInstruction i b).run c₁ = .ok .unit c' ∧
      (Request.moveToEnd i b).run c = .ok .unit c' ∧ c.Relocates c' i ∧
      Deletes c.layout.instructions c₁.layout.instructions i ∧
      Appends c₁.layout.instructions c'.layout.instructions b i
  /-- A block is taken out of its function, which is the answer. -/
  removeBlock : ∀ {b : Block}, (Request.removeBlock b).Live c →
    ∃ c', (Request.removeBlock b).run c =
        .ok (.parent ((c.layout.parentFunction? b).map (·.value))) c' ∧
      c.RelocatesBlock c' b ∧ Deletes c.layout.blocks c'.layout.blocks b ∧
      (c.layout.parentFunction? b = none → c' = c)
  /-- A block that is in no function is put at the end of one. -/
  appendBlock : ∀ {f : Func} {b : Block}, (Request.appendBlock f b).Live c →
    (c.layout.parentFunction? b = none →
      ∃ c', (Request.appendBlock f b).run c = .ok .unit c' ∧ c.RelocatesBlock c' b ∧
        Appends c.layout.blocks c'.layout.blocks f b) ∧
    (c.layout.parentFunction? b ≠ none →
      (Request.appendBlock f b).run c = .error (.rejected (.blockAttached b)) c)
  /-- A block that is in no function is put immediately before one that is. -/
  insertBlock : ∀ {anchor b : Block}, (Request.insertBlock anchor b).Live c →
    (c.layout.parentFunction? b = none → c.layout.parentFunction? anchor ≠ none →
      ∃ c', (Request.insertBlock anchor b).run c = .ok .unit c' ∧ c.RelocatesBlock c' b ∧
        Inserts c.layout.blocks c'.layout.blocks anchor b) ∧
    (c.layout.parentFunction? b ≠ none →
      (Request.insertBlock anchor b).run c = .error (.rejected (.blockAttached b)) c) ∧
    (c.layout.parentFunction? b = none → c.layout.parentFunction? anchor = none →
      (Request.insertBlock anchor b).run c = .error (.rejected (.blockDetached anchor)) c)
  /-- An instruction that is built, and was nowhere before, is put at the place that was given. -/
  build : ∀ {r : Request} {site : Site} {a : Answer} {c' : Context}, r.site? = some site →
    r.run c = .ok a c' → ∃ v, a = .value v ∧ c.layout.parentBlock? ⟨v⟩ = none ∧
      c'.layout.bodies = c.layout.bodies ∧
      c.layout.contents.Relocates c'.layout.contents ⟨v⟩ ∧
      site.point.Puts c.layout.instructions c'.layout.instructions ⟨v⟩

/-- A value of a class is alive. -/
theorem live_of_isa (hs : c.Sound) {cls : Class} {v : Value} (h : c.isa cls v = .ok true) :
    v ∈ c.graph.live :=
  Graph.mem_live.2 ((isa_eq_true_iff hs).1 h).value?

/-- In every context that class-checked requests lead to, the requests that place blocks and
instructions are operations on lists. -/
theorem ReachedBy.places_exactly (hc : ClassChecked c) : c.PlacesExactly := by
  have hs := hc.sound
  have laid := hc.intact.layout
  -- Each clause asks for live handles, runs the checks on them, and reads the effect off the nest.
  have linked := laid.contents
  constructor
  case removeInstruction =>
    intro i live
    have hv := live_of_isa hs (live.values (.instruction, i.value) (by simp [Request.mentions]))
    obtain ⟨c', taken, relocates, deletes, same, -⟩ := takeOut_deletes linked i
    exact ⟨c', run_removeInstruction hv taken, relocates, deletes, same⟩
  case appendInstruction =>
    intro i b live
    have hv := live_of_isa hs (live.values (.instruction, i.value) (by simp [Request.mentions]))
    have hb := live.values (.block, b.value) (by simp [Request.mentions])
    have offers : c.layout.Offers (.atEnd b) := laid.block.2 ((isa_eq_true_iff hs).1 hb)
    refine ⟨fun detached => ?_, run_appendInstruction_attached hv⟩
    obtain ⟨c', placed, relocates, puts⟩ := place_answered linked offers detached
    exact ⟨c', run_appendInstruction hv (live_of_isa hs hb) detached placed, relocates, puts⟩
  case insertInstruction =>
    intro i anchor live
    have hv := live_of_isa hs (live.values (.instruction, i.value) (by simp [Request.mentions]))
    have ha := live_of_isa hs (live.values (.instruction, anchor.value) (by simp [Request.mentions]))
    refine ⟨fun detached attached => ?_, run_insertInstruction_attached hv,
      run_insertInstruction_nowhere hv ha⟩
    have offers : c.layout.Offers (.before anchor) := Option.ne_none_iff_exists'.1 attached
    obtain ⟨c', placed, relocates, puts⟩ := place_answered linked offers detached
    exact ⟨c', run_insertInstruction hv ha detached attached placed, relocates, puts⟩
  case moveBefore =>
    intro i anchor live
    have hv := live_of_isa hs (live.values (.instruction, i.value) (by simp [Request.mentions]))
    have ha := live_of_isa hs (live.values (.instruction, anchor.value) (by simp [Request.mentions]))
    refine ⟨fun hne attached => ?_, ?_, run_moveBefore_nowhere hv ha⟩
    · have offers : c.layout.Offers (.before anchor) := Option.ne_none_iff_exists'.1 attached
      -- The place before the instruction itself would go away with it; this is the case the request
      -- rejects.
      have other : InsertPoint.before anchor ≠ .before i := by
        rintro ⟨⟩
        exact hne rfl
      obtain ⟨c₁, c', taken, placed, graph, detached, still, relocates, deletes, puts⟩ :=
        move_answered linked offers other
      refine ⟨_, c₁, c', run_removeInstruction hv taken, ?_,
        run_moveBefore hv ha hne attached taken placed, relocates, deletes, puts⟩
      -- Between the two steps the instruction is detached, so they are the two separate requests.
      exact run_insertInstruction (graph ▸ hv) (graph ▸ ha) detached
        (Option.ne_none_iff_exists'.2 still) placed
    · rintro rfl
      exact run_moveBefore_itself hv
  case moveToEnd =>
    intro i b live
    have hv := live_of_isa hs (live.values (.instruction, i.value) (by simp [Request.mentions]))
    have block := live.values (.block, b.value) (by simp [Request.mentions])
    have hb := live_of_isa hs block
    have offers : c.layout.Offers (.atEnd b) := laid.block.2 ((isa_eq_true_iff hs).1 block)
    have other : InsertPoint.atEnd b ≠ .before i := by rintro ⟨⟩
    obtain ⟨c₁, c', taken, placed, graph, detached, -, relocates, deletes, puts⟩ :=
      move_answered linked offers other
    exact ⟨_, c₁, c', run_removeInstruction hv taken,
      run_appendInstruction (graph ▸ hv) (graph ▸ hb) detached placed,
      run_moveToEnd hv hb taken placed, relocates, deletes, puts⟩
  case removeBlock =>
    intro b live
    have hb := live_of_isa hs (live.values (.block, b.value) (by simp [Request.mentions]))
    exact run_removeBlock laid.bodies hb
  case appendBlock =>
    intro f b live
    have function := live.values (.function, f.value) (by simp [Request.mentions])
    have hf := live_of_isa hs function
    have hb := live_of_isa hs (live.values (.block, b.value) (by simp [Request.mentions]))
    -- A live function has its list, so appending finds it.
    have list := laid.function.2 ((isa_eq_true_iff hs).1 function)
    exact ⟨run_appendBlock laid.bodies list hf hb, run_appendBlock_attached hf hb⟩
  case insertBlock =>
    intro anchor b live
    have ha := live_of_isa hs (live.values (.block, anchor.value) (by simp [Request.mentions]))
    have hb := live_of_isa hs (live.values (.block, b.value) (by simp [Request.mentions]))
    refine ⟨fun detached attached => ?_, run_insertBlock_attached ha hb,
      run_insertBlock_nowhere ha hb⟩
    obtain ⟨f, hf⟩ := Option.ne_none_iff_exists'.1 attached
    exact run_insertBlock laid.bodies ha hb detached hf
  case build =>
    intro r site a c' hr run
    exact run_factory_puts hs hc.tidy hr run

/-- For instance, when the last of three instructions was moved before the first, and an instruction
then built between them. -/
theorem places_exactly_after_move : ∃ c : Context,
    replay [.functionType ⟨⟨1⟩, 0⟩ [] false, .newFunction "f" ⟨⟨1⟩, 11⟩, .newBlock none,
      .appendBlock ⟨⟨⟨1⟩, 0⟩⟩ ⟨⟨⟨1⟩, 1⟩⟩, .phi { point := .atEnd ⟨⟨⟨1⟩, 1⟩⟩ } ⟨⟨1⟩, 9⟩,
      .phi { point := .atEnd ⟨⟨⟨1⟩, 1⟩⟩ } ⟨⟨1⟩, 9⟩, .unreachable { point := .atEnd ⟨⟨⟨1⟩, 1⟩⟩ },
      .moveBefore ⟨⟨⟨1⟩, 4⟩⟩ ⟨⟨⟨1⟩, 2⟩⟩, .phi { point := .before ⟨⟨⟨1⟩, 2⟩⟩ } ⟨⟨1⟩, 9⟩]
      (.initial ⟨1⟩) = some c ∧
    c.layout.instructions ⟨⟨⟨1⟩, 1⟩⟩ =
      [⟨⟨⟨1⟩, 4⟩⟩, ⟨⟨⟨1⟩, 5⟩⟩, ⟨⟨⟨1⟩, 2⟩⟩, ⟨⟨⟨1⟩, 3⟩⟩] ∧ c.PlacesExactly :=
  exists_replay _ _ (by decide +kernel) fun c hc _ => ReachedBy.places_exactly hc

end Context

end SsaGraph
