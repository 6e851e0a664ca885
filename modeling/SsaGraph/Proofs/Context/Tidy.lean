import SsaGraph.Proofs.Numbering

/-!
# Instruction lists after any history

`Intact` says everything about the lists of a context, but only of histories with checked handles: a
handle of the wrong class can put a block into a list of instructions, and then erase it there. What
such a history cannot do is make lists and parent blocks disagree. `Tidy` is what is left without
the classes: the lists agree with the parent blocks, every live block has a list, and everything
that has a list or is in one has been created at some time, so that a value that has just come is in
no list.

The proof goes over the requests by what they do to the lists. Most leave them alone, and bring no
block; a new block gets its list; a placed instruction was in no list before; and what is erased
leaves its list. A block gives up its list only when it is erased, after its instructions were.
-/

namespace SsaGraph

open Run (Steps)

/-- A value that had been created and is of a class was of that class. -/
theorem Graph.Lasts.has {g g' : Graph} (h : g.Lasts g') {cls : Class} {v : Value}
    (old : v.index < g.values.size) (hv : g'.Has cls v) : g.Has cls v := by
  obtain ⟨d', hd', hcls⟩ := Graph.has_iff.1 hv
  obtain ⟨n, hn, -, alike⟩ := h.node old (Graph.node?_of_value? hd')
  obtain ⟨d, hd, rfl⟩ := Graph.value?_of_node? hn
  exact Graph.has_iff.2 ⟨d, hd, (alike.contains_eq cls).symm.trans hcls⟩

namespace Context

variable {c c' : Context} {α : Type}

/-- The instruction lists are in order, whatever classes the handles were of. -/
structure Tidy (c : Context) : Prop where
  /-- The lists of instructions agree with the parent blocks. -/
  contents : c.layout.contents.Linked
  /-- The live blocks have a list. -/
  listed : ∀ {b : Block}, c.graph.Has .block b.value → c.layout.contents.lists.contains b = true
  /-- What has a list has been created. -/
  owner : ∀ {b}, c.layout.contents.lists.contains b = true → b.value.index < c.graph.values.size
  /-- What is in a list has been created. -/
  member : ∀ {b i}, i ∈ c.layout.instructions b → i.value.index < c.graph.values.size

/-- A new context is tidy. -/
theorem tidy_initial (id : ContextId) : (initial id).Tidy := by
  have intact := intact_initial id
  refine ⟨intact.layout.contents, intact.layout.block.2, fun h => ?_, fun h => ?_⟩
  · obtain ⟨d, hd⟩ := (intact.layout.block.1 h).value?
    exact Graph.index_lt_of_value? hd
  · obtain ⟨d, hd⟩ := (intact.layout.instruction_of_mem h).value?
    exact Graph.index_lt_of_value? hd

namespace Tidy

/-- The lists are arranged anew, and no block comes. -/
theorem arrange (h : c.Tidy) (size : c.graph.values.size ≤ c'.graph.values.size)
    (blocks : ∀ {v}, c'.graph.Has .block v → c.graph.Has .block v)
    (linked : c'.layout.contents.Linked)
    (keys : ∀ b, c'.layout.contents.lists.contains b = c.layout.contents.lists.contains b)
    (mem : ∀ {b i}, i ∈ c'.layout.instructions b → i.value.index < c'.graph.values.size) :
    c'.Tidy := by
  refine ⟨linked, fun {b} hb => ?_, fun {b} hb => ?_, mem⟩
  · rw [keys]
    exact h.listed (blocks hb)
  · rw [keys] at hb
    exact Nat.lt_of_lt_of_le (h.owner hb) size

/-- The lists stay as they are, and no block comes. -/
theorem stay (h : c.Tidy) (size : c.graph.values.size ≤ c'.graph.values.size)
    (blocks : ∀ {v}, c'.graph.Has .block v → c.graph.Has .block v)
    (same : c'.layout.contents = c.layout.contents) : c'.Tidy := by
  refine h.arrange size blocks (same ▸ h.contents) (fun b => by rw [same]) fun {b i} hi => ?_
  have hi : i ∈ c.layout.instructions b := by rwa [Layout.instructions, same] at hi
  exact Nat.lt_of_lt_of_le (h.member hi) size

/-- Instructions leave their lists, and blocks that are gone give theirs up. -/
theorem shed (h : c.Tidy) {closed : Block → Bool} {gone : Instruction → Bool}
    (size : c.graph.values.size = c'.graph.values.size)
    (blocks : ∀ {v}, c'.graph.Has .block v → c.graph.Has .block v)
    (sheds : c.layout.contents.Sheds c'.layout.contents closed gone)
    (dead : ∀ b, closed b = true → ¬ c'.graph.Has .block b.value) : c'.Tidy := by
  refine ⟨sheds.linked h.contents, fun {b} hb => ?_, fun {b} hb => ?_, fun {b i} hi => ?_⟩
  · have open_ : closed b = false := by
      cases hcl : closed b with
      | false => rfl
      | true => exact absurd hb (dead b hcl)
    rw [sheds.contains, h.listed (blocks hb), open_]
    rfl
  · rw [sheds.contains, Bool.and_eq_true] at hb
    exact size ▸ h.owner hb.1
  · rw [Layout.instructions, sheds.members, List.mem_filter] at hi
    exact size ▸ h.member hi.1

/-- What has not been created is in no list. -/
theorem parentBlock?_eq_none (h : c.Tidy) {i : Instruction}
    (new : c.graph.values.size ≤ i.value.index) : c.layout.parentBlock? i = none := by
  cases hp : c.layout.parentBlock? i with
  | none => rfl
  | some b =>
    have old := h.member (h.contents.owner.1 hp)
    omega

/-- An instruction that is in no block is placed. -/
theorem place (h : c.Tidy) {i : Instruction} {point : InsertPoint} {a : Unit}
    (made : i.value.index < c.graph.values.size) (detached : c.layout.parentBlock? i = none)
    (run : place i point c = .ok a c') : c'.Tidy := by
  -- Both lists that an instruction can be put in get this one member, which is a value of the
  -- arena.
  cases point with
  | detached =>
    cases run
    exact h
  | before anchor =>
    have run : onLayout (Layout.insertInstruction anchor i) c = .ok a c' := run
    obtain ⟨l, hl, rfl⟩ := Run.on_eq_ok_iff.1 run
    obtain ⟨n, hn, rfl⟩ := Layout.onContents_eq_ok_iff.1 hl
    refine h.arrange (Nat.le_refl _) (fun hv => hv) (h.contents.insert detached hn)
      (fun b => Nest.insert_contains hn) fun hj => ?_
    rcases Nest.insert_mem hn hj with rfl | hj
    · exact made
    · exact h.member hj
  | atEnd b =>
    have run : onLayout (Layout.appendInstruction b i) c = .ok a c' := run
    obtain ⟨l, hl, rfl⟩ := Run.on_eq_ok_iff.1 run
    obtain ⟨n, hn, rfl⟩ := Layout.onContents_eq_ok_iff.1 hl
    refine h.arrange (Nat.le_refl _) (fun hv => hv) (h.contents.append detached hn)
      (fun b => Nest.append_contains hn) fun hj => ?_
    rcases Nest.append_mem hn hj with rfl | hj
    · exact made
    · exact h.member hj

end Tidy

/-! ## Requests that leave the lists alone -/

/-- The lists of instructions are the same. -/
def Spares (c c' : Context) : Prop := c'.layout.contents = c.layout.contents

/-- A chain of sparing changes leaves the lists of instructions alone. -/
theorem spares_of_chain (h : Relation.ReflTransGen Spares c c') :
    c'.layout.contents = c.layout.contents := by
  induction h with
  | refl => rfl
  | tail _ step ih => exact step.trans ih

/-- A run on the graph spares the lists. -/
theorem onGraph_spares {m : Run Graph α} : Steps Spares (onGraph m) c := by
  intro a c' run
  obtain ⟨g, -, rfl⟩ := onGraph_ok run
  exact .single rfl

/-- A run on the lists of blocks spares those of instructions. -/
theorem onBodies_spares {m : Run (Nest Func Block) α} :
    Steps Spares (onLayout (Layout.onBodies m)) c := by
  intro a c' run
  obtain ⟨l, hl, rfl⟩ := Run.on_eq_ok_iff.1 run
  obtain ⟨n, -, rfl⟩ := Layout.onBodies_eq_ok_iff.1 hl
  exact .single rfl

/-- Renaming spares the lists. -/
theorem setName_spares {v : Value} {name : Option String} : Steps Spares (setName v name) c := by
  refine .get_bind (.ask fun _ _ => .ask_fault fun ty _ => .guard fun _ => .ask_fault fun f _ => ?_)
  split
  · refine .bind (fun a c' run => ?_) fun _ _ _ => onGraph_spares
    obtain ⟨new, -, ⟨-, rfl⟩ | ⟨-, d, -, rfl⟩⟩ := registerName_ok run
    · exact .refl
    · exact .single rfl
  · exact onGraph_spares

/-- A block is put into a function. -/
theorem appendBlock_spares {f : Func} {b : Block} : Steps Spares (appendBlock f b) c :=
  .get_bind (.ask fun _ _ => .ask fun _ _ => onBodies_spares)

/-- Inserting a block spares the lists. -/
theorem insertBlock_spares {anchor b : Block} : Steps Spares (insertBlock anchor b) c :=
  .get_bind (.ask fun _ _ => .ask fun _ _ => .guard fun _ => onBodies_spares)

/-- Removing a block spares the lists. -/
theorem removeBlock_spares {b : Block} : Steps Spares (removeBlock b) c :=
  .get_bind (.ask fun _ _ => onBodies_spares)

/-- Setting the tail call marker spares the lists. -/
theorem setTailCall_spares {i : Handle .call} {marker : TailCall} :
    Steps Spares (setTailCall i marker) c := by
  refine .get_bind (.ask_fault fun op _ => ?_)
  split
  · exact onGraph_spares
  · exact .fault

/-- Setting the calling convention spares the lists. -/
theorem setCallingConv_spares {i : Handle .call} {conv : CallingConv} :
    Steps Spares (setCallingConv i conv) c := by
  refine .get_bind (.ask_fault fun op _ => ?_)
  split
  · exact onGraph_spares
  · exact .fault

/-- A request that creates nothing brings no block. -/
theorem has_block_of_local (hs : c.Sound) (chain : Relation.ReflTransGen Local c c') {v : Value}
    (hv : c'.graph.Has .block v) : c.graph.Has .block v := by
  obtain ⟨d, hd⟩ := hv.value?
  refine (lasts_of_chain hs (chain_of_tame (chain_of_local chain))).has ?_ hv
  rw [← size_of_local chain]
  exact Graph.index_lt_of_value? hd

/-- Local changes that spare the lists keep a context tidy. -/
theorem Tidy.locals (h : c.Tidy) (hs : c.Sound) (chain : Relation.ReflTransGen Local c c')
    (spares : Relation.ReflTransGen Spares c c') : c'.Tidy :=
  h.stay (Nat.le_of_eq (size_of_local chain).symm) (has_block_of_local hs chain)
    (spares_of_chain spares)

/-- A request that points operand slots elsewhere. -/
theorem Tidy.still (h : c.Tidy) {graph : Graph} (still : c.graph.Still graph)
    (size : c.graph.values.size ≤ graph.values.size) : Tidy { c with graph } := by
  refine h.stay size (fun {v} hv => ?_) rfl
  obtain ⟨x, hx, hcls⟩ := hv
  exact ⟨x, (still.face v).symm.trans hx, hcls⟩

/-! ## What comes -/

/-- New values that are no blocks keep a context tidy. -/
theorem Tidy.gains (h : c.Tidy) {P : Value → Face → Prop} (gains : c.graph.Gains c'.graph P)
    (other : ∀ {v x}, P v x → Class.block.contains x.kind = false)
    (size : c.graph.values.size ≤ c'.graph.values.size)
    (same : c'.layout.contents = c.layout.contents) : c'.Tidy := by
  refine h.stay size (fun {v} hv => ?_) same
  rcases gains.has_iff.1 hv with hv | ⟨x, hp, hx⟩
  · exact hv
  · rw [other hp] at hx
    cases hx

/-- Supplies keep a context tidy. -/
theorem Tidy.supplies (h : c.Tidy) (chain : Relation.ReflTransGen Supply c c') : c'.Tidy := by
  induction chain with
  | refl => exact h
  | tail _ step ih =>
    cases step with
    | types _ => exact ih.stay (Nat.le_refl _) (fun hv => hv) rfl
    | constant _ _ =>
      refine ih.gains (Graph.gains_push ..) ?_ (by simp [Graph.push]) rfl
      rintro v x ⟨-, rfl⟩
      rfl

/-- A new block keeps a context tidy. -/
theorem newBlock_tidy {name : Option String} {b : Block} (h : c.Tidy)
    (run : newBlock name c = .ok b c') : c'.Tidy := by
  obtain ⟨hb, rfl⟩ := newBlock_ok run
  have gains := Graph.gains_push c.graph c.types.label name .block
  rw [← hb] at gains
  have index : b.value.index = c.graph.values.size := by rw [hb]
  have size : (c.graph.push ⟨c.types.label, name, .block, [], none, 0⟩).2.values.size =
      c.graph.values.size + 1 := by
    simp [Graph.push]
  -- A value that has just come has no list, so an empty list changes no members.
  have none_listed : c.layout.contents.lists.contains b = false := by
    cases hl : c.layout.contents.lists.contains b with
    | false => rfl
    | true =>
      have old := h.owner hl
      omega
  have empty : c.layout.contents.members b = [] := by
    refine List.eq_nil_iff_forall_not_mem.2 fun i hi => ?_
    have listed := Keyed.contains_iff.2 ⟨_, Nest.lists_of_mem hi⟩
    rw [none_listed] at listed
    cases listed
  -- The block gets its list; what was listed before was below the size of the arena and is so
  -- still.
  refine ⟨h.contents.add empty, fun {b'} hb' => ?_, fun {b'} hb' => ?_, fun {b' i} hi => ?_⟩
  · change (c.layout.contents.lists.insert b []).contains b' = true
    rw [Keyed.contains_insert]
    rcases gains.has_iff.1 hb' with hb' | ⟨x, ⟨hv, -⟩, -⟩
    · rw [h.listed hb']
      split <;> rfl
    · rw [if_pos (Handle.ext hv)]
  · have hb' : (c.layout.contents.lists.insert b []).contains b' = true := hb'
    rw [Keyed.contains_insert] at hb'
    split at hb'
    · subst b'
      simp only [size]
      omega
    · have old := h.owner hb'
      simp only [size]
      omega
  · have hi : i ∈ (c.layout.contents.add b).members b' := hi
    rw [Nest.members_add] at hi
    split at hi
    · cases hi
    · have old := h.member hi
      simp only [size]
      omega

/-- A new function keeps a context tidy. -/
theorem newFunction_tidy {name : String} {ty : Ty} {f : Func} (h : c.Tidy)
    (size : c.graph.values.size ≤ c'.graph.values.size)
    (run : newFunction name ty c = .ok f c') : c'.Tidy := by
  obtain ⟨ptr, types, ret, params, varArg, args, graph, -, -, -, -, gains, -, rfl⟩ :=
    newFunction_ok run
  refine h.gains gains ?_ size rfl
  rintro v x (⟨-, rfl⟩ | ⟨i, p, -, -, rfl⟩) <;> rfl

/-- A new instruction is placed. -/
theorem emit_tidy {cls : Class} {site : Site} {ty : Ty} {op : Operation}
    {operands : List (Option Value)} {i : Handle cls} (hs : c.Sound) (h : c.Tidy)
    (run : emit site ty op operands c = .ok i c') : c'.Tidy := by
  obtain ⟨graph, _, hg, rfl, placed⟩ := emit_ok run
  have gains := Graph.newUser_gains hs.graph hg
  have size := Graph.newUser_size hg
  obtain ⟨-, -, hi, -⟩ := Graph.newUser_ok hs.graph hg
  have made : i.value.index = c.graph.values.size := by rw [hi]
  have tidy : Tidy { c with graph } := by
    refine h.gains gains ?_ (by simp [size]) rfl
    rintro v x ⟨-, rfl⟩
    rfl
  refine tidy.place ?_ ?_ placed
  · simp only [size]
    omega
  · exact h.parentBlock?_eq_none (Nat.le_of_eq made.symm)

/-- What builds an instruction keeps a context tidy. -/
theorem Builds.tidy {cls : Class} {ok : Prop} {site : Site} {m : Run Context (Handle cls)}
    {i : Handle cls} (builds : Builds Supply ok site m c) (hs : c.Sound) (h : c.Tidy)
    (run : m c = .ok i c') : c'.Tidy := by
  obtain ⟨c₁, ty, op, operands, chain, -, -, -, emitted⟩ := builds i c' run
  exact emit_tidy (hs.supplies chain) (h.supplies chain) emitted

/-! ## Instructions that are moved -/

/-- Taking an instruction out keeps a context tidy and detaches the instruction. -/
theorem takeOut_tidy {i : Instruction} {o : Option Block} (h : c.Tidy)
    (run : onLayout (Layout.removeInstruction i) c = .ok o c') :
    c'.Tidy ∧ c'.graph = c.graph ∧ c'.layout.parentBlock? i = none := by
  obtain ⟨l, hl, rfl⟩ := Run.on_eq_ok_iff.1 run
  obtain ⟨n, hn, rfl⟩ := Layout.onContents_eq_ok_iff.1 hl
  obtain ⟨linked, detached⟩ := h.contents.remove hn
  exact ⟨h.arrange (Nat.le_refl _) (fun hv => hv) linked (fun b => Nest.remove_contains hn)
    fun hj => h.member (Nest.remove_mem hn hj), rfl, detached⟩

/-- A handle that passed the check is of the arena. -/
theorem index_lt_of_check {v : Value} {a : Unit} (h : c.check v = .ok a) :
    v.index < c.graph.values.size := by
  obtain ⟨d, hd⟩ := check_eq_ok_iff.1 h
  exact Graph.index_lt_of_value? hd

/-- Removing an instruction keeps a context tidy. -/
theorem removeInstruction_tidy {i : Instruction} {o : Option Block} (h : c.Tidy)
    (run : removeInstruction i c = .ok o c') : c'.Tidy := by
  simp only [removeInstruction, Run.bind_eq_ok_iff, Run.get_apply, Run.question_eq_ok_iff] at run
  obtain ⟨_, _, h₀, _, _, ⟨-, rfl⟩, run⟩ := run
  cases h₀
  exact (takeOut_tidy h run).1

/-- Inserting an instruction keeps a context tidy. -/
theorem insertInstruction_tidy {i anchor : Instruction} {a : Unit} (h : c.Tidy)
    (run : insertInstruction i anchor c = .ok a c') : c'.Tidy := by
  simp only [insertInstruction, Run.bind_eq_ok_iff, Run.get_apply, Run.question_eq_ok_iff] at run
  obtain ⟨_, _, h₀, _, _, ⟨checked, rfl⟩, _, _, ⟨-, rfl⟩, run⟩ := run
  cases h₀
  obtain ⟨alive, detached⟩ := checkDetached_eq_ok checked
  exact h.place (index_lt_of_check alive) detached run

/-- Appending an instruction keeps a context tidy. -/
theorem appendInstruction_tidy {i : Instruction} {b : Block} {a : Unit} (h : c.Tidy)
    (run : appendInstruction i b c = .ok a c') : c'.Tidy := by
  simp only [appendInstruction, Run.bind_eq_ok_iff, Run.get_apply, Run.question_eq_ok_iff] at run
  obtain ⟨_, _, h₀, _, _, ⟨checked, rfl⟩, _, _, ⟨-, rfl⟩, run⟩ := run
  cases h₀
  obtain ⟨alive, detached⟩ := checkDetached_eq_ok checked
  exact h.place (index_lt_of_check alive) detached run

/-- After an instruction was taken out it is in no list. -/
theorem move_tidy {i : Instruction} {point : InsertPoint} {a : Unit} (h : c.Tidy)
    (made : i.value.index < c.graph.values.size)
    (run : (do discard <| onLayout (Layout.removeInstruction i); place i point : Run Context Unit) c
      = .ok a c') : c'.Tidy := by
  obtain ⟨_, c₁, taken, placed⟩ := Run.bind_eq_ok_iff.1 run
  obtain ⟨_, taken, -⟩ := Run.map_eq_ok_iff.1 taken
  obtain ⟨tidy, graph, detached⟩ := takeOut_tidy h taken
  exact tidy.place (by rwa [graph]) detached placed

/-- Moving an instruction before another keeps a context tidy. -/
theorem moveBefore_tidy {i anchor : Instruction} {a : Unit} (h : c.Tidy)
    (run : moveBefore i anchor c = .ok a c') : c'.Tidy := by
  simp only [moveBefore] at run
  obtain ⟨_, _, h₀, run⟩ := Run.bind_eq_ok_iff.1 run
  cases h₀
  obtain ⟨_, _, asked, run⟩ := Run.bind_eq_ok_iff.1 run
  obtain ⟨alive, rfl⟩ := Run.question_eq_ok_iff.1 asked
  split at run
  · cases run
  · obtain ⟨_, _, checked, run⟩ := Run.bind_eq_ok_iff.1 run
    obtain ⟨-, rfl⟩ := Run.question_eq_ok_iff.1 checked
    exact move_tidy h (index_lt_of_check alive) run

/-- Moving an instruction to the end of a block keeps a context tidy. -/
theorem moveToEnd_tidy {i : Instruction} {b : Block} {a : Unit} (h : c.Tidy)
    (run : moveToEnd i b c = .ok a c') : c'.Tidy := by
  simp only [moveToEnd] at run
  obtain ⟨_, _, h₀, run⟩ := Run.bind_eq_ok_iff.1 run
  cases h₀
  obtain ⟨_, _, asked, run⟩ := Run.bind_eq_ok_iff.1 run
  obtain ⟨alive, rfl⟩ := Run.question_eq_ok_iff.1 asked
  obtain ⟨_, _, checked, run⟩ := Run.bind_eq_ok_iff.1 run
  obtain ⟨-, rfl⟩ := Run.question_eq_ok_iff.1 checked
  exact move_tidy h (index_lt_of_check alive) run

/-! ## Instructions and blocks that are erased -/

/-- The erasure of an instruction takes it from its list and leaves the others. -/
theorem eraseInstruction_sheds_contents {i : Instruction} {a : Unit} (h : c.Tidy)
    (run : eraseInstruction i c = .ok a c') :
    c.layout.contents.Sheds c'.layout.contents (fun _ => false) (fun j => decide (j = i)) := by
  obtain ⟨d, o, layout, graph, -, -, removed, -, rfl⟩ := eraseInstruction_eq_ok run
  obtain ⟨n, hn, rfl⟩ := Layout.onContents_eq_ok_iff.1 removed
  exact Nest.remove_sheds h.contents hn

/-- The erasure of an instruction keeps a context tidy. -/
theorem eraseInstruction_tidy {i : Instruction} {a : Unit} (hs : c.Sound) (h : c.Tidy)
    (run : eraseInstruction i c = .ok a c') : c'.Tidy := by
  have chain := eraseInstruction_steps _ _ run
  exact h.shed (size_of_local chain).symm (has_block_of_local hs chain)
    (eraseInstruction_sheds_contents h run) nofun

/-- Instructions are erased one after the other, and leave their lists. -/
theorem eraseInstructions_tidy {is : List Instruction} {a : Unit} (hs : c.Sound) (h : c.Tidy)
    (run : is.forM eraseInstruction c = .ok a c') :
    c'.Sound ∧ c'.Tidy ∧
      c.layout.contents.Sheds c'.layout.contents (fun _ => false) (fun j => decide (j ∈ is)) := by
  induction is generalizing c with
  | nil =>
    cases run
    exact ⟨hs, h, .of_apart h.contents (fun _ _ => rfl) (by simp)⟩
  | cons i is ih =>
    rw [List.forM_eq_forM, List.forM_cons, Run.bind_eq_ok_iff] at run
    obtain ⟨_, c₁, first, rest⟩ := run
    obtain ⟨hs', h', sheds⟩ := ih (hs.locals (eraseInstruction_steps _ _ first))
      (eraseInstruction_tidy hs h first) rest
    exact ⟨hs', h', ((eraseInstruction_sheds_contents h first).trans sheds).congr (fun _ => rfl)
      fun j => by simp⟩

/-- Releasing a block keeps a context sound and tidy, and its layout as it was. -/
theorem releaseBlock_tidy {b : Block} {a : Unit} (hs : c.Sound) (h : c.Tidy)
    (run : releaseBlock b c = .ok a c') : c'.Sound ∧ c'.Tidy ∧ c'.layout = c.layout := by
  have chain := releaseBlock_steps _ _ run
  obtain ⟨graph, rfl, -, -⟩ := releaseBlock_cut hs.graph run
  exact ⟨hs.locals chain, h.locals hs chain (.single rfl), rfl⟩

/-- The erasure of a block keeps a context sound and tidy. -/
theorem eraseBlock_tidy {b : Block} {a : Unit} (hs : c.Sound) (h : c.Tidy)
    (run : eraseBlock b c = .ok a c') : c'.Sound ∧ c'.Tidy := by
  have chain := eraseBlock_steps _ _ run
  refine ⟨hs.locals chain, ?_⟩
  obtain ⟨c₁, c₂, o, layout, graph, -, release, loop, removed, dropped, rfl⟩ := eraseBlock_eq_ok run
  obtain ⟨hs₁, h₁, same⟩ := releaseBlock_tidy hs h release
  obtain ⟨hs₂, h₂, sheds⟩ := eraseInstructions_tidy hs₁ h₁ loop
  obtain ⟨n, -, rfl⟩ := Layout.onBodies_eq_ok_iff.1 removed
  -- By now the block has no instructions, and it can give up its list.
  have empty : c₂.layout.contents.members b = [] := by
    rw [sheds.members, List.filter_eq_nil_iff]
    intro i hi
    have hi : i ∈ c.layout.instructions b := by rwa [same] at hi
    simpa using hi
  have loses := (Graph.removeValue_reduced hs₂.graph dropped).2.loses
  refine h₂.shed ?_ (fun {v} hv => (loses.has_iff.1 hv).2) (Nest.drop_sheds empty) fun b' hb' hv => ?_
  · exact (Graph.size_of_sameSize (Graph.removeValue_sameSize _ _ _ _ dropped)).symm
  · obtain rfl : b' = b := by simpa using hb'
    exact (loses.has_iff.1 hv).1 (by simp)

/-- A loop whose rounds keep the lists in order. -/
theorem forM_tidy {f : α → Run Context Unit} {xs : List α} {a : Unit}
    (step : ∀ {x c a c'}, c.Sound → c.Tidy → f x c = .ok a c' → c'.Sound ∧ c'.Tidy)
    (hs : c.Sound) (h : c.Tidy) (run : xs.forM f c = .ok a c') : c'.Sound ∧ c'.Tidy := by
  induction xs generalizing c with
  | nil =>
    cases run
    exact ⟨hs, h⟩
  | cons x xs ih =>
    rw [List.forM_eq_forM, List.forM_cons, Run.bind_eq_ok_iff] at run
    obtain ⟨_, c₁, first, rest⟩ := run
    obtain ⟨hs₁, h₁⟩ := step hs h first
    exact ih hs₁ h₁ rest

/-- A value is removed from the graph. -/
theorem removeValue_tidy {v : Value} {a : Unit} (hs : c.Sound) (h : c.Tidy)
    (run : onGraph (Graph.removeValue v) c = .ok a c') : c'.Sound ∧ c'.Tidy := by
  have chain := removeValue_steps _ _ run
  exact ⟨hs.locals chain, h.locals hs chain (onGraph_spares _ _ run)⟩

/-- The erasure of a function keeps a context tidy. -/
theorem eraseFunction_tidy {f : Func} {a : Unit} (hs : c.Sound) (h : c.Tidy)
    (run : eraseFunction f c = .ok a c') : c'.Tidy := by
  obtain ⟨c₁, c₂, c₃, ty, args, name, graph, -, release, loop, -, removed, -, dropped, rfl⟩ :=
    eraseFunction_eq_ok run
  obtain ⟨hs₁, h₁⟩ := forM_tidy (fun hs h run => (releaseBlock_tidy hs h run).imp_right And.left) hs h
    release
  obtain ⟨hs₂, h₂⟩ := forM_tidy eraseBlock_tidy hs₁ h₁ loop
  obtain ⟨hs₃, h₃⟩ := forM_tidy removeValue_tidy hs₂ h₂ removed
  have loses := (Graph.removeValue_reduced hs₃.graph dropped).2.loses
  refine h₃.stay ?_ (fun {v} hv => (loses.has_iff.1 hv).2) rfl
  exact Nat.le_of_eq (Graph.size_of_sameSize (Graph.removeValue_sameSize _ _ _ _ dropped)).symm

/-- The erasure of a value keeps a context tidy. -/
theorem eraseValue_tidy {v : Value} {a : Unit} (hs : c.Sound) (h : c.Tidy)
    (run : eraseValue v c = .ok a c') : c'.Tidy := by
  simp only [eraseValue] at run
  obtain ⟨_, _, h₀, run⟩ := Run.bind_eq_ok_iff.1 run
  cases h₀
  obtain ⟨_, _, checked, run⟩ := Run.bind_eq_ok_iff.1 run
  obtain ⟨-, rfl⟩ := Run.question_eq_ok_iff.1 checked
  obtain ⟨kind, _, asked, run⟩ := Run.bind_eq_ok_iff.1 run
  obtain ⟨-, rfl⟩ := Run.faulting_eq_ok_iff.1 asked
  split at run
  · exact eraseInstruction_tidy hs h run
  · exact (eraseBlock_tidy hs h run).2
  · exact eraseFunction_tidy hs h run
  · cases run
  · cases run

end Context

/-! ## Requests and histories -/

namespace Request

open Context

variable {c c' : Context} {r : Request} {a : Answer}

/-- Every request keeps the instruction lists in order. -/
theorem run_tidy (hs : c.Sound) (h : c.Tidy) (run : r.run c = .ok a c') : c'.Tidy := by
  have lasts := lasts_of_chain hs (run_steps hs r a c' run)
  cases hsupply : r.isSupply with
  | true => exact h.supplies (run_supply hs hsupply a c' run)
  | false =>
    cases hfactory : r.isFactory with
    | true =>
      obtain ⟨m, site, hm, builds⟩ := run_builds hs hfactory
      rw [hm] at run
      obtain ⟨i, -, made⟩ := valued_eq_ok run
      exact builds.tidy hs h made
    | false =>
      have other : (r.isFactory || r.isSupply) = false := by
        rw [hfactory, hsupply]
        rfl
      -- What is left either spares the lists, or is one of the requests above.
      have spared : Steps Local r.run c → Relation.ReflTransGen Spares c c' → c'.Tidy :=
        fun steps spares => h.locals hs (steps a c' run) spares
      cases r with
      | setName v name =>
        exact spared (silent_steps setName_steps) (setName_spares _ _ (silent_eq_ok run))
      | setOperand user index target =>
        obtain ⟨g, set, rfl⟩ := setOperand_ok (silent_eq_ok run)
        exact h.still (Graph.still_of_chain (Graph.setOperand_still _ _ _ _ _ _ set)) lasts.size
      | replaceAllUses old new =>
        obtain ⟨g, replaced, rfl⟩ := replaceAllUses_ok (silent_eq_ok run)
        exact h.still (Graph.still_of_chain (Graph.replaceAllUses_still _ _ _ _ _ replaced)) lasts.size
      | dropAllUses v =>
        exact spared (silent_steps (dropAllUses_steps hs))
          (silent_steps (.get_bind (.ask fun _ _ => onGraph_spares)) _ _ run)
      | dropAllReferences user =>
        exact spared (silent_steps dropAllReferences_steps)
          (silent_steps (.get_bind (.ask fun _ _ => onGraph_spares)) _ _ run)
      -- New slots are no new values, so what is in the lists stays.
      | addCase i value dest =>
        obtain ⟨g₁, g₂, first, second, rfl⟩ := addCase_ok (silent_eq_ok run)
        exact h.still (Graph.still_of_chain ((Graph.pushOperand_still _ _ _ _ _ first).trans
          (Graph.pushOperand_still _ _ _ _ _ second))) lasts.size
      | addIncoming i value b =>
        obtain ⟨g₁, g₂, first, second, rfl⟩ := addIncoming_ok (silent_eq_ok run)
        exact h.still (Graph.still_of_chain ((Graph.pushOperand_still _ _ _ _ _ first).trans
          (Graph.pushOperand_still _ _ _ _ _ second))) lasts.size
      | setTailCall i marker =>
        exact spared (silent_steps setTailCall_steps) (setTailCall_spares _ _ (silent_eq_ok run))
      | setCallingConv i conv =>
        exact spared (silent_steps setCallingConv_steps)
          (setCallingConv_spares _ _ (silent_eq_ok run))
      -- A new function or block comes with an empty list of its own.
      | newFunction name ty =>
        obtain ⟨f, -, made⟩ := valued_eq_ok run
        exact newFunction_tidy h lasts.size made
      | newBlock name =>
        obtain ⟨b, -, made⟩ := valued_eq_ok run
        exact newBlock_tidy h made
      | appendBlock f b =>
        exact spared (silent_steps appendBlock_steps) (appendBlock_spares _ _ (silent_eq_ok run))
      | insertBlock anchor b =>
        exact spared (silent_steps insertBlock_steps) (insertBlock_spares _ _ (silent_eq_ok run))
      | removeBlock b =>
        exact spared (parental_steps removeBlock_steps) (parental_steps removeBlock_spares _ _ run)
      -- The requests that move an instruction, and then those that erase.
      | removeInstruction i =>
        obtain ⟨o, -, removed⟩ := parental_eq_ok run
        exact removeInstruction_tidy h removed
      | insertInstruction i anchor => exact insertInstruction_tidy h (silent_eq_ok run)
      | appendInstruction i b => exact appendInstruction_tidy h (silent_eq_ok run)
      | moveBefore i anchor => exact moveBefore_tidy h (silent_eq_ok run)
      | moveToEnd i b => exact moveToEnd_tidy h (silent_eq_ok run)
      | eraseInstruction i => exact eraseInstruction_tidy hs h (silent_eq_ok run)
      | eraseBlock b => exact (eraseBlock_tidy hs h (silent_eq_ok run)).2
      | eraseFunction f => exact eraseFunction_tidy hs h (silent_eq_ok run)
      | eraseValue v => exact eraseValue_tidy hs h (silent_eq_ok run)
      | _ => cases other

end Request

namespace Context

/-- After any history the instruction lists are in order. -/
theorem ReachedBy.tidy {allowed : Context → Request → Prop} {c : Context}
    (h : ReachedBy allowed c) : c.Tidy :=
  h.invariant tidy_initial fun hs tidy _ run => Request.run_tidy hs tidy run

end Context

end SsaGraph
