import SsaGraph.Proofs.Graph.Face
import SsaGraph.Proofs.Layout

/-!
# The layout and the graph

A layout is about the blocks, functions and instructions of a graph. `Laid` says that the two fit:
the lists agree with the parent links, the live blocks and functions are those that have a list, and
what is in a list is alive and of the class that the list is for. The requests on a layout keep it,
and cause no fault when what they are given is alive and where it should be.

A change of the graph that leaves the values of a class alone is told by `Fixed`, or by `Same` if
names may change, so that what is kept about one class need not be proved again for each change of
another. What goes from the graph goes from the layout too (`Sheds`).
-/

namespace SsaGraph

/-! ## Values of one class -/

namespace Graph

variable {g g' : Graph} {cls : Class} {v : Value} {x : Face}

/-- The values of a class are the same in both graphs, and have the same faces. -/
def Fixed (cls : Class) (g g' : Graph) : Prop :=
  ∀ v x, cls.contains x.kind = true → (g'.face? v = some x ↔ g.face? v = some x)

/-- The values of a class are the same in both graphs, and have the same types and kinds. -/
def Same (cls : Class) (g g' : Graph) : Prop :=
  ∀ v ty kind, cls.contains kind = true →
    ((∃ name, g'.face? v = some ⟨ty, name, kind⟩) ↔ ∃ name, g.face? v = some ⟨ty, name, kind⟩)

/-- What is fixed is the same. -/
theorem Fixed.same (h : Fixed cls g g') : Same cls g g' :=
  fun v _ _ hkind => exists_congr fun _ => h v _ hkind

/-- The same values have the class. -/
theorem Same.has_iff (h : Same cls g g') : g'.Has cls v ↔ g.Has cls v := by
  constructor
  · rintro ⟨⟨ty, name, kind⟩, hv, hkind⟩
    obtain ⟨name', hv'⟩ := (h v ty kind hkind).1 ⟨name, hv⟩
    exact ⟨_, hv', hkind⟩
  · rintro ⟨⟨ty, name, kind⟩, hv, hkind⟩
    obtain ⟨name', hv'⟩ := (h v ty kind hkind).2 ⟨name, hv⟩
    exact ⟨_, hv', hkind⟩

/-- What is no instruction keeps its type and kind. -/
theorem Resembles.same (h : g.Resembles g') (sort : cls ∈ Class.sorts)
    (other : cls ≠ .instruction) : Same cls g g' := by
  have one : ∀ {a b : Graph}, a.Resembles b → ∀ {v ty kind}, cls.contains kind = true →
      (∃ name, a.face? v = some ⟨ty, name, kind⟩) → ∃ name, b.face? v = some ⟨ty, name, kind⟩ := by
    rintro a b hab v ty kind hkind ⟨name, hv⟩
    obtain ⟨⟨ty', name', kind'⟩, hy, alike⟩ := hab.face hv
    have hty : ty' = ty := alike.ty_eq
    have hk : kind' = kind := alike.kind_eq (Class.isUser_of_contains sort other hkind)
    subst hty hk
    exact ⟨name', hy⟩
  exact fun v ty kind hkind => ⟨one h.symm hkind, one h hkind⟩

/-- A graph that resembles another has the same functions. -/
theorem Resembles.fixed (h : g.Resembles g') : Fixed .function g g' := by
  have one : ∀ {a b : Graph}, a.Resembles b → ∀ {v x}, Class.function.contains x.kind = true →
      a.face? v = some x → b.face? v = some x := by
    intro a b hab v x hx hv
    obtain ⟨y, hy, alike⟩ := hab.face hv
    rwa [alike.eq_of_function hx] at hy
  exact fun v x hx => ⟨one h.symm hx, one h hx⟩

/-- The values that come are not of the class. -/
theorem Gains.fixed {P : Value → Face → Prop} (h : g.Gains g' P)
    (other : ∀ {v x}, P v x → cls.contains x.kind = false) : Fixed cls g g' := by
  refine fun w y hy => ⟨fun hw => ?_, h.keep⟩
  rcases h.face.1 hw with hw | hp
  · exact hw
  · rw [other hp] at hy
    cases hy

/-- One value comes that is not of the class. -/
theorem Gains.fixed_one (h : g.GainsOne g' v x) (other : cls.contains x.kind = false) :
    Fixed cls g g' := by
  refine h.fixed ?_
  rintro _ _ ⟨rfl, rfl⟩
  exact other

/-- The values that go are not of the class. -/
theorem Loses.fixed {gone : List Value} (h : g.Loses g' gone)
    (other : ∀ v ∈ gone, ¬ g.Has cls v) : Fixed cls g g' := by
  intro w y hy
  rw [h.face?_eq_some_iff]
  exact ⟨And.right, fun hw => ⟨fun hgone => other w hgone ⟨y, hw, hy⟩, hw⟩⟩

/-- One value gets another name. -/
theorem same_of_rename {name : Option String} (hx : g.face? v = some x)
    (face : ∀ w, g'.face? w = if w = v then some { x with name } else g.face? w) :
    Same cls g g' := by
  intro w ty kind _
  rw [face]
  split
  · subst w
    rw [hx]
    obtain ⟨ty', name', kind'⟩ := x
    simp
  · rfl

end Graph

/-! ## The layout -/

namespace Layout

variable {l l' l'' : Layout} {g g' : Graph}

/-- The layout has a list for each live block and function, and lists live instructions and blocks
in them. -/
structure Laid (l : Layout) (g : Graph) : Prop where
  /-- The lists of instructions agree with the parent blocks. -/
  contents : l.contents.Linked
  /-- The lists of blocks agree with the parent functions. -/
  bodies : l.bodies.Linked
  /-- The live blocks have a list of instructions. -/
  block : ∀ {b}, l.contents.lists.contains b = true ↔ g.Has .block b.value
  /-- The live functions have a list of blocks. -/
  function : ∀ {f}, l.bodies.lists.contains f = true ↔ g.Has .function f.value
  /-- What is listed as an instruction is one. -/
  instruction_of_mem : ∀ {b i}, i ∈ l.instructions b → g.Has .instruction i.value
  /-- What is listed as a block is one. -/
  block_of_mem : ∀ {f b}, b ∈ l.blocks f → g.Has .block b.value

namespace Laid

/-- What lists an instruction is a block. -/
theorem has_block (h : l.Laid g) {b : Block} {i : Instruction} (hi : i ∈ l.instructions b) :
    g.Has .block b.value :=
  h.block.1 (Keyed.contains_iff.2 ⟨_, Nest.lists_of_mem hi⟩)

/-- What lists a block is a function. -/
theorem has_function (h : l.Laid g) {f : Func} {b : Block} (hb : b ∈ l.blocks f) :
    g.Has .function f.value :=
  h.function.1 (Keyed.contains_iff.2 ⟨_, Nest.lists_of_mem hb⟩)

/-- The layout fits a graph with the same blocks and functions, if what it lists is there. -/
theorem same (h : l.Laid g) (block : Graph.Same .block g g') (function : Graph.Same .function g g')
    (instruction : ∀ {b i}, i ∈ l.instructions b → g'.Has .instruction i.value) : l.Laid g' :=
  ⟨h.contents, h.bodies, h.block.trans block.has_iff.symm, h.function.trans function.has_iff.symm,
    instruction, fun hb => block.has_iff.2 (h.block_of_mem hb)⟩

/-- The instructions of blocks are arranged anew. -/
theorem withContents (h : l.Laid g) {n : Nest Block Instruction} (linked : n.Linked)
    (keys : ∀ b, n.lists.contains b = l.contents.lists.contains b)
    (mem : ∀ {b i}, i ∈ n.members b → g.Has .instruction i.value) :
    ({ l with contents := n } : Layout).Laid g :=
  ⟨linked, h.bodies, fun {b} => by rw [keys b]; exact h.block, h.function, mem, h.block_of_mem⟩

/-- The blocks of functions are arranged anew. -/
theorem withBodies (h : l.Laid g) {n : Nest Func Block} (linked : n.Linked)
    (keys : ∀ f, n.lists.contains f = l.bodies.lists.contains f)
    (mem : ∀ {f b}, b ∈ n.members f → g.Has .block b.value) :
    ({ l with bodies := n } : Layout).Laid g :=
  ⟨h.contents, linked, h.block, fun {f} => by rw [keys f]; exact h.function, h.instruction_of_mem,
    mem⟩

/-- The layout still fits after a detached instruction has been appended. -/
theorem appendInstruction {b : Block} {i : Instruction} {a : Unit} (h : l.Laid g)
    (hi : g.Has .instruction i.value) (detached : l.parentBlock? i = none)
    (run : appendInstruction b i l = .ok a l') : l'.Laid g := by
  obtain ⟨n, hn, rfl⟩ := onContents_eq_ok_iff.1 run
  refine h.withContents (h.contents.append detached hn) (fun _ => Nest.append_contains hn) ?_
  intro b' j hj
  rcases Nest.append_mem hn hj with rfl | hj
  · exact hi
  · exact h.instruction_of_mem hj

/-- The layout still fits after a detached instruction has been inserted. -/
theorem insertInstruction {anchor i : Instruction} {a : Unit} (h : l.Laid g)
    (hi : g.Has .instruction i.value) (detached : l.parentBlock? i = none)
    (run : insertInstruction anchor i l = .ok a l') : l'.Laid g := by
  obtain ⟨n, hn, rfl⟩ := onContents_eq_ok_iff.1 run
  refine h.withContents (h.contents.insert detached hn) (fun _ => Nest.insert_contains hn) ?_
  intro b' j hj
  rcases Nest.insert_mem hn hj with rfl | hj
  · exact hi
  · exact h.instruction_of_mem hj

/-- An instruction that is taken out is detached. -/
theorem removeInstruction {i : Instruction} {o : Option Block} (h : l.Laid g)
    (run : removeInstruction i l = .ok o l') : l'.Laid g ∧ l'.parentBlock? i = none := by
  obtain ⟨n, hn, rfl⟩ := onContents_eq_ok_iff.1 run
  obtain ⟨linked, detached⟩ := h.contents.remove hn
  refine ⟨h.withContents linked (fun _ => Nest.remove_contains hn) ?_, detached⟩
  exact fun hj => h.instruction_of_mem (Nest.remove_mem hn hj)

/-- The layout still fits after a detached block has been appended. -/
theorem appendBlock {f : Func} {b : Block} {a : Unit} (h : l.Laid g) (hb : g.Has .block b.value)
    (detached : l.parentFunction? b = none) (run : appendBlock f b l = .ok a l') : l'.Laid g := by
  obtain ⟨n, hn, rfl⟩ := onBodies_eq_ok_iff.1 run
  refine h.withBodies (h.bodies.append detached hn) (fun _ => Nest.append_contains hn) ?_
  intro f' b' hb'
  rcases Nest.append_mem hn hb' with rfl | hb'
  · exact hb
  · exact h.block_of_mem hb'

/-- The layout still fits after a detached block has been inserted. -/
theorem insertBlock {anchor b : Block} {a : Unit} (h : l.Laid g) (hb : g.Has .block b.value)
    (detached : l.parentFunction? b = none) (run : insertBlock anchor b l = .ok a l') :
    l'.Laid g := by
  obtain ⟨n, hn, rfl⟩ := onBodies_eq_ok_iff.1 run
  refine h.withBodies (h.bodies.insert detached hn) (fun _ => Nest.insert_contains hn) ?_
  intro f' b' hb'
  rcases Nest.insert_mem hn hb' with rfl | hb'
  · exact hb
  · exact h.block_of_mem hb'

/-- The layout still fits after a block has been removed. -/
theorem removeBlock {b : Block} {o : Option Func} (h : l.Laid g)
    (run : removeBlock b l = .ok o l') : l'.Laid g := by
  obtain ⟨n, hn, rfl⟩ := onBodies_eq_ok_iff.1 run
  refine h.withBodies (h.bodies.remove hn).1 (fun _ => Nest.remove_contains hn) ?_
  exact fun hb' => h.block_of_mem (Nest.remove_mem hn hb')

/-! ## What is not alive has no place -/

/-- What is no live block lists no instructions. -/
theorem instructions_eq_nil (h : l.Laid g) {b : Block} (dead : ¬ g.Has .block b.value) :
    l.instructions b = [] :=
  List.eq_nil_iff_forall_not_mem.2 fun _ hi => dead (h.has_block hi)

/-- What is no live function lists no blocks. -/
theorem blocks_eq_nil (h : l.Laid g) {f : Func} (dead : ¬ g.Has .function f.value) :
    l.blocks f = [] :=
  List.eq_nil_iff_forall_not_mem.2 fun _ hb => dead (h.has_function hb)

/-- What is no live instruction is in no block. -/
theorem parentBlock?_eq_none (h : l.Laid g) {i : Instruction}
    (dead : ¬ g.Has .instruction i.value) : l.parentBlock? i = none := by
  cases hp : l.parentBlock? i with
  | none => rfl
  | some b => exact absurd (h.instruction_of_mem (h.contents.owner.1 hp)) dead

/-- What has just come is in no block. -/
theorem detached_of_gains {v : Value} {x : Face} (h : l.Laid g) (gains : g.GainsOne g' v x) :
    l.parentBlock? ⟨v⟩ = none := by
  refine h.parentBlock?_eq_none ?_
  rintro ⟨y, hy, -⟩
  rw [gains.new ⟨rfl, rfl⟩] at hy
  cases hy

/-! ## New blocks and functions -/

/-- The layout with an empty list for a new block is laid out for the graph with that block. -/
theorem addBlock {b : Block} {x : Face} (h : l.Laid g) (gains : g.GainsOne g' b.value x)
    (hx : x.kind = .block) : (l.addBlock b).Laid g' := by
  have new : ¬ g.Has .block b.value := by
    rintro ⟨y, hy, -⟩
    rw [gains.new ⟨rfl, rfl⟩] at hy
    cases hy
  have function : Graph.Same .function g g' := (gains.fixed_one (by rw [hx]; rfl)).same
  -- A block that is not alive has no list yet, and the empty list changes no members.
  have empty := h.instructions_eq_nil new
  have members : ∀ b', (l.addBlock b).instructions b' = l.instructions b' := by
    intro b'
    rw [Layout.instructions, Layout.addBlock, Nest.members_add]
    split
    · subst b'
      exact empty.symm
    · rfl
  refine ⟨h.contents.add empty, h.bodies, fun {b'} => ?_, h.function.trans function.has_iff.symm,
    fun {b' i} hi => ?_, fun hb' => gains.has_iff.2 (.inl (h.block_of_mem hb'))⟩
  · rw [Layout.addBlock, Nest.add, Keyed.contains_insert, gains.has_iff]
    by_cases hb : b' = b
    · subst hb
      simp [hx, Class.contains]
    · have hv : b'.value ≠ b.value := by
        intro heq
        exact hb (congrArg Handle.mk heq)
      simpa [hb, hv] using h.block
  · rw [members] at hi
    exact gains.has_iff.2 (.inl (h.instruction_of_mem hi))

/-- The layout with an empty list for a new function is laid out for the graph with that
function. -/
theorem addFunction {f : Func} {P : Value → Face → Prop} (h : l.Laid g) (gains : g.Gains g' P)
    (block : ∀ {v x}, P v x → Class.block.contains x.kind = false)
    (function : ∀ {v x}, P v x → (Class.function.contains x.kind = true ↔ v = f.value))
    (come : ∃ x, P f.value x) : (l.addFunction f).Laid g' := by
  have new : ¬ g.Has .function f.value := by
    obtain ⟨x, hx⟩ := come
    rintro ⟨y, hy, -⟩
    rw [gains.new hx] at hy
    cases hy
  have block : Graph.Same .block g g' := (gains.fixed block).same
  -- What is not alive has no list, so an empty list changes no members.
  have empty := h.blocks_eq_nil new
  have members : ∀ f', (l.addFunction f).blocks f' = l.blocks f' := by
    intro f'
    rw [Layout.blocks, Layout.addFunction, Nest.members_add]
    split
    · subst f'
      exact empty.symm
    · rfl
  refine ⟨h.contents, h.bodies.add empty, h.block.trans block.has_iff.symm, fun {f'} => ?_,
    fun hi => gains.has_iff.2 (.inl (h.instruction_of_mem hi)), fun {f' b} hb => ?_⟩
  · rw [Layout.addFunction, Nest.add, Keyed.contains_insert, gains.has_iff]
    by_cases hf : f' = f
    · subst hf
      obtain ⟨x, hx⟩ := come
      simp only [if_pos, true_iff]
      exact .inr ⟨x, hx, (function hx).2 rfl⟩
    · rw [if_neg hf, h.function]
      refine ⟨.inl, ?_⟩
      rintro (hf' | ⟨x, hx, hkind⟩)
      · exact hf'
      · exact absurd (congrArg Handle.mk ((function hx).1 hkind)) hf
  · rw [members] at hb
    exact gains.has_iff.2 (.inl (h.block_of_mem hb))

end Laid

/-! ## Values that go -/

/-- Values are taken out of the layout, and the others stay where they are. -/
structure Sheds (l l' : Layout) (gone : List Value) : Prop where
  /-- The instructions of blocks. -/
  contents : l.contents.Sheds l'.contents (decide <| ·.value ∈ gone) (decide <| ·.value ∈ gone)
  /-- The blocks of functions. -/
  bodies : l.bodies.Sheds l'.bodies (decide <| ·.value ∈ gone) (decide <| ·.value ∈ gone)

namespace Sheds

variable {gone gone' : List Value}

/-- What is shed depends on the values only, not on their order. -/
theorem congr (h : l.Sheds l' gone) (same : ∀ v, v ∈ gone' ↔ v ∈ gone) : l.Sheds l' gone' :=
  ⟨h.contents.congr (fun _ => by simp [same]) fun _ => by simp [same],
    h.bodies.congr (fun _ => by simp [same]) fun _ => by simp [same]⟩

/-- Shedding twice sheds both. -/
theorem trans (h : l.Sheds l' gone) (h' : l'.Sheds l'' gone') : l.Sheds l'' (gone ++ gone') :=
  ⟨(h.contents.trans h'.contents).congr (fun _ => by simp) fun _ => by simp,
    (h.bodies.trans h'.bodies).congr (fun _ => by simp) fun _ => by simp⟩

/-- The layout fits the graph that has lost the same values. -/
theorem laid (h : l.Sheds l' gone) (hl : l.Laid g) (loses : g.Loses g' gone) : l'.Laid g' := by
  refine ⟨h.contents.linked hl.contents, h.bodies.linked hl.bodies, fun {b} => ?_, fun {f} => ?_,
    fun {b i} hi => ?_, fun {f b} hb => ?_⟩
  · rw [h.contents.contains, Bool.and_eq_true, hl.block, loses.has_iff, and_comm]
    simp
  · rw [h.bodies.contains, Bool.and_eq_true, hl.function, loses.has_iff, and_comm]
    simp
  · rw [Layout.instructions, h.contents.members, List.mem_filter] at hi
    exact loses.has_iff.2 ⟨by simpa using hi.2, hl.instruction_of_mem hi.1⟩
  · rw [Layout.blocks, h.bodies.members, List.mem_filter] at hb
    exact loses.has_iff.2 ⟨by simpa using hb.2, hl.block_of_mem hb.1⟩

end Sheds

namespace Laid

variable {gone : List Value}

/-- What is no block and no instruction is not in the contents of blocks. -/
theorem contents_apart (h : l.Laid g)
    (other : ∀ v ∈ gone, ¬ g.Has .block v ∧ ¬ g.Has .instruction v) :
    l.contents.Sheds l.contents (decide <| ·.value ∈ gone) (decide <| ·.value ∈ gone) := by
  refine .of_apart h.contents (fun b hb => ?_) fun b i hi => ?_
  · simpa using fun hgone => (other _ hgone).1 (h.block.1 hb)
  · simpa using fun hgone => (other _ hgone).2 (h.instruction_of_mem hi)

/-- What is no function and no block is not in the bodies of functions. -/
theorem bodies_apart (h : l.Laid g)
    (other : ∀ v ∈ gone, ¬ g.Has .function v ∧ ¬ g.Has .block v) :
    l.bodies.Sheds l.bodies (decide <| ·.value ∈ gone) (decide <| ·.value ∈ gone) := by
  refine .of_apart h.bodies (fun f hf => ?_) fun f b hb => ?_
  · simpa using fun hgone => (other _ hgone).1 (h.function.1 hf)
  · simpa using fun hgone => (other _ hgone).2 (h.block_of_mem hb)

/-- Removing an instruction sheds this instruction. -/
theorem removeInstruction_sheds {i : Instruction} {o : Option Block} (h : l.Laid g)
    (hi : g.Has .instruction i.value) (run : Layout.removeInstruction i l = .ok o l') :
    l.Sheds l' [i.value] := by
  obtain ⟨n, hn, rfl⟩ := onContents_eq_ok_iff.1 run
  have block : ¬ g.Has .block i.value := hi.apart (by decide)
  have function : ¬ g.Has .function i.value := hi.apart (by decide)
  refine ⟨(Nest.remove_sheds h.contents hn).congr_of_linked h.contents (fun b hb => ?_)
    fun b j _ => by simp [Handle.ext_iff], h.bodies_apart (by simpa using ⟨function, block⟩)⟩
  have : b.value ≠ i.value := by
    intro heq
    exact block (heq ▸ h.block.1 hb)
  simp [this]

/-- A block without instructions leaves its function and gives up its list. -/
theorem dropBlock_sheds {b : Block} {o : Option Func} (h : l.Laid g) (hb : g.Has .block b.value)
    (empty : l.instructions b = []) (run : Layout.removeBlock b l = .ok o l') :
    l.Sheds (l'.dropBlock b) [b.value] := by
  obtain ⟨n, hn, rfl⟩ := onBodies_eq_ok_iff.1 run
  -- The value is shed as a block only; a live block is neither an instruction nor a function.
  refine ⟨(Nest.drop_sheds empty).congr_of_linked h.contents
    (fun b' _ => by simp [Handle.ext_iff]) fun b' i hi => ?_,
    (Nest.remove_sheds h.bodies hn).congr_of_linked h.bodies (fun f hf => ?_)
    fun f b' _ => by simp [Handle.ext_iff]⟩
  · have : i.value ≠ b.value := by
      intro heq
      have hi' := h.instruction_of_mem hi
      rw [heq] at hi'
      exact absurd hi' (hb.apart (by decide))
    simp [this]
  · have : f.value ≠ b.value := by
      intro heq
      have hf' := h.function.1 hf
      rw [heq] at hf'
      exact absurd hf' (hb.apart (by decide))
    simp [this]

/-- A function without blocks gives up its list, and its arguments are in no list. -/
theorem dropFunction_sheds {f : Func} {args : List Value} (h : l.Laid g)
    (hf : g.Has .function f.value) (empty : l.blocks f = [])
    (arguments : ∀ a ∈ args, g.Has .argument a) :
    l.Sheds (l.dropFunction f) (args ++ [f.value]) := by
  -- Arguments and functions are in no list of instructions or blocks.
  have other : ∀ v ∈ args ++ [f.value], ¬ g.Has .block v ∧ ¬ g.Has .instruction v := by
    intro v hv
    rcases List.mem_append.1 hv with hv | hv
    · have hv := arguments v hv
      exact ⟨hv.apart (by decide), hv.apart (by decide)⟩
    · rw [List.mem_singleton] at hv
      subst hv
      exact ⟨hf.apart (by decide), hf.apart (by decide)⟩
  refine ⟨h.contents_apart other,
    (Nest.drop_sheds empty).congr_of_linked h.bodies (fun f' hf' => ?_) fun f' b hb => ?_⟩
  · have : f'.value ∉ args := by
      intro ha
      exact absurd (h.function.1 hf') ((arguments _ ha).apart (by decide))
    simp [this, Handle.ext_iff]
  · simpa using fun hgone => (other _ hgone).1 (h.block_of_mem hb)

end Laid

end Layout

end SsaGraph
