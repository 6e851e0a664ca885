import SsaGraph.Layout
import SsaGraph.Proofs.Nest

/-!
# Members of a layout

What the lists of a layout hold. Every request on a layout adds at most the one block or instruction
it was given, so a property of all members is kept if the new one has it (`Members`). None of them
is rejected: what can go wrong with a layout is a fault.
-/

namespace SsaGraph

namespace Layout

/-- Every block and instruction in a list satisfies `P`. -/
structure Members (P : Value → Prop) (l : Layout) : Prop where
  /-- The blocks of a function. -/
  blocks : ∀ {f b}, b ∈ l.blocks f → P b.value
  /-- The instructions of a block. -/
  instructions : ∀ {b i}, i ∈ l.instructions b → P i.value

variable {P : Value → Prop} {l l' : Layout}

/-! ## Reading back -/

/-- A run on the lists of instructions changes nothing else of the layout. -/
theorem onContents_eq_ok_iff {α : Type} {m : Run (Nest Block Instruction) α} {a : α} :
    onContents m l = .ok a l' ↔ ∃ n, m l.contents = .ok a n ∧ l' = { l with contents := n } :=
  Run.on_eq_ok_iff

/-- A run on the lists of blocks changes nothing else of the layout. -/
theorem onBodies_eq_ok_iff {α : Type} {m : Run (Nest Func Block) α} {a : α} :
    onBodies m l = .ok a l' ↔ ∃ n, m l.bodies = .ok a n ∧ l' = { l with bodies := n } :=
  Run.on_eq_ok_iff

/-! ## Changes of one list -/

namespace Members

/-- The members have a property if those of other lists of instructions do. -/
theorem contents (h : l.Members P) {n : Nest Block Instruction}
    (hn : ∀ {b i}, i ∈ n.members b → P i.value) : ({ l with contents := n } : Layout).Members P :=
  ⟨h.blocks, hn⟩

/-- The members have a property if those of other lists of blocks do. -/
theorem bodies (h : l.Members P) {n : Nest Func Block}
    (hn : ∀ {f b}, b ∈ n.members f → P b.value) : ({ l with bodies := n } : Layout).Members P :=
  ⟨hn, h.instructions⟩

/-- Adding a list of instructions adds no members. -/
theorem addBlock (h : l.Members P) (b : Block) : (l.addBlock b).Members P := by
  refine h.contents fun {b' i} hi => ?_
  rw [Nest.members_add] at hi
  split at hi
  · simp at hi
  · exact h.instructions hi

/-- Dropping a list of instructions adds no members. -/
theorem dropBlock (h : l.Members P) (b : Block) : (l.dropBlock b).Members P := by
  refine h.contents fun {b' i} hi => ?_
  rw [Nest.members_drop] at hi
  split at hi
  · simp at hi
  · exact h.instructions hi

/-- Adding a list of blocks adds no members. -/
theorem addFunction (h : l.Members P) (f : Func) : (l.addFunction f).Members P := by
  refine h.bodies fun {f' b} hb => ?_
  rw [Nest.members_add] at hb
  split at hb
  · simp at hb
  · exact h.blocks hb

/-- Dropping a list of blocks adds no members. -/
theorem dropFunction (h : l.Members P) (f : Func) : (l.dropFunction f).Members P := by
  refine h.bodies fun {f' b} hb => ?_
  rw [Nest.members_drop] at hb
  split at hb
  · simp at hb
  · exact h.blocks hb

end Members

/-! ## Requests -/

/-- Appending an instruction adds this member only. -/
theorem appendInstruction_members {b : Block} {i : Instruction} {a : Unit} (hi : P i.value)
    (run : appendInstruction b i l = .ok a l') (hl : l.Members P) : l'.Members P := by
  obtain ⟨n, h, rfl⟩ := onContents_eq_ok_iff.1 run
  refine hl.contents fun {b' j} hj => ?_
  rcases Nest.append_mem h hj with rfl | hj
  · exact hi
  · exact hl.instructions hj

/-- Inserting an instruction adds this member only. -/
theorem insertInstruction_members {anchor i : Instruction} {a : Unit} (hi : P i.value)
    (run : insertInstruction anchor i l = .ok a l') (hl : l.Members P) : l'.Members P := by
  obtain ⟨n, h, rfl⟩ := onContents_eq_ok_iff.1 run
  refine hl.contents fun {b' j} hj => ?_
  rcases Nest.insert_mem h hj with rfl | hj
  · exact hi
  · exact hl.instructions hj

/-- Removing an instruction adds no members. -/
theorem removeInstruction_members {i : Instruction} {a : Option Block}
    (run : removeInstruction i l = .ok a l') (hl : l.Members P) : l'.Members P := by
  obtain ⟨n, h, rfl⟩ := onContents_eq_ok_iff.1 run
  exact hl.contents fun {b' j} hj => hl.instructions (Nest.remove_mem h hj)

/-- Appending a block adds this member only. -/
theorem appendBlock_members {f : Func} {b : Block} {a : Unit} (hb : P b.value)
    (run : appendBlock f b l = .ok a l') (hl : l.Members P) : l'.Members P := by
  obtain ⟨n, h, rfl⟩ := onBodies_eq_ok_iff.1 run
  refine hl.bodies fun {f' b'} hb' => ?_
  rcases Nest.append_mem h hb' with rfl | hb'
  · exact hb
  · exact hl.blocks hb'

/-- Inserting a block adds this member only. -/
theorem insertBlock_members {anchor b : Block} {a : Unit} (hb : P b.value)
    (run : insertBlock anchor b l = .ok a l') (hl : l.Members P) : l'.Members P := by
  obtain ⟨n, h, rfl⟩ := onBodies_eq_ok_iff.1 run
  refine hl.bodies fun {f' b'} hb' => ?_
  rcases Nest.insert_mem h hb' with rfl | hb'
  · exact hb
  · exact hl.blocks hb'

/-- Removing a block adds no members. -/
theorem removeBlock_members {b : Block} {a : Option Func} (run : removeBlock b l = .ok a l')
    (hl : l.Members P) : l'.Members P := by
  obtain ⟨n, h, rfl⟩ := onBodies_eq_ok_iff.1 run
  exact hl.bodies fun {f' b'} hb' => hl.blocks (Nest.remove_mem h hb')

/-! ## No request is rejected -/

/-- Appending an instruction in the layout is not rejected. -/
theorem appendInstruction_firm (b : Block) (i : Instruction) (l : Layout) :
    Run.Firm (appendInstruction b i) l :=
  .on (Nest.append_firm _)

/-- Inserting an instruction in the layout is not rejected. -/
theorem insertInstruction_firm (anchor i : Instruction) (l : Layout) :
    Run.Firm (insertInstruction anchor i) l :=
  .on (Nest.insert_firm _)

/-- Removing an instruction from the layout is not rejected. -/
theorem removeInstruction_firm (i : Instruction) (l : Layout) :
    Run.Firm (removeInstruction i) l :=
  .on (Nest.remove_firm _)

/-- Appending a block in the layout is not rejected. -/
theorem appendBlock_firm (f : Func) (b : Block) (l : Layout) : Run.Firm (appendBlock f b) l :=
  .on (Nest.append_firm _)

/-- Inserting a block in the layout is not rejected. -/
theorem insertBlock_firm (anchor b : Block) (l : Layout) : Run.Firm (insertBlock anchor b) l :=
  .on (Nest.insert_firm _)

/-- Removing a block from the layout is not rejected. -/
theorem removeBlock_firm (b : Block) (l : Layout) : Run.Firm (removeBlock b) l :=
  .on (Nest.remove_firm _)

end Layout

end SsaGraph
