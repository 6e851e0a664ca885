import SsaGraph.Inspect
import SsaGraph.Proofs.Handles

/-!
# Lists and parents agree

The order of blocks and instructions is kept twice: in the lists of functions and blocks, and in the
parents of blocks and instructions. `Arranged` says what the questions about it answer: no list has
anything twice, something is in a list exactly when the owner of the list is its parent, the live
blocks and functions are those that have a list, and neighbours and ends are those of the lists. It
holds in every context that class-checked requests lead to.
-/

namespace SsaGraph

namespace Context

variable {c : Context}

/-- Lists, parents, neighbours and ends agree. -/
structure Arranged (c : Context) : Prop where
  /-- No block has an instruction twice. -/
  nodup_instructions : ∀ b, (c.layout.instructions b).Nodup
  /-- No function has a block twice. -/
  nodup_blocks : ∀ f, (c.layout.blocks f).Nodup
  /-- The parent of an instruction is the block that has it. -/
  parentBlock : ∀ {i b}, c.layout.parentBlock? i = some b ↔ i ∈ c.layout.instructions b
  /-- An instruction is in one block at most. -/
  one_block : ∀ {i b b'}, i ∈ c.layout.instructions b → i ∈ c.layout.instructions b' → b = b'
  /-- An instruction without a parent is in no block. -/
  detached : ∀ {i}, c.layout.parentBlock? i = none → ∀ b, i ∉ c.layout.instructions b
  /-- The parent of a block is the function that has it. -/
  parentFunction : ∀ {b f}, c.layout.parentFunction? b = some f ↔ b ∈ c.layout.blocks f
  /-- The live blocks have a list of instructions. -/
  has_instructions : ∀ b, c.layout.contents.lists.contains b = true ↔ c.isa .block b.value = .ok true
  /-- The live functions have a list of blocks. -/
  has_blocks : ∀ f, c.layout.bodies.lists.contains f = true ↔ c.isa .function f.value = .ok true
  /-- The next instruction comes right after in the same block. -/
  next : ∀ {i j}, c.layout.nextInstruction? i = some j ↔
    ∃ b before after, c.layout.instructions b = before ++ i :: j :: after
  /-- The previous instruction comes right before in the same block. -/
  prev : ∀ {i j}, c.layout.prevInstruction? j = some i ↔
    ∃ b before after, c.layout.instructions b = before ++ i :: j :: after
  /-- The next block comes right after in the same function. -/
  nextBlock : ∀ {b b'}, c.layout.nextBlock? b = some b' ↔
    ∃ f before after, c.layout.blocks f = before ++ b :: b' :: after
  /-- The front of a block is its first instruction. -/
  front : ∀ {b i}, c.front? b = some i ↔ ∃ rest, c.layout.instructions b = i :: rest
  /-- The back of a block is its last instruction. -/
  back : ∀ {b i}, c.back? b = some i ↔ ∃ rest, c.layout.instructions b = rest ++ [i]
  /-- The entry of a function is its first block. -/
  entry : ∀ {f b}, c.entryBlock? f = some b ↔ ∃ rest, c.layout.blocks f = b :: rest

/-- A value is of a class exactly when asking for it says so. -/
theorem isa_eq_true_iff (hs : c.Sound) {cls : Class} {v : Value} :
    c.isa cls v = .ok true ↔ c.graph.Has cls v := by
  rw [isa_eq_ok_iff hs, Graph.has_iff]

/-- In every context that class-checked requests lead to, lists and parents agree. -/
theorem ReachedBy.arranged (hc : ClassChecked c) : c.Arranged := by
  have hs := hc.sound
  -- Every clause is one of the two nests, blocks of functions or instructions of blocks.
  obtain ⟨contents, bodies, block, function, -, -⟩ := hc.intact.layout
  exact
    { nodup_instructions := contents.nodup
      nodup_blocks := bodies.nodup
      parentBlock := contents.owner
      one_block := contents.eq_of_mem
      detached := contents.not_mem
      parentFunction := bodies.owner
      has_instructions := fun b => block.trans (isa_eq_true_iff hs).symm
      has_blocks := fun f => function.trans (isa_eq_true_iff hs).symm
      next := contents.next?_eq_some_iff
      prev := contents.prev?_eq_some_iff
      nextBlock := bodies.next?_eq_some_iff
      front := List.head?_eq_some_iff
      back := List.getLast?_eq_some_iff
      entry := List.head?_eq_some_iff }

/-- For instance, when an instruction was moved before another, and its block then taken out of the
function. -/
theorem arranged_after_move : ∃ c : Context,
    replay [.functionType ⟨⟨1⟩, 0⟩ [] false, .newFunction "f" ⟨⟨1⟩, 11⟩, .newBlock none,
      .appendBlock ⟨⟨⟨1⟩, 0⟩⟩ ⟨⟨⟨1⟩, 1⟩⟩, .unreachable { point := .atEnd ⟨⟨⟨1⟩, 1⟩⟩ },
      .br { point := .before ⟨⟨⟨1⟩, 2⟩⟩ } ⟨⟨⟨1⟩, 1⟩⟩, .moveBefore ⟨⟨⟨1⟩, 2⟩⟩ ⟨⟨⟨1⟩, 3⟩⟩,
      .removeBlock ⟨⟨⟨1⟩, 1⟩⟩] (.initial ⟨1⟩) = some c ∧
    c.layout.instructions ⟨⟨⟨1⟩, 1⟩⟩ = [⟨⟨⟨1⟩, 2⟩⟩, ⟨⟨⟨1⟩, 3⟩⟩] ∧ c.Arranged :=
  exists_replay _ _ (by decide +kernel) fun c hc _ => ReachedBy.arranged hc

end Context

end SsaGraph
