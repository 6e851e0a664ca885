import SsaGraph.Proofs.Context.Rejection
import SsaGraph.Proofs.Context.Upkeep
import SsaGraph.Proofs.Graph.Calm

/-!
# Erasing

What an erasure does to a context is told by `Sheds`: the operand slots of some users are emptied,
some of these users go, and with them goes everything that was kept about them; all else is as it
was. Erasing an instruction sheds the instruction, erasing a block sheds its extent, the block and
its instructions, and erasing a function sheds the function, its arguments and the extents of its
blocks. In between operand slots are emptied and nothing goes.

An erasure causes no fault if what is shed is used by nothing else. The operand slots of what is
shed are emptied first, so from then on nothing points to it at all, and each of the checks that
follow is passed.
-/

namespace SsaGraph

open Run (Calm)

namespace Layout

/-- A block and its instructions. -/
def extent (l : Layout) (b : Block) : List Value :=
  b.value :: (l.instructions b).map (·.value)

/-- What goes with a block is the block or an instruction. -/
theorem Laid.of_mem_extent {l : Layout} {g : Graph} {b : Block} {v : Value} (h : l.Laid g)
    (hb : g.Has .block b.value) (hv : v ∈ l.extent b) : g.Has .block v ∨ g.Has .instruction v := by
  rcases List.mem_cons.1 hv with rfl | hv
  · exact .inl hb
  · obtain ⟨i, hi, rfl⟩ := List.mem_map.1 hv
    exact .inr (h.instruction_of_mem hi)

/-- What goes with the blocks of a function is a block or an instruction. -/
theorem Laid.of_mem_extents {l : Layout} {g : Graph} {f : Func} {v : Value} (h : l.Laid g)
    (hv : v ∈ (l.blocks f).flatMap l.extent) : g.Has .block v ∨ g.Has .instruction v := by
  obtain ⟨b, hb, hv⟩ := List.mem_flatMap.1 hv
  exact h.of_mem_extent (h.block_of_mem hb) hv

end Layout

namespace Context

variable {c c' c'' : Context} {users users' gone gone' : List Value} {a : Unit}

/-- The operand slots of the users are emptied, and those that are gone are gone from everything
that the context keeps. -/
structure Sheds (c c' : Context) (users gone : List Value) : Prop where
  /-- The context is the same. -/
  id : c'.id = c.id
  /-- The types are the same. -/
  types : c'.types = c.types
  /-- The pool of constants is the same. -/
  pool : c'.pool = c.pool
  /-- The users are cut off. -/
  graph : c.graph.Cut c'.graph users gone
  /-- What is gone has left the layout. -/
  layout : c.layout.Sheds c'.layout gone
  /-- The functions that are gone are no longer listed. -/
  functions : c'.functions = c.functions.filter (·.value ∉ gone)
  /-- The functions that are gone are no longer known by their names. -/
  names : ∀ name, c'.names.get? name = (c.names.get? name).filter (·.value ∉ gone)

namespace Sheds

/-- What is shed depends on the values only, not on their order. -/
theorem congr (h : c.Sheds c' users gone) (hu : ∀ v, v ∈ users' ↔ v ∈ users)
    (hg : ∀ v, v ∈ gone' ↔ v ∈ gone) : c.Sheds c' users' gone' := by
  refine ⟨h.id, h.types, h.pool, h.graph.congr hu hg, h.layout.congr hg, ?_, fun name => ?_⟩
  · simpa only [hg] using h.functions
  · simpa only [hg] using h.names name

/-- Shedding twice sheds both. -/
theorem trans (h : c.Sheds c' users gone) (h' : c'.Sheds c'' users' gone') :
    c.Sheds c'' (users ++ users') (gone ++ gone') := by
  refine ⟨h'.id.trans h.id, h'.types.trans h.types, h'.pool.trans h.pool, h.graph.trans h'.graph,
    h.layout.trans h'.layout, ?_, fun name => ?_⟩
  · rw [h'.functions, h.functions, List.filter_filter]
    refine List.filter_congr fun f _ => ?_
    simp [Bool.and_comm]
  · rw [h'.names, h.names, Option.filter_filter]
    congr 1
    funext f
    simp

/-- What is alive afterwards. -/
theorem has_iff (h : c.Sheds c' users gone) {cls : Class} {v : Value} :
    c'.graph.Has cls v ↔ v ∉ gone ∧ c.graph.Has cls v := h.graph.reduced.loses.has_iff

/-- No function goes. -/
theorem of_other (hi : c.Intact) {graph : Graph} {layout : Layout}
    (cut : c.graph.Cut graph users gone) (shed : c.layout.Sheds layout gone)
    (other : ∀ v ∈ gone, ¬ c.graph.Has .function v) :
    c.Sheds { c with graph, layout } users gone := by
  refine ⟨rfl, rfl, rfl, cut, shed, (List.filter_eq_self.2 fun f hf => ?_).symm, fun name => ?_⟩
  · simpa using fun hgone => other _ hgone (hi.functions.mem.1 hf)
  · cases hf : c.names.get? name with
    | none => rfl
    | some f =>
      obtain ⟨x, hx, hkind, -⟩ := hi.functions.entry.1 hf
      rw [Option.filter_some, if_pos]
      simpa using fun hgone => other _ hgone ⟨x, hx, hkind⟩

/-- Nothing goes. -/
theorem of_cut (hi : c.Intact) {graph : Graph} (cut : c.graph.Cut graph users []) :
    c.Sheds { c with graph } users [] :=
  .of_other hi cut ⟨hi.layout.contents_apart (by simp), hi.layout.bodies_apart (by simp)⟩ (by simp)

/-- A context stays intact if no constant goes, and with a function go its arguments. -/
theorem intact (h : c.Sheds c' users gone) (hi : c.Intact)
    (whole : ∀ {v ty name f i}, c.graph.face? v = some ⟨ty, name, .argument f i⟩ →
      (v ∈ gone ↔ f.value ∈ gone))
    (constant : ∀ v ∈ gone, ¬ c.graph.Has .constant v) : c'.Intact := by
  have loses := h.graph.reduced.loses
  refine ⟨h.layout.laid hi.layout loses, hi.functions.lose loses h.functions h.names,
    hi.arguments.remove loses whole, ?_, ?_, ?_⟩
  · rw [h.pool]
    exact hi.pool.same (loses.fixed constant).same
  · rw [h.types]
    exact hi.types.loses loses
  · rw [h.types]
    exact hi.signatures.remove loses whole

/-- A context stays intact if only blocks and instructions go. -/
theorem intact_of_body (h : c.Sheds c' users gone) (hi : c.Intact)
    (body : ∀ v ∈ gone, c.graph.Has .block v ∨ c.graph.Has .instruction v) : c'.Intact := by
  have other : ∀ cls, cls ∈ Class.sorts → cls ≠ .block → cls ≠ .instruction →
      ∀ v ∈ gone, ¬ c.graph.Has cls v := by
    intro cls sort hb hi v hv hcls
    rcases body v hv with h | h
    · exact hb (hcls.sort_eq h sort (by decide))
    · exact hi (hcls.sort_eq h sort (by decide))
  refine h.intact hi (fun {v ty name f i} hv => ?_) (other _ (by decide) (by decide) (by decide))
  obtain ⟨ty', name', fnType, args, hf, -⟩ := hi.arguments.parent hv
  constructor
  · exact fun hgone =>
      absurd ⟨_, hv, rfl⟩ (other .argument (by decide) (by decide) (by decide) v hgone)
  · exact fun hgone =>
      absurd ⟨_, hf, rfl⟩ (other .function (by decide) (by decide) (by decide) _ hgone)

end Sheds

/-! ## Instructions -/

/-- Checking a value of a class does not end the run. -/
theorem check_calm {cls : Class} {v : Value} (hv : c.graph.Has cls v) :
    Question.Calm (c.check v) := by
  intro e h
  rw [check_eq_ok_iff (a := ()).2 hv.value?] at h
  cases h

/-- A value that nothing points to passes the check for uses. -/
theorem ensureUnused_eq_ok {g : Graph} {vs : List Value} {v : Value} {d : ValueData}
    (unused : g.UsedBy vs []) (hc : g.Coherent) (hv : v ∈ vs) (hd : g.value? v = some d) :
    ∃ a, g.ensureUnused v = .ok a :=
  ⟨(), by simp [Graph.ensureUnused, Graph.value_eq_ok_iff.2 hd, unused.unused hc hv hd]⟩

/-- The steps of the erasure of an instruction. -/
theorem eraseInstruction_eq_ok {i : Instruction} (run : eraseInstruction i c = .ok a c') :
    ∃ d o layout graph, c.graph.value? i.value = some d ∧ d.numUses = 0 ∧
      Layout.removeInstruction i c.layout = .ok o layout ∧
      Graph.removeValue i.value c.graph = .ok () graph ∧ c' = { c with layout, graph } := by
  simp only [eraseInstruction, Run.bind_eq_ok_iff, Run.get_apply, Run.question_eq_ok_iff,
    Run.faulting_eq_ok_iff] at run
  -- The checks change nothing; what is left is a change of the layout and one of the graph.
  obtain ⟨_, _, h₀, _, _, ⟨-, rfl⟩, _, _, ⟨-, rfl⟩, _, _, hl, hg⟩ := run
  cases h₀
  obtain ⟨o, hl, -⟩ := Run.map_eq_ok_iff.1 hl
  obtain ⟨layout, removed, rfl⟩ := Run.on_eq_ok_iff.1 hl
  obtain ⟨graph, dropped, rfl⟩ := onGraph_ok hg
  obtain ⟨d, hd, unused⟩ := Graph.removeValue_eq_ok dropped
  exact ⟨d, o, layout, graph, hd, unused, removed, dropped, rfl⟩

/-- The erasure of an instruction sheds this instruction. -/
theorem eraseInstruction_sheds {i : Instruction} (hs : c.Sound) (hi : c.Intact)
    (hv : c.graph.Has .instruction i.value) (run : eraseInstruction i c = .ok a c') :
    c.Sheds c' [i.value] [i.value] := by
  obtain ⟨d, o, layout, graph, -, -, hl, hg, rfl⟩ := eraseInstruction_eq_ok run
  refine .of_other hi (.remove (Graph.removeValue_reduced hs.graph hg).2)
    (hi.layout.removeInstruction_sheds hv hl) ?_
  intro v hgone hf
  rw [List.mem_singleton] at hgone
  subst hgone
  exact absurd hf (hv.apart (by decide))

/-- The erasure of an instruction does not end the run if nothing uses it. -/
theorem eraseInstruction_calm {i : Instruction} (hs : c.Sound) (hi : c.Intact)
    (hv : c.graph.Has .instruction i.value) (unused : c.graph.UsedBy [i.value] []) :
    Calm (eraseInstruction i) c := by
  obtain ⟨d, hd⟩ := hv.value?
  refine .get_bind (.ask (check_calm hv) fun _ _ =>
    .answered (ensureUnused_eq_ok unused hs.graph (by simp) hd) fun _ _ => ?_)
  refine .bind (.map (.on (.on hi.layout.contents.remove_calm))) fun _ c₁ removed => ?_
  obtain ⟨_, removed, -⟩ := Run.map_eq_ok_iff.1 removed
  obtain ⟨layout, -, rfl⟩ := Run.on_eq_ok_iff.1 removed
  obtain ⟨g, run, -⟩ :=
    Graph.removeValue_run hs.graph hd (unused.unused hs.graph (by simp) hd)
  exact .on (.of_ok run)

/-- What a loop needs that erases values of a class one after the other. -/
structure Holds (c : Context) {cls : Class} (xs : List (Handle cls)) : Prop where
  /-- The parts of the context are in order. -/
  sound : c.Sound
  /-- What is kept about values is about live ones. -/
  intact : c.Intact
  /-- None of the values comes twice. -/
  nodup : xs.Nodup
  /-- The values are alive and of the class. -/
  alive : ∀ x ∈ xs, c.graph.Has cls x.value

/-- After the first is erased, the context still holds the others. -/
theorem Holds.tail {cls : Class} {x : Handle cls} {xs : List (Handle cls)} (h : c.Holds (x :: xs))
    (chain : Relation.ReflTransGen Local c c') (shed : c.Sheds c' users gone)
    (body : ∀ v ∈ gone, c.graph.Has .block v ∨ c.graph.Has .instruction v)
    (apart : ∀ y ∈ xs, y ≠ x → y.value ∉ gone) : c'.Holds xs := by
  obtain ⟨hout, nodup⟩ := List.nodup_cons.1 h.nodup
  refine ⟨h.sound.locals chain, shed.intact_of_body h.intact body, nodup,
    fun y hy => shed.has_iff.2 ⟨apart y hy ?_, h.alive y (List.mem_cons_of_mem _ hy)⟩⟩
  rintro rfl
  exact hout hy

/-- After the erasure of the first instruction the others can still be erased. -/
theorem Holds.eraseInstruction {i : Instruction} {is : List Instruction} (h : c.Holds (i :: is))
    (run : eraseInstruction i c = .ok a c') : c'.Holds is ∧ c.Sheds c' [i.value] [i.value] := by
  have hv := h.alive i (List.mem_cons_self ..)
  have shed := eraseInstruction_sheds h.sound h.intact hv run
  refine ⟨h.tail (eraseInstruction_steps _ _ run) shed (by simpa using .inr hv) ?_, shed⟩
  intro j _ hne
  simpa [Handle.ext_iff] using hne

/-- Instructions are erased one after the other. -/
theorem eraseInstructions_sheds {is : List Instruction} (h : c.Holds is)
    (run : is.forM eraseInstruction c = .ok a c') :
    c'.Holds ([] : List Instruction) ∧ c.Sheds c' (is.map (·.value)) (is.map (·.value)) := by
  induction is generalizing c with
  | nil =>
    cases run
    exact ⟨h, .of_cut h.intact (.refl _)⟩
  | cons i is ih =>
    rw [List.forM_eq_forM, List.forM_cons, Run.bind_eq_ok_iff] at run
    obtain ⟨_, c₁, h₁, h₂⟩ := run
    obtain ⟨hold, shed⟩ := h.eraseInstruction h₁
    obtain ⟨hold', shed'⟩ := ih hold h₂
    exact ⟨hold', shed.trans shed'⟩

/-- The erasure of instructions that nothing uses does not end the run. -/
theorem eraseInstructions_calm {is : List Instruction} (h : c.Holds is)
    (unused : c.graph.UsedBy (is.map (·.value)) []) : Calm (is.forM eraseInstruction) c := by
  refine .forM_left (P := fun is c => c.Holds is ∧ c.graph.UsedBy (is.map (·.value)) [])
    (fun {i is c c₁ a} ⟨h, unused⟩ run => ?_) (fun {i is c} ⟨h, unused⟩ => ?_) is ⟨h, unused⟩
  · obtain ⟨hold, shed⟩ := h.eraseInstruction run
    exact ⟨hold, (unused.sub (by simp)).cut shed.graph h.sound.graph (List.nil_subset _)⟩
  · exact eraseInstruction_calm h.sound h.intact (h.alive i (List.mem_cons_self ..))
      (unused.sub (by simp))

/-! ## Blocks -/

/-- A loop whose rounds cut off users in the graph, and change nothing else, cuts off the users of
all rounds. What a round cuts off may depend on the layout, which stays as it is. -/
theorem forM_cut {α : Type} {f : α → Run Context Unit} (users gone : Layout → α → List Value)
    (step : ∀ {x c a c'}, c.graph.Coherent → f x c = .ok a c' → ∃ graph, c' = { c with graph } ∧
      graph.Coherent ∧ c.graph.Cut graph (users c.layout x) (gone c.layout x))
    {xs : List α} (hg : c.graph.Coherent) (run : xs.forM f c = .ok a c') :
    ∃ graph, c' = { c with graph } ∧ graph.Coherent ∧
      c.graph.Cut graph (xs.flatMap (users c.layout)) (xs.flatMap (gone c.layout)) := by
  induction xs generalizing c with
  | nil =>
    cases run
    exact ⟨_, rfl, hg, .refl _⟩
  | cons x xs ih =>
    rw [List.forM_eq_forM, List.forM_cons, Run.bind_eq_ok_iff] at run
    obtain ⟨_, c₁, h₁, h₂⟩ := run
    obtain ⟨g, rfl, coherent, cut⟩ := step hg h₁
    obtain ⟨graph, rfl, coherent', cut'⟩ := ih coherent h₂
    exact ⟨graph, rfl, coherent', cut.trans cut'⟩

/-- The operand slots of the instructions of a block are emptied one after the other. -/
theorem releaseBlock_cut {b : Block} (hg : c.graph.Coherent) (run : releaseBlock b c = .ok a c') :
    ∃ graph, c' = { c with graph } ∧ graph.Coherent ∧
      c.graph.Cut graph ((c.layout.instructions b).map (·.value)) [] := by
  have loop := forM_cut (fun _ i => [i.value]) (fun _ _ => []) (fun {i c a c'} hg run => ?_) hg run
  · obtain ⟨g, rfl, coherent, cut⟩ := loop
    exact ⟨g, rfl, coherent, cut.congr (fun v => by simp [eq_comm]) fun v => by simp⟩
  · obtain ⟨g, hg₁, rfl⟩ := onGraph_ok run
    obtain ⟨coherent, reduced⟩ := Graph.dropAllReferences_reduced hg hg₁
    exact ⟨g, rfl, coherent, .empty reduced⟩

/-- Releasing a block does not end the run. -/
theorem releaseBlock_calm {b : Block} (hg : c.graph.Coherent) (hl : c.layout.Laid c.graph) :
    Calm (releaseBlock b) c := by
  refine .get_bind (.forM (P := fun c' => c'.graph.Coherent ∧ ∀ i ∈ c.layout.instructions b,
    c'.graph.Has .instruction i.value) _ (fun i hi c₁ c₂ a h run => ?_) (fun i hi c₁ h => ?_) c
    ⟨hg, fun i hi => hl.instruction_of_mem hi⟩)
  · obtain ⟨g, hg₁, rfl⟩ := onGraph_ok run
    obtain ⟨coherent, reduced⟩ := Graph.dropAllReferences_reduced h.1 hg₁
    exact ⟨coherent, fun j hj => reduced.loses.has_iff.2 ⟨by simp, h.2 j hj⟩⟩
  · obtain ⟨d, hd⟩ := (h.2 i hi).value?
    obtain ⟨g, run, -⟩ := Graph.dropAllReferences_run h.1 hd
    exact .on (.of_ok run)

/-- The steps of the erasure of a block. -/
theorem eraseBlock_eq_ok {b : Block} (run : eraseBlock b c = .ok a c') :
    ∃ c₁ c₂ o layout graph, c.check b.value = .ok () ∧ releaseBlock b c = .ok () c₁ ∧
      (c.layout.instructions b).forM eraseInstruction c₁ = .ok () c₂ ∧
      Layout.removeBlock b c₂.layout = .ok o layout ∧
      Graph.removeValue b.value c₂.graph = .ok () graph ∧
      c' = { c₂ with layout := layout.dropBlock b, graph } := by
  -- The steps of the run are read off in the order in which they are made.
  simp only [eraseBlock, Run.bind_eq_ok_iff, Run.get_apply, Run.question_eq_ok_iff,
    Run.faulting_eq_ok_iff] at run
  obtain ⟨_, _, h₀, _, _, ⟨check, rfl⟩, _, _, h₁, _, c₁, release, _, _, h₂, _, _, ⟨-, rfl⟩, _, c₂,
    loop, _, _, hl, _, _, hdrop, hg⟩ := run
  cases h₀
  cases h₁
  cases h₂
  obtain ⟨o, hl, -⟩ := Run.map_eq_ok_iff.1 hl
  obtain ⟨layout, removed, rfl⟩ := Run.on_eq_ok_iff.1 hl
  obtain ⟨_, dropped, rfl⟩ := Run.on_eq_ok_iff.1 hdrop
  cases dropped
  obtain ⟨graph, gone, rfl⟩ := onGraph_ok hg
  exact ⟨c₁, c₂, o, layout, graph, check, release, loop, removed, gone, rfl⟩

/-- The instructions of a block are cut off, and still there. -/
theorem releaseBlock_sheds {b : Block} (hs : c.Sound) (hi : c.Intact)
    (run : releaseBlock b c = .ok a c') :
    c'.Holds (c.layout.instructions b) ∧
      c.Sheds c' ((c.layout.instructions b).map (·.value)) [] := by
  have hs' := hs.locals (releaseBlock_steps _ _ run)
  obtain ⟨g, rfl, -, cut⟩ := releaseBlock_cut hs.graph run
  have shed := Sheds.of_cut hi cut
  exact ⟨⟨hs', shed.intact_of_body hi (by simp), hi.layout.contents.nodup b,
    fun i hi' => shed.has_iff.2 ⟨by simp, hi.layout.instruction_of_mem hi'⟩⟩, shed⟩

/-- After its instructions are erased, a block is still there and empty. -/
theorem stripBlock_sheds {b : Block} (hs : c.Sound) (hi : c.Intact)
    (hb : c.graph.Has .block b.value) {c₁ c₂ : Context} (release : releaseBlock b c = .ok () c₁)
    (loop : (c.layout.instructions b).forM eraseInstruction c₁ = .ok () c₂) :
    c₂.Holds [b] ∧ c₂.layout.instructions b = [] ∧
      c.Sheds c₂ ((c.layout.instructions b).map (·.value))
        ((c.layout.instructions b).map (·.value)) := by
  -- Two phases: the operands of the instructions are dropped, then the instructions go one by one.
  obtain ⟨hold₁, shed₁⟩ := releaseBlock_sheds hs hi release
  obtain ⟨hold₂, shed₂⟩ := eraseInstructions_sheds hold₁ loop
  have shed : c.Sheds c₂ ((c.layout.instructions b).map (·.value))
      ((c.layout.instructions b).map (·.value)) :=
    (shed₁.trans shed₂).congr (fun v => by simp) fun v => by simp
  refine ⟨⟨hold₂.sound, hold₂.intact, by simp, ?_⟩, ?_, shed⟩
  · -- The block is not one of its instructions.
    rintro b' hb'
    rw [List.mem_singleton] at hb'
    subst hb'
    refine shed.has_iff.2 ⟨fun hmem => ?_, hb⟩
    obtain ⟨i, hi', heq⟩ := List.mem_map.1 hmem
    have hi'' := hi.layout.instruction_of_mem hi'
    rw [heq] at hi''
    exact absurd hi'' (hb.apart (by decide))
  · rw [Layout.instructions, shed.layout.contents.members, List.filter_eq_nil_iff]
    intro i hi
    simpa using ⟨i, hi, rfl⟩

/-- The erasure of a block sheds the block and its instructions. -/
theorem eraseBlock_sheds {b : Block} (hs : c.Sound) (hi : c.Intact)
    (hb : c.graph.Has .block b.value) (run : eraseBlock b c = .ok a c') :
    c.Sheds c' (c.layout.extent b) (c.layout.extent b) := by
  obtain ⟨c₁, c₂, o, layout, graph, -, release, loop, removed, gone, rfl⟩ := eraseBlock_eq_ok run
  obtain ⟨hold, empty, shed⟩ := stripBlock_sheds hs hi hb release loop
  have hb₂ := hold.alive b (by simp)
  have last : c₂.Sheds { c₂ with layout := layout.dropBlock b, graph } [b.value] [b.value] := by
    refine .of_other hold.intact (.remove (Graph.removeValue_reduced hold.sound.graph gone).2)
      (hold.intact.layout.dropBlock_sheds hb₂ empty removed) fun v hv hf => ?_
    rw [List.mem_singleton] at hv
    subst hv
    exact absurd hf (hb₂.apart (by decide))
  exact (shed.trans last).congr (fun v => by simp [Layout.extent, or_comm])
    fun v => by simp [Layout.extent, or_comm]

/-- The erasure of a block does not end the run if only its own instructions use what goes. -/
theorem eraseBlock_calm {b : Block} (hs : c.Sound) (hi : c.Intact)
    (hb : c.graph.Has .block b.value)
    (used : c.graph.UsedBy (c.layout.extent b) ((c.layout.instructions b).map (·.value))) :
    Calm (eraseBlock b) c := by
  refine .get_bind (.ask (check_calm hb) fun _ _ => .get_bind
    (.bind (releaseBlock_calm hs.graph hi.layout) fun _ c₁ release => .get_bind ?_))
  obtain ⟨hold₁, shed₁⟩ := releaseBlock_sheds hs hi release
  -- The uses by the instructions of the block were the only ones, and are gone.
  have unused := used.cut shed₁.graph hs.graph (List.Subset.refl _)
  obtain ⟨d₁, hd₁⟩ := (shed₁.has_iff.2 ⟨by simp, hb⟩).value?
  refine .answered (ensureUnused_eq_ok unused hold₁.sound.graph (by simp [Layout.extent]) hd₁)
    fun _ _ => .bind ?_ fun _ c₂ loop => ?_
  · exact eraseInstructions_calm hold₁ (unused.sub (by simp [Layout.extent]))
  obtain ⟨hold₂, -, shed₂⟩ := stripBlock_sheds hs hi hb release loop
  refine .bind (.map (.on (.on hold₂.intact.layout.bodies.remove_calm))) fun _ c₃ removed =>
    .bind (.on .modify) fun _ c₄ dropped => ?_
  obtain ⟨_, removed, -⟩ := Run.map_eq_ok_iff.1 removed
  obtain ⟨layout, -, rfl⟩ := Run.on_eq_ok_iff.1 removed
  obtain ⟨_, -, rfl⟩ := Run.on_eq_ok_iff.1 dropped
  -- The block itself goes last, and nothing points to it.
  obtain ⟨d₂, hd₂⟩ := (hold₂.alive b (by simp)).value?
  have unused₂ := used.cut shed₂.graph hs.graph (List.Subset.refl _)
  obtain ⟨g, run, -⟩ := Graph.removeValue_run hold₂.sound.graph hd₂
    (unused₂.unused hold₂.sound.graph (by simp [Layout.extent]) hd₂)
  exact .on (.of_ok run)

/-! ## Functions -/

/-- The instructions in the blocks of a function. -/
def body (c : Context) (f : Func) : List Value :=
  (c.layout.blocks f).flatMap fun b => (c.layout.instructions b).map (·.value)

/-- A function, its arguments, and its blocks with their instructions. -/
def extent (c : Context) (f : Func) (args : List Argument) : List Value :=
  args.map (·.value) ++ f.value :: (c.layout.blocks f).flatMap c.layout.extent

/-- The body of a function consists of instructions. -/
theorem has_of_mem_body (hi : c.Intact) {f : Func} {v : Value} (hv : v ∈ c.body f) :
    c.graph.Has .instruction v := by
  obtain ⟨b, -, hv⟩ := List.mem_flatMap.1 hv
  obtain ⟨i, hmem, rfl⟩ := List.mem_map.1 hv
  exact hi.layout.instruction_of_mem hmem

section

variable {f : Func} {ty fnType : Ty} {name : Option String} {args : List Argument} (hi : c.Intact)
  (hf : c.graph.face? f.value = some ⟨ty, name, .function fnType args⟩)

include hi hf

/-- What goes with a function is an argument, the function, one of its blocks or an instruction in
one of them. -/
theorem of_mem_extent {v : Value} (hv : v ∈ c.extent f args) :
    (c.graph.Has .argument v ∧ v ∈ args.map (·.value)) ∨ v = f.value ∨
      (∃ b ∈ c.layout.blocks f, v = b.value) ∨ v ∈ c.body f := by
  rcases List.mem_append.1 hv with harg | hv
  · obtain ⟨x, hx, rfl⟩ := List.mem_map.1 harg
    exact .inl ⟨hi.arguments.has_argument hf hx, harg⟩
  rcases List.mem_cons.1 hv with rfl | hv
  · exact .inr (.inl rfl)
  obtain ⟨b, hb, hv⟩ := List.mem_flatMap.1 hv
  rcases List.mem_cons.1 hv with rfl | hv
  · exact .inr (.inr (.inl ⟨b, hb, rfl⟩))
  · exact .inr (.inr (.inr (List.mem_flatMap.2 ⟨b, hb, hv⟩)))

/-- With a function no other function goes. -/
theorem function_mem_extent_iff {f' : Func} (hf' : c.graph.Has .function f'.value) :
    f'.value ∈ c.extent f args ↔ f' = f := by
  constructor
  · intro hmem
    rcases of_mem_extent hi hf hmem with ⟨harg, -⟩ | heq | ⟨b, hb, heq⟩ | hbody
    · exact absurd harg (hf'.apart (by decide))
    · exact Handle.ext heq
    · rw [heq] at hf'
      exact absurd (hi.layout.block_of_mem hb) (hf'.apart (by decide))
    · exact absurd (has_of_mem_body hi hbody) (hf'.apart (by decide))
  · rintro rfl
    exact List.mem_append_right _ (List.mem_cons_self ..)

/-- With a function go its arguments and no others. -/
theorem argument_mem_extent_iff {v : Value} {ty' : Ty} {name' : Option String} {f' : Func} {i : Nat}
    (hv : c.graph.face? v = some ⟨ty', name', .argument f' i⟩) :
    v ∈ c.extent f args ↔ f' = f := by
  have argument : c.graph.Has .argument v := ⟨_, hv, rfl⟩
  constructor
  · intro hmem
    -- What goes with a function has four sorts, and an argument can only be of the first.
    rcases of_mem_extent hi hf hmem with ⟨-, hmem⟩ | rfl | ⟨b, hb, rfl⟩ | hbody
    · -- What the function lists is an argument of that function.
      obtain ⟨x, hx, rfl⟩ := List.mem_map.1 hmem
      obtain ⟨j, hj⟩ := List.mem_iff_getElem?.1 hx
      obtain ⟨_, _, hx'⟩ := hi.arguments.argument hf hj
      rw [hv] at hx'
      cases hx'
      rfl
    · rw [hf] at hv
      cases hv
    · exact absurd (hi.layout.block_of_mem hb) (argument.apart (by decide))
    · exact absurd (has_of_mem_body hi hbody) (argument.apart (by decide))
  · rintro rfl
    obtain ⟨_, _, _, args', hf', hlist⟩ := hi.arguments.parent hv
    rw [hf] at hf'
    cases hf'
    exact List.mem_append_left _ (List.mem_map.2 ⟨⟨v⟩, List.mem_of_getElem? hlist, rfl⟩)

end

/-- Releasing blocks cuts the uses that their instructions make. -/
theorem releaseBlocks_cut {bs : List Block} (hg : c.graph.Coherent)
    (run : bs.forM releaseBlock c = .ok a c') :
    ∃ graph, c' = { c with graph } ∧ graph.Coherent ∧
      c.graph.Cut graph (bs.flatMap fun b => (c.layout.instructions b).map (·.value)) [] := by
  have loop := forM_cut (fun l b => (l.instructions b).map (·.value)) (fun _ _ => [])
    releaseBlock_cut hg run
  obtain ⟨g, rfl, coherent, cut⟩ := loop
  exact ⟨g, rfl, coherent, cut.congr (fun _ => Iff.rfl) fun v => by simp⟩

/-- Erasing the first of the blocks sheds its extent, and leaves the extents of the others. -/
theorem Holds.eraseBlock {b : Block} {bs : List Block} (h : c.Holds (b :: bs))
    (run : eraseBlock b c = .ok a c') :
    c'.Holds bs ∧ c.Sheds c' (c.layout.extent b) (c.layout.extent b) ∧
      ∀ b' ∈ bs, c'.layout.extent b' = c.layout.extent b' := by
  have hb := h.alive b (List.mem_cons_self ..)
  have laid := h.intact.layout
  have shed := eraseBlock_sheds h.sound h.intact hb run
  -- The other blocks are still alive, and each keeps its extent.
  refine ⟨h.tail (eraseBlock_steps _ _ run) shed (fun v hv => laid.of_mem_extent hb hv)
    fun b' hb' hne hmem => ?_, shed, fun b' hb' => ?_⟩
  · rcases List.mem_cons.1 hmem with heq | hmem
    · exact hne (Handle.ext heq)
    · -- A block is not an instruction.
      obtain ⟨i, hi, heq⟩ := List.mem_map.1 hmem
      have hi := laid.instruction_of_mem hi
      rw [heq] at hi
      exact absurd (h.alive b' (List.mem_cons_of_mem _ hb')) (hi.apart (by decide))
  · have same : c'.layout.instructions b' = c.layout.instructions b' := by
      rw [Layout.instructions, shed.layout.contents.members, Layout.instructions,
        List.filter_eq_self]
      intro i hi
      -- An instruction is in one block only.
      have hout : i.value ∉ c.layout.extent b := by
        intro hmem
        rcases List.mem_cons.1 hmem with heq | hmem
        · have hi := laid.instruction_of_mem hi
          rw [heq] at hi
          exact absurd hb (hi.apart (by decide))
        · obtain ⟨j, hj, heq⟩ := List.mem_map.1 hmem
          rw [Handle.ext heq] at hj
          have heq := laid.contents.eq_of_mem hj hi
          exact (List.nodup_cons.1 h.nodup).1 (heq ▸ hb')
      simpa using hout
    rw [Layout.extent, same, Layout.extent]

/-- Blocks are erased one after the other. -/
theorem eraseBlocks_sheds {bs : List Block} (h : c.Holds bs)
    (run : bs.forM eraseBlock c = .ok a c') :
    c'.Holds ([] : List Block) ∧
      c.Sheds c' (bs.flatMap c.layout.extent) (bs.flatMap c.layout.extent) := by
  induction bs generalizing c with
  | nil =>
    cases run
    exact ⟨h, .of_cut h.intact (.refl _)⟩
  | cons b bs ih =>
    rw [List.forM_eq_forM, List.forM_cons, Run.bind_eq_ok_iff] at run
    obtain ⟨_, c₁, h₁, h₂⟩ := run
    obtain ⟨hold, shed, same⟩ := h.eraseBlock h₁
    obtain ⟨hold', shed'⟩ := ih hold h₂
    rw [List.flatMap_congr same] at shed'
    exact ⟨hold', shed.trans shed'⟩

/-- The erasure of blocks that nothing uses does not end the run. -/
theorem eraseBlocks_calm {bs : List Block} (h : c.Holds bs)
    (unused : c.graph.UsedBy (bs.flatMap c.layout.extent) []) : Calm (bs.forM eraseBlock) c := by
  refine .forM_left (P := fun bs c => c.Holds bs ∧ c.graph.UsedBy (bs.flatMap c.layout.extent) [])
    (fun {b bs c c₁ a} ⟨h, unused⟩ run => ?_) (fun {b bs c} ⟨h, unused⟩ => ?_) bs ⟨h, unused⟩
  · obtain ⟨hold, shed, same⟩ := h.eraseBlock run
    refine ⟨hold, ?_⟩
    rw [List.flatMap_congr same]
    exact (unused.sub (by simp)).cut shed.graph h.sound.graph (List.nil_subset _)
  · -- Nothing points into the block, so its own instructions do not either.
    refine eraseBlock_calm h.sound h.intact (h.alive b (List.mem_cons_self ..))
      fun u e v hu ht hv => ?_
    have := unused u e v hu ht (List.mem_flatMap.2 ⟨b, List.mem_cons_self .., hv⟩)
    simp at this

/-- Removing the arguments cuts them from the graph. -/
theorem removeArguments_cut {args : List Argument} (hg : c.graph.Coherent)
    (run : args.forM (fun x => onGraph (Graph.removeValue x.value)) c = .ok a c') :
    ∃ graph, c' = { c with graph } ∧ graph.Coherent ∧
      c.graph.Cut graph (args.map (·.value)) (args.map (·.value)) := by
  have loop := forM_cut (fun _ x => [x.value]) (fun _ x => [x.value])
    (fun {x c a c'} hg run => ?_) hg run
  · obtain ⟨g, rfl, coherent, cut⟩ := loop
    exact ⟨g, rfl, coherent, cut.congr (fun v => by simp [eq_comm]) fun v => by simp [eq_comm]⟩
  · obtain ⟨g, hg₁, rfl⟩ := onGraph_ok run
    obtain ⟨coherent, reduced⟩ := Graph.removeValue_reduced hg hg₁
    exact ⟨g, rfl, coherent, .remove reduced⟩

/-- Removing arguments that nothing uses does not end the run. -/
theorem removeArguments_calm {args : List Argument} (hg : c.graph.Coherent) (nodup : args.Nodup)
    (alive : ∀ x ∈ args, c.graph.Has .argument x.value)
    (unused : c.graph.UsedBy (args.map (·.value)) []) :
    Calm (args.forM fun x => onGraph (Graph.removeValue x.value)) c := by
  -- Each round keeps the graph coherent and leaves the rest of the arguments alive, different and
  -- unused.
  refine .forM_left (P := fun args c => c.graph.Coherent ∧ args.Nodup ∧
    (∀ x ∈ args, c.graph.Has .argument x.value) ∧ c.graph.UsedBy (args.map (·.value)) [])
    (fun {x args c c₁ a} ⟨hg, nodup, alive, unused⟩ run => ?_)
    (fun {x args c} ⟨hg, _, alive, unused⟩ => ?_) args ⟨hg, nodup, alive, unused⟩
  · obtain ⟨g, hg₁, rfl⟩ := onGraph_ok run
    obtain ⟨coherent, reduced⟩ := Graph.removeValue_reduced hg hg₁
    -- The arguments are different, so the others are still there.
    obtain ⟨hout, nodup⟩ := List.nodup_cons.1 nodup
    refine ⟨coherent, nodup, fun y hy => reduced.loses.has_iff.2 ⟨fun hmem => hout ?_, ?_⟩,
      (unused.sub (by simp)).cut (.remove reduced) hg (List.nil_subset _)⟩
    · rwa [← Handle.ext (List.mem_singleton.1 hmem)]
    · exact alive y (List.mem_cons_of_mem _ hy)
  · obtain ⟨d, hd⟩ := (alive x (List.mem_cons_self ..)).value?
    obtain ⟨g, run, -⟩ := Graph.removeValue_run hg hd (unused.unused hg (by simp) hd)
    exact .on (.of_ok run)

/-- The steps of the erasure of a function. -/
theorem eraseFunction_eq_ok {f : Func} (run : eraseFunction f c = .ok a c') :
    ∃ c₁ c₂ c₃ ty args name graph, c.check f.value = .ok () ∧
      (c.layout.blocks f).forM releaseBlock c = .ok () c₁ ∧
      (c.layout.blocks f).forM eraseBlock c₁ = .ok () c₂ ∧ c₂.functionData f = .ok (ty, args) ∧
      args.forM (fun x => onGraph (Graph.removeValue x.value)) c₂ = .ok () c₃ ∧
      c₃.nameOf f.value = .ok name ∧ Graph.removeValue f.value c₃.graph = .ok () graph ∧
      c' = { c₃ with
        graph, functions := c₃.functions.filter (· ≠ f), layout := c₃.layout.dropFunction f
        names := (name.map c₃.names.erase).getD c₃.names } := by
  -- The blocks are released first, so that branches between them do not stop their erasure.
  simp only [eraseFunction, Run.bind_eq_ok_iff, Run.get_apply, Run.question_eq_ok_iff,
    Run.faulting_eq_ok_iff] at run
  obtain ⟨_, _, h₀, _, _, ⟨check, rfl⟩, _, _, h₁, _, c₁, release, _, _, h₂, _, _, ⟨-, rfl⟩, _, c₂,
    loop, _, _, h₃, ⟨ty, args⟩, _, ⟨data, rfl⟩, _, c₃, removed, _, _, h₄, name, _, ⟨hname, rfl⟩,
    rest⟩ := run
  cases h₀
  cases h₁
  cases h₂
  cases h₃
  cases h₄
  -- Giving up the name is the only step that depends on whether there is one.
  refine ⟨c₁, c₂, c₃, ty, args, name, ?_⟩
  cases name with
  | none =>
    simp only [Run.bind_eq_ok_iff] at rest
    obtain ⟨_, _, h₅, hg⟩ := rest
    cases h₅
    obtain ⟨graph, dropped, rfl⟩ := onGraph_ok hg
    exact ⟨graph, check, release, loop, data, removed, hname, dropped, rfl⟩
  | some name =>
    simp only [Run.bind_eq_ok_iff] at rest
    obtain ⟨_, _, h₅, _, _, h₆, hg⟩ := rest
    cases h₅
    cases h₆
    obtain ⟨graph, dropped, rfl⟩ := onGraph_ok hg
    exact ⟨graph, check, release, loop, data, removed, hname, dropped, rfl⟩

/-- A function whose data are read is alive, with this type and these arguments. -/
theorem functionData_eq_ok {f : Func} {x : Ty × List Argument} (h : c.functionData f = .ok x) :
    ∃ d, c.graph.value? f.value = some d ∧ d.kind = .function x.1 x.2 := by
  simp only [functionData, kindOf, Question.bind_eq_ok_iff] at h
  obtain ⟨k, ⟨d, hd, hk⟩, h⟩ := h
  cases hk
  refine ⟨d, valueData_eq_ok hd, ?_⟩
  cases hkind : d.kind with
  | function fnType args =>
    rw [hkind] at h
    cases h
    rfl
  | _ => simp [hkind] at h

/-- In a sound context the data are read exactly of live functions. -/
theorem functionData_eq_ok_iff (hs : c.Sound) {f : Func} {x : Ty × List Argument} :
    c.functionData f = .ok x ↔
      ∃ d, c.graph.value? f.value = some d ∧ d.kind = .function x.1 x.2 := by
  refine ⟨functionData_eq_ok, ?_⟩
  rintro ⟨d, hd, hkind⟩
  simp only [functionData, kindOf, Question.bind_eq_ok_iff]
  exact ⟨d.kind, ⟨d, (valueData_eq_ok_iff hs).2 hd, rfl⟩, by rw [hkind]; rfl⟩

/-- A value whose name is read is alive with this name. -/
theorem nameOf_eq_ok {v : Value} {name : Option String} (h : c.nameOf v = .ok name) :
    ∃ d, c.graph.value? v = some d ∧ d.name = name := by
  simp only [nameOf, Question.bind_eq_ok_iff] at h
  obtain ⟨d, hd, hname⟩ := h
  exact ⟨d, valueData_eq_ok hd, by simpa using hname⟩

/-- The instructions in the blocks of a function are cut off, and still there. -/
theorem releaseBlocks_sheds {f : Func} (hs : c.Sound) (hi : c.Intact)
    (run : (c.layout.blocks f).forM releaseBlock c = .ok a c') :
    c'.Holds (c.layout.blocks f) ∧ c'.layout = c.layout ∧ c.Sheds c' (c.body f) [] := by
  have hs' := hs.locals (Run.Steps.forM _ (fun _ _ _ => releaseBlock_steps) c _ _ run)
  obtain ⟨g, rfl, -, cut⟩ := releaseBlocks_cut hs.graph run
  have shed : c.Sheds { c with graph := g } (c.body f) [] := .of_cut hi cut
  exact ⟨⟨hs', shed.intact_of_body hi (by simp), hi.layout.bodies.nodup f,
    fun b hb => shed.has_iff.2 ⟨by simp, hi.layout.block_of_mem hb⟩⟩, rfl, shed⟩

/-- The body of a function goes with its blocks. -/
theorem body_subset (c : Context) (f : Func) :
    c.body f ⊆ (c.layout.blocks f).flatMap c.layout.extent := by
  intro v hv
  obtain ⟨b, hb, hv⟩ := List.mem_flatMap.1 hv
  exact List.mem_flatMap.2 ⟨b, hb, List.mem_cons_of_mem _ hv⟩

/-- After its blocks are erased, a function is still there and has no blocks. -/
theorem stripFunction_sheds {f : Func} (hs : c.Sound) (hi : c.Intact)
    (hf : c.graph.Has .function f.value) {c₁ c₂ : Context}
    (release : (c.layout.blocks f).forM releaseBlock c = .ok () c₁)
    (loop : (c.layout.blocks f).forM eraseBlock c₁ = .ok () c₂) :
    c₂.Holds [f] ∧ c₂.layout.blocks f = [] ∧ c₂.graph.face? f.value = c.graph.face? f.value ∧
      c.Sheds c₂ ((c.layout.blocks f).flatMap c.layout.extent)
        ((c.layout.blocks f).flatMap c.layout.extent) := by
  -- Two phases again: all blocks are released before the first of them goes.
  obtain ⟨hold₁, same₁, shed₁⟩ := releaseBlocks_sheds hs hi release
  obtain ⟨hold₂, shed₂⟩ := eraseBlocks_sheds hold₁ loop
  rw [same₁] at shed₂
  have shed : c.Sheds c₂ ((c.layout.blocks f).flatMap c.layout.extent)
      ((c.layout.blocks f).flatMap c.layout.extent) := by
    refine (shed₁.trans shed₂).congr (fun v => ?_) fun v => by simp
    rw [List.mem_append]
    exact ⟨.inr, fun h => h.elim (fun hv => c.body_subset f hv) fun hv => hv⟩
  -- The function is not among its blocks and their instructions.
  have hout : f.value ∉ (c.layout.blocks f).flatMap c.layout.extent := by
    intro hmem
    rcases hi.layout.of_mem_extents hmem with hb | hi
    · exact absurd hb (hf.apart (by decide))
    · exact absurd hi (hf.apart (by decide))
  refine ⟨⟨hold₂.sound, hold₂.intact, by simp, ?_⟩, ?_, ?_, shed⟩
  · simpa using shed.has_iff.2 ⟨hout, hf⟩
  · rw [Layout.blocks, shed.layout.bodies.members, List.filter_eq_nil_iff]
    intro b hb
    simpa using ⟨b, hb, List.mem_cons_self ..⟩
  · rw [shed.graph.reduced.loses, if_neg hout]

/-- A function is not one of its arguments. -/
theorem Intact.not_mem_arguments {f : Func} {ty fnType : Ty} {name : Option String}
    {args : List Argument} (hi : c.Intact)
    (hf : c.graph.face? f.value = some ⟨ty, name, .function fnType args⟩) :
    f.value ∉ args.map (·.value) := by
  intro hmem
  obtain ⟨x, hx, heq⟩ := List.mem_map.1 hmem
  have argument := hi.arguments.has_argument hf hx
  rw [heq] at argument
  exact argument.apart (b := .function) (by decide) ⟨_, hf, rfl⟩

/-- A function without blocks goes with its arguments and its name. -/
theorem dropFunction_sheds {f : Func} {ty fnType : Ty} {name : Option String} {args : List Argument}
    {graph : Graph} (hi : c.Intact) (empty : c.layout.blocks f = [])
    (hf : c.graph.face? f.value = some ⟨ty, name, .function fnType args⟩)
    (cut : c.graph.Cut graph (args.map (·.value) ++ [f.value]) (args.map (·.value) ++ [f.value])) :
    c.Sheds { c with
        graph, functions := c.functions.filter (· ≠ f), layout := c.layout.dropFunction f
        names := (name.map c.names.erase).getD c.names }
      (args.map (·.value) ++ [f.value]) (args.map (·.value) ++ [f.value]) := by
  have function : c.graph.Has .function f.value := ⟨_, hf, rfl⟩
  have arguments : ∀ v ∈ args.map (·.value), c.graph.Has .argument v := by
    intro v hv
    obtain ⟨x, hx, rfl⟩ := List.mem_map.1 hv
    exact hi.arguments.has_argument hf hx
  -- Of the functions this one goes.
  have goes : ∀ {f' : Func}, c.graph.Has .function f'.value →
      (f'.value ∈ args.map (·.value) ++ [f.value] ↔ f' = f) := by
    intro f' hf'
    rw [List.mem_append, List.mem_singleton]
    constructor
    · rintro (hmem | heq)
      · exact absurd hf' ((arguments _ hmem).apart (by decide))
      · exact Handle.ext heq
    · rintro rfl
      exact .inr rfl
  refine ⟨rfl, rfl, rfl, cut, hi.layout.dropFunction_sheds function empty arguments,
    List.filter_congr fun f' hf' => ?_, fun n => ?_⟩
  · rw [decide_eq_decide, not_iff_not, goes (hi.functions.mem.1 hf')]
  · -- Every function has a name, and only its own name leads to it.
    obtain ⟨old, hold⟩ := hi.functions.named hf rfl
    simp only at hold
    subst hold
    rw [Option.map_some, Option.getD_some, Keyed.get?_erase]
    cases hn : c.names.get? n with
    | none => simp
    | some f' =>
      obtain ⟨x, hx, hkind, -⟩ := hi.functions.entry.1 hn
      have same := hi.functions.name_iff hf rfl rfl hn
      rw [Option.filter_some]
      simp only [goes ⟨x, hx, hkind⟩, same]
      by_cases heq : f' = f <;> simp [heq]

/-- The erasure of a function sheds the function, its arguments and its blocks. -/
theorem eraseFunction_sheds {f : Func} {ty fnType : Ty} {name : Option String} {args : List Argument}
    (hs : c.Sound) (hi : c.Intact)
    (hf : c.graph.face? f.value = some ⟨ty, name, .function fnType args⟩)
    (run : eraseFunction f c = .ok a c') : c.Sheds c' (c.extent f args) (c.extent f args) := by
  obtain ⟨c₁, c₂, c₃, ty', args', name', graph, -, release, loop, data, removed, hname, dropped,
    rfl⟩ := eraseFunction_eq_ok run
  obtain ⟨hold, empty, same, shed⟩ := stripFunction_sheds hs hi ⟨_, hf, rfl⟩ release loop
  rw [hf] at same
  -- The arguments are those the function had at the beginning.
  obtain ⟨d₂, hd₂, hkind⟩ := functionData_eq_ok data
  obtain rfl : args = args' := by
    have hface := same
    rw [Graph.face?_of_value? hd₂, hkind] at hface
    cases hface
    rfl
  obtain ⟨g₃, rfl, coherent, cut⟩ := removeArguments_cut hold.sound.graph removed
  -- So is the name.
  have hout := hold.intact.not_mem_arguments same
  obtain ⟨d₃, hd₃, rfl⟩ := nameOf_eq_ok hname
  have hface := cut.reduced.loses.face?_eq_some_iff.2 ⟨hout, same⟩
  rw [Graph.face?_of_value? hd₃, Option.some.injEq, Face.mk.injEq] at hface
  -- The last two phases: the arguments, and then the function itself.
  have last := dropFunction_sheds hold.intact empty same
    (cut.trans (.remove (Graph.removeValue_reduced coherent dropped).2))
  rw [← hface.2.1] at last
  refine (shed.trans last).congr (fun v => ?_) fun v => ?_
  · simp only [extent, List.mem_append, List.mem_cons, List.not_mem_nil]
    tauto
  · simp only [extent, List.mem_append, List.mem_cons, List.not_mem_nil]
    tauto

/-- The erasure of a function keeps the context intact. -/
theorem eraseFunction_intact {f : Func} (hs : c.Sound) (hi : c.Intact)
    (hf : c.graph.Has .function f.value) (run : eraseFunction f c = .ok a c') : c'.Intact := by
  obtain ⟨⟨ty, name, kind⟩, hf, hkind⟩ := hf
  cases kind with
  | function fnType args =>
    refine (eraseFunction_sheds hs hi hf run).intact hi (fun {v ty' name' f' i} hv => ?_) ?_
    · -- With a function go its arguments.
      obtain ⟨_, _, _, _, hf', -⟩ := hi.arguments.parent hv
      exact (argument_mem_extent_iff hi hf hv).trans
        (function_mem_extent_iff hi hf ⟨_, hf', rfl⟩).symm
    · -- A constant is none of what goes.
      intro v hmem hconst
      rcases of_mem_extent hi hf hmem with ⟨harg, -⟩ | rfl | ⟨b, hb, rfl⟩ | hbody
      · exact absurd harg (hconst.apart (by decide))
      · exact hconst.apart (b := .function) (by decide) ⟨_, hf, rfl⟩
      · exact absurd (hi.layout.block_of_mem hb) (hconst.apart (by decide))
      · exact absurd (has_of_mem_body hi hbody) (hconst.apart (by decide))
  | _ => cases hkind

/-- The erasure of a function does not end the run if only its own body uses what goes. -/
theorem eraseFunction_calm {f : Func} {ty fnType : Ty} {name : Option String} {args : List Argument}
    (hs : c.Sound) (hi : c.Intact)
    (hf : c.graph.face? f.value = some ⟨ty, name, .function fnType args⟩)
    (used : c.graph.UsedBy (c.extent f args) (c.body f)) : Calm (eraseFunction f) c := by
  have function : c.graph.Has .function f.value := ⟨_, hf, rfl⟩
  refine .get_bind (.ask (check_calm function) fun _ _ => .get_bind (.bind ?_ fun _ c₁ release => ?_))
  · refine .forM (P := fun c' => c'.Sound ∧ c'.Intact) _ (fun b _ c₁ c₂ a h run => ?_)
      (fun b _ c₁ h => releaseBlock_calm h.1.graph h.2.layout) c ⟨hs, hi⟩
    obtain ⟨hold, -⟩ := releaseBlock_sheds h.1 h.2 run
    exact ⟨hold.sound, hold.intact⟩
  obtain ⟨hold₁, same₁, shed₁⟩ := releaseBlocks_sheds hs hi release
  -- From here on nothing points to what goes.
  have unused₁ := used.cut shed₁.graph hs.graph (List.Subset.refl _)
  obtain ⟨d₁, hd₁⟩ := (shed₁.has_iff.2 ⟨by simp, function⟩).value?
  refine .get_bind (.answered
    (ensureUnused_eq_ok unused₁ hold₁.sound.graph (by simp [extent]) hd₁) fun _ _ =>
    .bind (eraseBlocks_calm hold₁ ?_) fun _ c₂ loop => ?_)
  · rw [same₁]
    exact unused₁.sub (by simp [extent])
  obtain ⟨hold₂, -, same₂, shed₂⟩ := stripFunction_sheds hs hi function release loop
  rw [hf] at same₂
  -- What was recorded about the function is what it was at the beginning.
  have unused₂ := used.cut shed₂.graph hs.graph (c.body_subset f)
  obtain ⟨d₂, hd₂, hface⟩ := Graph.value?_of_face? same₂
  have data := (functionData_eq_ok_iff hold₂.sound (x := (fnType, args))).2
    ⟨d₂, hd₂, (congrArg Face.kind hface).symm⟩
  refine .get_bind (.answered ⟨_, data⟩ fun x hx => ?_)
  rw [data] at hx
  cases hx
  -- The arguments are still listed, and each of them is there to be removed.
  have arguments := hold₂.intact.arguments
  refine .bind (removeArguments_calm hold₂.sound.graph (arguments.nodup same₂)
    (fun x hx => arguments.has_argument same₂ hx) (unused₂.sub (by simp [extent])))
    fun _ c₃ removed => ?_
  have hs₃ := hold₂.sound.locals
    (Run.Steps.forM _ (fun _ _ _ => removeValue_steps) c₂ _ _ removed)
  obtain ⟨g₃, rfl, coherent, cut⟩ := removeArguments_cut hold₂.sound.graph removed
  have unused₃ := unused₂.cut cut hold₂.sound.graph (List.nil_subset _)
  obtain ⟨d₃, hd₃, -⟩ := Graph.value?_of_face?
    (cut.reduced.loses.face?_eq_some_iff.2 ⟨hold₂.intact.not_mem_arguments same₂, same₂⟩)
  obtain ⟨g, run, -⟩ :=
    Graph.removeValue_run coherent hd₃ (unused₃.unused coherent (by simp [extent]) hd₃)
  -- The function itself outlives its arguments, so its name can be read.
  have named : ∃ name, Context.nameOf { c₂ with graph := g₃ } f.value = .ok name :=
    ⟨d₃.name, by simp [nameOf, (valueData_eq_ok_iff hs₃).2 hd₃]⟩
  refine .get_bind (.answered named fun name _ => ?_)
  split
  · refine .bind .modify fun _ c₄ h₄ => .bind .modify fun _ c₅ h₅ => ?_
    cases h₄
    cases h₅
    exact .on (.of_ok run)
  · refine .bind .modify fun _ c₄ h₄ => ?_
    cases h₄
    exact .on (.of_ok run)

end Context

end SsaGraph
