import Mathlib.Algebra.Group.Nat.Defs
import SsaGraph.Proofs.Graph.Arena
import SsaGraph.Proofs.Mirror

/-!
# Use handles over time

A use handle that was obtained for an operand slot is good for as long as the instruction lives that
the slot belongs to, and for nothing else: `Course.useData_iff` says that at any later time the
handle resolves exactly if the instruction is alive, and then to the edge of that slot. Places of
the arena are used again, so this rests on the generation of the place having moved on; generations
are counted modulo `genLimit`, and the result holds as long as the place has been given up fewer
times than that.

The invariant follows one handle along a course. Either its operand slot is still there, with the
same use, or the instruction is gone and the place was given up in some turn; and the generation of
the place is ahead of that of the handle by the number of times it was given up.
-/

namespace SsaGraph

/-- The places of the arena that a turn gives up: those that are vacant after it and were not
before. -/
def Turn.freed (t : Turn) : List Nat := t.before.graph.freed t.after.graph

namespace Context

/-- The use handle is obtained for an operand slot of a value: it is listed among the operand slots,
or in the use list of what the slot points to. -/
inductive Obtains (c : Context) (h : Use) (user : Value) (i : Nat) : Prop
  | slot {us : List Use} (slots : c.operandSlots user = .ok us) (mem : us[i]? = some h)
  | use {v : Value} {us : List Use} {target : Option Value} (uses : c.uses v = .ok us)
    (mem : h ∈ us) (data : c.useData h = .ok ⟨user, i, target⟩)

variable {c c' : Context} {h : Use} {user : Value} {i : Nat} {ts : List Turn}

/-- A use that was obtained for a slot is the use in the slot. -/
theorem Obtains.slot? (obtained : c.Obtains h user i) (hs : c.Sound) :
    c.graph.slot? (user, i) = some h := by
  cases obtained with
  | slot slots mem => rw [← operandSlots_eq_ok hs slots, mem]
  | use uses mem data => exact hs.graph.owner (Graph.edge_eq_ok_iff.1 data)

/-- The operand in a slot is the target of its edge. -/
theorem operandAt_of_slot? (hs : c.Sound) {e : Edge} (hslot : c.graph.slot? (user, i) = some h)
    (he : c.graph.edge? h = some e) : c.operandAt user i = .ok e.target := by
  obtain ⟨d, hd, hh⟩ := Option.bind_eq_some_iff.1 hslot
  simp only at hd hh
  simp only [operandAt, Graph.operand, Question.bind_eq_ok_iff, valueData_eq_ok_iff hs,
    Graph.value_eq_ok_iff]
  refine ⟨d, hd, d, hd, ?_⟩
  simp only [hh, Question.bind_eq_ok_iff, Graph.edge_eq_ok_iff]
  exact ⟨e, he, rfl⟩

/-- A use without an edge is missing. -/
theorem useData_of_stale (he : c.graph.edge? h = none) : c.useData h = .error (.missingUse h) := by
  have hl : c.graph.linked? h = none := Option.map_eq_none_iff.1 he
  simp only [useData, Graph.edge, Graph.linked, hl]
  rfl

/-- Where a handle obtained for an operand slot stands after its place was given up `count` times.
-/
structure Follows (c : Context) (h : Use) (user : Value) (i count : Nat) : Prop where
  /-- The user had been created. -/
  created : user.index < c.graph.values.size
  /-- The slot has the use still, or its user is gone and the place was given up. -/
  slot : c.graph.slot? (user, i) = some h ∨ c.graph.value? user = none ∧ 0 < count
  /-- The generation of the place is ahead by the number of times it was given up. -/
  gen : c.graph.gen? h.index = some (if count = 0 then h.gen else (h.gen + count) % genLimit)

/-- A use in its slot has not been freed. -/
theorem Follows.start (hs : c.Sound) (hslot : c.graph.slot? (user, i) = some h) :
    c.Follows h user i 0 := by
  obtain ⟨t, ht⟩ := hs.graph.owned hslot
  obtain ⟨d, hd, -⟩ := Option.bind_eq_some_iff.1 hslot
  exact ⟨Graph.index_lt_of_value? hd, .inl hslot, Graph.gen?_of_edge? ht⟩

/-- A place is given up once in a turn at most. -/
theorem count_freed {g g' : Graph} (hc' : g'.Coherent) (k : Nat) :
    (g.freed g').count k = if k ∈ g.freed g' then 1 else 0 := by
  have nodup : (g.freed g').Nodup := hc'.arena.nodup.filter _
  split
  · rename_i hmem
    exact List.count_eq_one_of_mem nodup hmem
  · rename_i hmem
    exact List.count_eq_zero_of_not_mem hmem

/-- One turn adds to the count how often it freed the place of the use. -/
theorem Follows.turn {count : Nat} (follows : c.Follows h user i count)
    (turnover : c.graph.Turnover c'.graph) (lasts : c.graph.Lasts c'.graph)
    (hc' : c'.graph.Coherent) :
    c'.Follows h user i (count + (c.graph.freed c'.graph).count h.index) := by
  refine ⟨Nat.lt_of_lt_of_le follows.created lasts.size, ?_, ?_⟩
  · -- The slot stays with its user; it is freed with it, and then for good.
    rcases follows.slot with hslot | ⟨gone, hpos⟩
    · rcases turnover.slot hslot with hkept | ⟨gone, hfreed⟩
      · exact .inl hkept
      · have hpos : 0 < (c.graph.freed c'.graph).count h.index := List.count_pos_iff.2 hfreed
        exact .inr ⟨gone, by omega⟩
    · refine .inr ⟨?_, by omega⟩
      -- What is gone does not come back.
      cases hv : c'.graph.value? user with
      | none => rfl
      | some d =>
        obtain ⟨n, hn, -⟩ := lasts.contains_eq follows.created (Graph.node?_of_value? hv)
        rw [Graph.node?_eq_none_iff.2 gone] at hn
        cases hn
  · rw [turnover.gen follows.gen, count_freed hc']
    -- The generation counts how often the index has been freed, modulo its range.
    by_cases hfreed : h.index ∈ c.graph.freed c'.graph
    · rw [if_pos hfreed, if_pos hfreed, if_neg (Nat.succ_ne_zero count)]
      by_cases hcount : count = 0
      · rw [if_pos hcount, hcount]
      · rw [if_neg hcount, Nat.mod_add_mod, Nat.add_assoc]
    · rw [if_neg hfreed, if_neg hfreed, Nat.add_zero]

/-- The handle of an operand slot, followed along a course. -/
theorem Course.follows (hc : c.Reachable) (course : Course (fun _ _ => True) c ts c')
    (hslot : c.graph.slot? (user, i) = some h) :
    c'.Follows h user i ((ts.flatMap Turn.freed).count h.index) := by
  refine course.invariant
    (P := fun ts c' => c'.Follows h user i ((ts.flatMap Turn.freed).count h.index)) hc
    (.start hc.sound hslot) fun {ts c₁ c₂ r a} _ reached follows _ run => ?_
  have chain := Request.run_steps reached.sound r a c₂ run
  have hs₂ : c₂.Sound := reached.sound.of_chain chain
  have turnover := (Request.run_effect reached.sound run).turnover reached.sound.graph hs₂.graph
  have := follows.turn turnover (lasts_of_chain reached.sound chain) hs₂.graph
  simpa [Turn.freed] using this

/-- A handle whose place was given up resolves no more, unless the generations have come round. -/
theorem Follows.edge?_eq_none {count : Nat} (follows : c.Follows h user i count)
    (gone : c.graph.value? user = none) (few : count < genLimit) : c.graph.edge? h = none := by
  rcases follows.slot with hslot | ⟨-, hpos⟩
  · obtain ⟨d, hd, -⟩ := Option.bind_eq_some_iff.1 hslot
    rw [gone] at hd
    cases hd
  · cases he : c.graph.edge? h with
    | none => rfl
    | some e =>
      have hgen := follows.gen
      rw [Graph.gen?_of_edge? he, if_neg (by omega), Option.some_inj] at hgen
      unfold genLimit at few hgen
      omega

/-- A use handle obtained at some time for an operand slot resolves at a later time exactly if the
user is alive then, and what it resolves to is the edge of that slot, with what the slot holds by
then. This holds as long as the place of the edge has been given up fewer than 2^32 times since. -/
theorem Course.useData_iff (hc : c.Reachable) (obtained : c.Obtains h user i)
    (course : Course (fun _ _ => True) c ts c')
    (few : (ts.flatMap Turn.freed).count h.index < 2 ^ 32) :
    ((∃ e, c'.useData h = .ok e) ↔ user ∈ c'.graph.live) ∧
      (∀ e, c'.useData h = .ok e →
        e.user = user ∧ e.operandNo = i ∧ c'.operandAt user i = .ok e.target) ∧
      (user ∉ c'.graph.live → c'.useData h = .error (.missingUse h)) := by
  have hs' := (course.reachedBy hc).sound
  have follows := course.follows hc (obtained.slot? hc.sound)
  by_cases alive : user ∈ c'.graph.live
  · obtain ⟨d, hd⟩ := Graph.mem_live.1 alive
    have hslot : c'.graph.slot? (user, i) = some h := by
      rcases follows.slot with hslot | ⟨gone, -⟩
      · exact hslot
      · rw [gone] at hd
        cases hd
    obtain ⟨t, ht⟩ := hs'.graph.owned hslot
    have resolves : c'.useData h = .ok ⟨user, i, t⟩ := Graph.edge_eq_ok_iff.2 ht
    refine ⟨⟨fun _ => alive, fun _ => ⟨_, resolves⟩⟩, fun e he => ?_, fun gone => absurd alive gone⟩
    rw [resolves] at he
    cases he
    exact ⟨rfl, rfl, operandAt_of_slot? hs' hslot ht⟩
  · have gone : c'.graph.value? user = none := by
      by_contra hne
      exact alive (Graph.mem_live.2 (Option.ne_none_iff_exists'.1 hne))
    -- Fewer frees than the generations can tell apart have not brought the old one back.
    have stale : c'.useData h = .error (.missingUse h) :=
      useData_of_stale (follows.edge?_eq_none gone few)
    rw [stale]
    refine ⟨⟨?_, fun h => absurd h alive⟩, nofun, fun _ => rfl⟩
    rintro ⟨e, ⟨⟩⟩

/-- For instance, the handle of the operand of a `ret` that is erased, after which another `ret`
gets the same place of the arena. -/
theorem useData_after_reuse : ∃ c ts c',
    replay [.undef ⟨⟨1⟩, 9⟩, .ret {} (some ⟨⟨1⟩, 0⟩)] (.initial ⟨1⟩) = some c ∧
    record [.eraseInstruction ⟨⟨⟨1⟩, 1⟩⟩, .ret {} (some ⟨⟨1⟩, 0⟩)] c = some (ts, c') ∧
    (c.operandSlots ⟨⟨1⟩, 1⟩ = .ok [⟨0, 0⟩] ∧ (ts.flatMap Turn.freed).count 0 = 1 ∧
      ⟨⟨1⟩, 1⟩ ∉ c'.graph.live ∧ c'.operandSlots ⟨⟨1⟩, 2⟩ = .ok [⟨0, 1⟩]) ∧
    c'.useData ⟨0, 0⟩ = .error (.missingUse ⟨0, 0⟩) := by
  refine exists_record_after _ _ _ (by decide +kernel) fun c ts c' hc course seen => ?_
  obtain ⟨slots, freed, gone, -⟩ := seen
  have obtained : c.Obtains ⟨0, 0⟩ ⟨⟨1⟩, 1⟩ 0 := .slot slots rfl
  have few : (ts.flatMap Turn.freed).count 0 < 2 ^ 32 := by
    rw [freed]
    decide
  have reached : c.Reachable := (classChecked_of_replay hc (.initial ⟨1⟩)).mono fun _ _ _ => trivial
  obtain ⟨-, -, stale⟩ :=
    Course.useData_iff reached obtained (course.mono fun _ _ _ => trivial) few
  exact stale gone

end Context

end SsaGraph
