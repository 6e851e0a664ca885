import SsaGraph.Proofs.Course
import SsaGraph.Proofs.Integrity

/-!
# Numbers of values

Values are numbered from 1, and `nextId` is the number that the next value gets. What a request
creates gets the numbers from `nextId` on, without a gap, and is alive when the request is answered.
A number that was given away is not given away again, so a value that is gone is gone for good.

A request either takes no place in the table of values, or makes changes that all breed: what was
alive stays alive, and the new places are those of live values (`Graph.Breeds`).
-/

namespace SsaGraph

namespace Graph

variable {g g' g'' : Graph}

/-- The new places are those of live values. -/
def Populates (g g' : Graph) : Prop :=
  ∀ v : Value, v.ctx = g.ctx → g.values.size ≤ v.index → v.index < g'.values.size →
    ∃ d, g'.value? v = some d

/-- Without new places there is nothing to say. -/
theorem populates_of_size (h : g'.values.size = g.values.size) : g.Populates g' := by
  intro v _ hle hlt
  omega

/-- What was alive is alive, and so is what has been created. -/
structure Breeds (g g' : Graph) : Prop where
  /-- The graph belongs to the same context. -/
  ctx : g'.ctx = g.ctx
  /-- What was alive is alive. -/
  keep : ∀ {v d}, g.value? v = some d → ∃ d', g'.value? v = some d'
  /-- What has been created is alive. -/
  populates : g.Populates g'

namespace Breeds

/-- What is alive stays so while nothing happens. -/
theorem refl (g : Graph) : g.Breeds g :=
  ⟨rfl, fun hd => ⟨_, hd⟩, populates_of_size rfl⟩

/-- Breeding twice is breeding. -/
theorem trans (h : g.Breeds g') (h' : g'.Breeds g'') : g.Breeds g'' := by
  refine ⟨h'.ctx.trans h.ctx, fun hd => ?_, fun v hctx hle hlt => ?_⟩
  · obtain ⟨d', hd'⟩ := h.keep hd
    exact h'.keep hd'
  · by_cases hv : v.index < g'.values.size
    · obtain ⟨d, hd⟩ := h.populates v hctx hle hv
      exact h'.keep hd
    · exact h'.populates v (hctx.trans h.ctx.symm) (Nat.le_of_not_lt hv) hlt

/-- One value takes the next place. -/
theorem of_next (ctx : g'.ctx = g.ctx) (size : g'.values.size = g.values.size + 1)
    (keep : ∀ {v d}, g.value? v = some d → ∃ d', g'.value? v = some d')
    (new : ∃ d, g'.value? ⟨g.ctx, g.values.size⟩ = some d) : g.Breeds g' := by
  refine ⟨ctx, keep, fun v hctx hle hlt => ?_⟩
  obtain ⟨ctx', index⟩ := v
  have hindex : index = g.values.size := by
    simp only at hle hlt
    omega
  rw [show ctx' = g.ctx from hctx, hindex]
  exact new

end Breeds

/-- What is alive and had a place was alive. -/
theorem Lasts.live (h : g.Lasts g') {v : Value} (old : v.index < g.values.size)
    (alive : v ∈ g'.live) : v ∈ g.live := by
  obtain ⟨d', hd'⟩ := mem_live.1 alive
  obtain ⟨n, hn, -⟩ := h.node old (node?_of_value? hd')
  obtain ⟨d, hd, -⟩ := value?_of_node? hn
  exact mem_live.2 ⟨d, hd⟩

/-- Creating a value breeds it. -/
theorem push_breeds (g : Graph) (d : ValueData) : g.Breeds (g.push d).2 := by
  refine .of_next rfl (by simp [push]) (fun {v d'} hd => ?_)
    ⟨d, (value?_push ..).trans (if_pos rfl)⟩
  rw [value?_push]
  split
  · exact ⟨d, rfl⟩
  · exact ⟨d', hd⟩

/-- Changing a value keeps all of them. -/
theorem modifyValue_breeds (g : Graph) (v : Value) (f : ValueData → ValueData) :
    g.Breeds (g.modifyValue v f) := by
  refine ⟨ctx_modifyValue .., fun {w d} hd => ?_, populates_of_size (size_modifyValue ..)⟩
  rw [value?_modifyValue]
  split
  · subst w
    exact ⟨f d, by rw [hd]; rfl⟩
  · exact ⟨d, hd⟩

/-- Creating a user breeds it. -/
theorem newUser_breeds {ty : Ty} {op : Operation} {name : Option String}
    {operands : List (Option Value)} {v : Value} (hc : g.Coherent)
    (run : newUser ty op name operands g = .ok v g') : g.Breeds g' := by
  obtain ⟨-, ctx, rfl, node⟩ := newUser_ok hc run
  have alive : ∀ {w n}, g'.node? w = some n → ∃ d, g'.value? w = some d := by
    intro w n hn
    obtain ⟨d, hd, -⟩ := value?_of_node? hn
    exact ⟨d, hd⟩
  refine .of_next ctx (newUser_size run) (fun {w d} hd => ?_) (alive ((node _).trans (if_pos rfl)))
  by_cases hw : w = ⟨g.ctx, g.values.size⟩
  · rw [hw, value?_next] at hd
    cases hd
  · exact alive ((node w).trans ((if_neg hw).trans (node?_of_value? hd)))

/-- A chain of creations breeds what it creates. -/
theorem breeds_of_creates (h : Relation.ReflTransGen Creates g g') : g.Breeds g' := by
  induction h with
  | refl => exact .refl g
  | tail _ step ih =>
    cases step with
    | value ty name kind => exact ih.trans (push_breeds ..)

/-- Setting an operand creates no value. -/
theorem setOperand_size {user : Value} {index : Nat} {target : Option Value} {a : Unit}
    (run : setOperand user index target g = .ok a g') : g'.values.size = g.values.size := by
  obtain ⟨d, u, e, -, -, -, -, effect⟩ := setOperand_ok run
  cases target with
  | none => rw [effect, size_clear]
  | some v => rw [effect.2, size_retarget]

/-- Replacing all uses creates no value. -/
theorem replaceAllUses_size {old new : Value} {a : Unit} (hc : g.Coherent)
    (run : replaceAllUses old new g = .ok a g') : g'.values.size = g.values.size := by
  have chain := replaceAllUses_steps hc old new a g' run
  exact size_of_sameSize (Relation.ReflTransGen.mono (fun _ _ h => Tame.size_eq h) _ _ chain)

end Graph

namespace Context

variable {c c' : Context}

/-- A change that breeds. -/
def Breeds (c c' : Context) : Prop := c.graph.Breeds c'.graph

/-- A chain of changes that breed breeds. -/
theorem breeds_of_chain (h : Relation.ReflTransGen Breeds c c') : c.graph.Breeds c'.graph := by
  induction h with
  | refl => exact .refl _
  | tail _ step ih => exact ih.trans step

/-- Making arguments breeds them. -/
theorem newArguments_breeds {f : Func} {index : Nat} {params : List Ty} {c : Context} :
    Run.Steps Breeds (newArguments f index params) c := by
  induction params generalizing index c with
  | nil => exact .pure
  | cons param params ih =>
    refine .bind (fun v c' h => ?_) fun _ _ _ => .bind ih fun _ _ _ => .pure
    obtain ⟨-, rfl⟩ := newValue_ok h
    exact .single (Graph.push_breeds ..)

/-- Making a function breeds it and its arguments. -/
theorem newFunction_breeds {name : String} {ty : Ty} : Run.Steps Breeds (newFunction name ty) c := by
  -- Values are made for the function and for its arguments, and nothing else makes any.
  refine .get_bind (.ask fun _ _ => .ask_fault fun k _ => .guard fun _ => ?_)
  split
  · exact .reject_bind
  · refine .bind (fun ptr c₁ h => ?_) fun ptr c₁ _ => .ask_fault fun d _ => ?_
    · obtain ⟨types, -, rfl⟩ := onTypes_ok h
      exact .single (.refl _)
    · split
      · refine .bind (fun v c₂ h => ?_) fun v c₂ _ => .bind newArguments_breeds fun args c₃ _ => ?_
        · obtain ⟨-, rfl⟩ := newValue_ok h
          exact .single (Graph.push_breeds ..)
        · refine .bind (fun _ c₄ h => ?_) fun _ c₄ _ => .bind (fun _ c₅ h => ?_) fun _ _ _ => .pure
          · obtain ⟨g, hg, rfl⟩ := onGraph_ok h
            cases hg
            exact .single (Graph.modifyValue_breeds ..)
          · cases h
            exact .single (.refl _)
      · exact .fault

/-- Making a block breeds it. -/
theorem newBlock_breeds {name : Option String} {b : Block} (h : newBlock name c = .ok b c') :
    c.graph.Breeds c'.graph := by
  obtain ⟨-, rfl⟩ := newBlock_ok h
  exact Graph.push_breeds ..

end Context

/-! ## Requests -/

namespace Request

open Context

variable {c c' : Context} {r : Request} {a : Answer}

/-- The effect on the graph tells, unless the request points no use anywhere. -/
theorem Effect.populates {g g' : Graph} (effect : r.Effect g a g') (hc : g.Coherent)
    (quiet : r.isFactory = false → r.isAttaching = false → r.isReplacing = false →
      g.Populates g') : g.Populates g' := by
  cases effect with
  | factory _ supply built =>
    have coherent := hc.quiets (Graph.quiets_of_creates supply)
    exact ((Graph.breeds_of_creates supply).trans (Graph.newUser_breeds coherent built)).populates
  | setOperand set => exact Graph.populates_of_size (Graph.setOperand_size set)
  | addCase first second => exact Graph.populates_of_size (Graph.pushPair_ok hc first second).1
  | addIncoming first second => exact Graph.populates_of_size (Graph.pushPair_ok hc first second).1
  | replaceAllUses replaced =>
    exact Graph.populates_of_size (Graph.replaceAllUses_size hc replaced)
  | quiet hf ha hr _ => exact quiet hf ha hr

/-- A request that creates makes the new places those of live values. -/
theorem creation_populates (hn : r.isCreation = true) (run : r.run c = .ok a c') :
    c.graph.Populates c'.graph := by
  cases r with
  | newFunction name ty =>
    obtain ⟨f, rfl, made⟩ := valued_eq_ok run
    exact (breeds_of_chain (newFunction_breeds _ _ made)).populates
  | newBlock name =>
    obtain ⟨b, rfl, made⟩ := valued_eq_ok run
    exact (newBlock_breeds made).populates
  | _ => cases hn

/-- What a request creates is alive when it is answered. -/
theorem run_populates (hs : c.Sound) (run : r.run c = .ok a c') : c.graph.Populates c'.graph := by
  refine (run_effect hs run).populates hs.graph fun hf ha hr => ?_
  cases hsupply : r.isSupply with
  | true =>
    have supply := supplies_graph (run_supply hs hsupply _ _ run)
    exact (Graph.breeds_of_creates supply).populates
  | false =>
    cases hn : r.isCreation with
    | true => exact creation_populates hn run
    | false =>
      exact Graph.populates_of_size (size_of_local (run_local hs hf ha hr hsupply hn _ _ run))

end Request

namespace Context

variable {c c' : Context}

/-- The number that the next value gets. -/
def nextId (c : Context) : Nat := c.graph.values.size + 1

/-- A live value has a number that has been given away. -/
theorem id_of_live (hs : c.Sound) {v : Value} (hv : v ∈ c.graph.live) :
    v.ctx = c.id ∧ 1 ≤ v.id ∧ v.id < c.nextId := by
  obtain ⟨d, hd⟩ := Graph.mem_live.1 hv
  exact ⟨(Graph.ctx_of_value? hd).trans hs.graphCtx, Nat.succ_pos _,
    Nat.succ_lt_succ (Graph.index_lt_of_value? hd)⟩

/-- A request creates the values that have the numbers from the next one on, up to the one that is
next afterwards. -/
theorem created_iff (hs : c.Sound) {r : Request} {a : Answer} (run : r.run c = .ok a c')
    {v : Value} : v ∈ c'.graph.live ∧ v ∉ c.graph.live ↔
      v.ctx = c.id ∧ c.nextId ≤ v.id ∧ v.id < c'.nextId := by
  have chain := Request.run_steps hs _ _ _ run
  have hs' := hs.of_chain chain
  constructor
  · rintro ⟨alive, fresh⟩
    obtain ⟨hctx, -, hlt⟩ := id_of_live hs' alive
    refine ⟨hctx.trans (id_of_chain hs chain), Nat.le_of_not_lt fun old => fresh ?_, hlt⟩
    exact (lasts_of_chain hs chain).live (Nat.lt_of_succ_lt_succ old) alive
  · rintro ⟨hctx, hle, hlt⟩
    have new := Request.run_populates hs run v (hctx.trans hs.graphCtx.symm)
      (Nat.le_of_succ_le_succ hle) (Nat.lt_of_succ_lt_succ hlt)
    exact ⟨Graph.mem_live.2 new, fun old => Nat.not_lt.2 hle (id_of_live hs old).2.2⟩

end Context

/-! ## Along a course -/

/-- The turn creates the value. -/
def Turn.Creates (t : Turn) (v : Value) : Prop := v ∈ t.after.graph.live ∧ v ∉ t.before.graph.live

namespace Context

variable {allowed : Context → Request → Prop} {c c' : Context} {ts : List Turn}

/-- Along a course, values keep what they are. -/
theorem Course.lasts (course : Course allowed c ts c') (hc : ReachedBy allowed c) :
    c.graph.Lasts c'.graph :=
  course.invariant (P := fun _ c' => c.graph.Lasts c'.graph) hc (.refl _)
    fun _ reached lasts _ run =>
      lasts.trans (lasts_of_chain reached.sound (Request.run_steps reached.sound _ _ _ run))

/-- A course stays in one context. -/
theorem Course.id_eq (course : Course allowed c ts c') (hc : ReachedBy allowed c) : c'.id = c.id :=
  course.invariant (P := fun _ c' => c'.id = c.id) hc rfl fun _ reached same _ run =>
    (id_of_chain reached.sound (Request.run_steps reached.sound _ _ _ run)).trans same

/-- The number of the next value does not fall along a course. -/
theorem Course.nextId_le (course : Course allowed c ts c') (hc : ReachedBy allowed c) :
    c.nextId ≤ c'.nextId :=
  Nat.succ_le_succ (course.lasts hc).size

/-- The numbers that a turn gives away are behind when the next turn comes. -/
theorem Course.turns_in_order (course : Course allowed c ts c') (hc : ReachedBy allowed c) :
    ts.Pairwise fun t t' => t.after.nextId ≤ t'.before.nextId := by
  refine course.invariant (P := fun ts _ => ts.Pairwise fun t t' => t.after.nextId ≤ t'.before.nextId)
    hc .nil fun {ts c₁ c₂ r a} course _ ordered _ _ => ?_
  refine List.pairwise_append.2 ⟨ordered, List.pairwise_singleton .., fun t ht t' ht' => ?_⟩
  obtain ⟨before, after, first, asked, run, rest⟩ := course.split_of_mem ht
  rw [List.mem_singleton.1 ht']
  exact rest.nextId_le (.answered (first.reachedBy hc) asked run)

/-- A turn creates the values whose numbers it gives away. -/
theorem Course.creates_iff (course : Course allowed c ts c') (hc : ReachedBy allowed c) {t : Turn}
    (ht : t ∈ ts) {v : Value} :
    t.Creates v ↔ v.ctx = c.id ∧ t.before.nextId ≤ v.id ∧ v.id < t.after.nextId := by
  obtain ⟨before, after, first, asked, run, rest⟩ := course.split_of_mem ht
  rw [Turn.Creates, created_iff (first.reachedBy hc).sound run, first.id_eq hc]

/-- A value that had a number is not created again. -/
theorem Course.not_live (course : Course allowed c ts c') (hc : ReachedBy allowed c) {v : Value}
    (old : v.id < c.nextId) (gone : v ∉ c.graph.live) : v ∉ c'.graph.live := by
  intro alive
  exact gone ((course.lasts hc).live (Nat.lt_of_succ_lt_succ old) alive)

end Context

end SsaGraph
