import SsaGraph.Proofs.Handles

/-!
# The course of a history

`ReachedBy` says that a history leads to a context; `Course` also keeps what happened on the way. A
turn is one answered request, with the context it found, its answer and the context it left, and a
course lists the turns between two times of a history. Rejected requests change nothing and are left
out. So a statement about the past of a context ("asked for before", "attached last", "freed since")
is one about the turns of a course.

What a single turn does to the graph is told by `Request.Effect`, in the terms of the graph's own
operations: only factories, `setOperand`, `addCase`, `addIncoming` and `replaceAllUses` point a use
to a value, and each of them does so in one known way; all others are chains of quiet changes.
-/

namespace SsaGraph

namespace Graph

/-- A value without operands is created. -/
inductive Creates (g : Graph) : Graph → Prop
  | value (ty : Ty) (name : Option String) (kind : ValueKind) :
    Creates g (g.push ⟨ty, name, kind, [], none, 0⟩).2

/-- A change that points no use anywhere and builds no instruction. -/
inductive Quiet (g : Graph) : Graph → Prop
  | trim {g' : Graph} (h : g.Trim g') : Quiet g g'
  | create {g' : Graph} (h : g.Creates g') : Quiet g g'

/-- A quiet change keeps a graph coherent. -/
theorem Quiet.coherent {g g' : Graph} (h : g.Quiet g') (hc : g.Coherent) : g'.Coherent := by
  cases h with
  | trim h => exact (h.tame.coherent hc).1
  | create h =>
    cases h with
    | value ty name kind => exact hc.create ty kind name

/-- A chain of creations is one of quiet changes. -/
theorem quiets_of_creates {g g' : Graph} (h : Relation.ReflTransGen Creates g g') :
    Relation.ReflTransGen Quiet g g' :=
  Relation.ReflTransGen.mono (fun _ _ => Quiet.create) g g' h

/-- Quiet changes keep a graph coherent. -/
theorem Coherent.quiets {g g' : Graph} (hc : g.Coherent) (h : Relation.ReflTransGen Quiet g g') :
    g'.Coherent := by
  induction h with
  | refl => exact hc
  | tail _ step ih => exact step.coherent ih

end Graph

namespace Context

variable {c c' : Context}

/-- Quiet changes of a context are quiet changes of its graph. -/
theorem quiets_graph (h : Relation.ReflTransGen Quiet c c') :
    Relation.ReflTransGen Graph.Quiet c.graph c'.graph := by
  induction h with
  | refl => exact .refl
  | tail _ step ih =>
    cases step with
    | graph h => exact ih.tail (.trim h)
    | create _ graph _ =>
      rw [graph]
      exact ih.tail (.create (.value ..))
    | aside _ graph _ =>
      rw [graph]
      exact ih

/-- Making types and constants available creates values at most. -/
theorem supplies_graph (h : Relation.ReflTransGen Supply c c') :
    Relation.ReflTransGen Graph.Creates c.graph c'.graph := by
  induction h with
  | refl => exact .refl
  | tail _ step ih =>
    cases step with
    | types h => exact ih
    | constant typed new => exact ih.tail (.value ..)

/-- Placing an instruction changes the layout only. -/
theorem place_ok {i : Instruction} {point : InsertPoint} {a : Unit}
    (h : place i point c = .ok a c') : ∃ layout, c' = { c with layout } := by
  have placed : ∀ {m : Run Layout Unit}, onLayout m c = .ok a c' →
      ∃ layout, c' = { c with layout } := by
    intro m h
    obtain ⟨l, -, rfl⟩ := Run.on_eq_ok_iff.1 h
    exact ⟨l, rfl⟩
  cases point with
  | detached =>
    cases h
    exact ⟨c.layout, rfl⟩
  | before anchor => exact placed h
  | atEnd b => exact placed h

/-! ## Requests that point uses to values -/

/-- Setting an operand changes the graph only. -/
theorem setOperand_ok {user : Value} {index : Nat} {target : Option Value} {a : Unit}
    (h : setOperand user index target c = .ok a c') :
    ∃ g, Graph.setOperand user index target c.graph = .ok a g ∧ c' = { c with graph := g } := by
  simp only [setOperand, Run.bind_eq_ok_iff, Run.get_apply, Run.question_eq_ok_iff] at h
  obtain ⟨_, _, h₀, _, _, ⟨-, rfl⟩, _, _, ⟨-, rfl⟩, run⟩ := h
  cases h₀
  exact onGraph_ok run

/-- Replacing all uses changes the graph only. -/
theorem replaceAllUses_ok {old new : Value} {a : Unit} (h : replaceAllUses old new c = .ok a c') :
    ∃ g, Graph.replaceAllUses old new c.graph = .ok a g ∧ c' = { c with graph := g } := by
  simp only [replaceAllUses, Run.bind_eq_ok_iff, Run.get_apply, Run.question_eq_ok_iff] at h
  obtain ⟨_, _, h₀, _, _, ⟨-, rfl⟩, _, _, ⟨-, rfl⟩, run⟩ := h
  cases h₀
  exact onGraph_ok run

/-- Two operands are pushed, one after the other. -/
theorem pushOperands_ok {user first second : Value} {a : Unit}
    (h : (do pushOperand user first; pushOperand user second : Run Context Unit) c = .ok a c') :
    ∃ g₁ g₂, Graph.pushOperand user first c.graph = .ok () g₁ ∧
      Graph.pushOperand user second g₁ = .ok a g₂ ∧ c' = { c with graph := g₂ } := by
  obtain ⟨_, _, run₁, run₂⟩ := Run.bind_eq_ok_iff.1 h
  obtain ⟨g₁, pushed₁, rfl⟩ := pushOperand_ok run₁
  obtain ⟨g₂, pushed₂, rfl⟩ := pushOperand_ok run₂
  exact ⟨g₁, g₂, pushed₁, pushed₂, rfl⟩

/-- Adding a case is adding two operands in the graph. -/
theorem addCase_ok {i : Handle .switch} {value : Handle .intConstant} {dest : Block} {a : Unit}
    (h : addCase i value dest c = .ok a c') :
    ∃ g₁ g₂, Graph.pushOperand i.value value.value c.graph = .ok () g₁ ∧
      Graph.pushOperand i.value dest.value g₁ = .ok a g₂ ∧ c' = { c with graph := g₂ } := by
  simp only [addCase, Run.bind_eq_ok_iff, Run.get_apply, Run.question_eq_ok_iff,
    Run.faulting_eq_ok_iff, Run.guard_eq_ok_iff] at h
  obtain ⟨_, _, h₀, _, _, ⟨-, rfl⟩, _, _, ⟨-, rfl⟩, _, _, ⟨-, rfl⟩, _, _, ⟨-, rfl⟩, -, pushed⟩ := h
  cases h₀
  exact pushOperands_ok (Run.bind_eq_ok_iff.2 pushed)

/-- Adding an incoming edge is adding two operands in the graph. -/
theorem addIncoming_ok {i : Handle .phi} {value : Value} {b : Block} {a : Unit}
    (h : addIncoming i value b c = .ok a c') :
    ∃ g₁ g₂, Graph.pushOperand i.value value c.graph = .ok () g₁ ∧
      Graph.pushOperand i.value b.value g₁ = .ok a g₂ ∧ c' = { c with graph := g₂ } := by
  simp only [addIncoming, Run.bind_eq_ok_iff, Run.get_apply, Run.question_eq_ok_iff,
    Run.faulting_eq_ok_iff, Run.guard_eq_ok_iff] at h
  obtain ⟨_, _, h₀, _, _, ⟨-, rfl⟩, _, _, ⟨-, rfl⟩, _, _, ⟨-, rfl⟩, _, _, ⟨-, rfl⟩, -, pushed⟩ := h
  cases h₀
  exact pushOperands_ok (Run.bind_eq_ok_iff.2 pushed)

/-! ## Factories -/

/-- A factory creates constants at most, and then the graph gets the instruction. -/
theorem Builds.newUser {cls : Class} {ok : Prop} {site : Site} {m : Run Context (Handle cls)}
    {h : Handle cls} (builds : Builds Supply ok site m c) (run : m c = .ok h c') :
    ∃ g ty op name operands, Relation.ReflTransGen Graph.Creates c.graph g ∧
      Graph.newUser ty op name operands g = .ok h.value c'.graph := by
  obtain ⟨c₁, ty, op, operands, supply, -, -, -, emitted⟩ := builds h c' run
  obtain ⟨g, _, built, rfl, placed⟩ := emit_ok emitted
  obtain ⟨layout, rfl⟩ := place_ok placed
  exact ⟨c₁.graph, ty, op, site.name, operands, supplies_graph supply, built⟩

end Context

/-! ## What a turn does to the graph -/

/-- What an answered request does to the graph. -/
inductive Request.Effect (g : Graph) : Request → Answer → Graph → Prop
  /-- A factory builds one instruction. -/
  | factory {r : Request} {g₁ g' : Graph} {ty : Ty} {op : Operation} {name : Option String}
    {operands : List (Option Value)} {v : Value} (factory : r.isFactory = true)
    (supply : Relation.ReflTransGen Graph.Creates g g₁)
    (run : Graph.newUser ty op name operands g₁ = .ok v g') : Effect g r (.value v) g'
  | setOperand {user : Value} {index : Nat} {target : Option Value} {a : Answer} {g' : Graph}
    (run : Graph.setOperand user index target g = .ok () g') :
    Effect g (.setOperand user index target) a g'
  | addCase {i : Handle .switch} {value : Handle .intConstant} {dest : Block} {a : Answer}
    {g₁ g' : Graph} (first : Graph.pushOperand i.value value.value g = .ok () g₁)
    (second : Graph.pushOperand i.value dest.value g₁ = .ok () g') :
    Effect g (.addCase i value dest) a g'
  | addIncoming {i : Handle .phi} {value : Value} {b : Block} {a : Answer} {g₁ g' : Graph}
    (first : Graph.pushOperand i.value value g = .ok () g₁)
    (second : Graph.pushOperand i.value b.value g₁ = .ok () g') :
    Effect g (.addIncoming i value b) a g'
  | replaceAllUses {old new : Value} {a : Answer} {g' : Graph}
    (run : Graph.replaceAllUses old new g = .ok () g') : Effect g (.replaceAllUses old new) a g'
  /-- The others point no use anywhere. -/
  | quiet {r : Request} {a : Answer} {g' : Graph} (factory : r.isFactory = false)
    (attaching : r.isAttaching = false) (replacing : r.isReplacing = false)
    (chain : Relation.ReflTransGen Graph.Quiet g g') : Effect g r a g'

namespace Request

open Context

variable {c c' : Context} {r : Request} {a : Answer}

/-- A request that attaches or replaces operands changes the graph only. -/
theorem run_graph (h : (r.isAttaching || r.isReplacing) = true) (run : r.run c = .ok a c') :
    ∃ graph, c' = { c with graph } := by
  cases r with
  | setOperand user index target =>
    obtain ⟨g, -, rfl⟩ := setOperand_ok (silent_eq_ok run)
    exact ⟨g, rfl⟩
  | addCase i value dest =>
    obtain ⟨g₁, g₂, -, -, rfl⟩ := addCase_ok (silent_eq_ok run)
    exact ⟨g₂, rfl⟩
  | addIncoming i value b =>
    obtain ⟨g₁, g₂, -, -, rfl⟩ := addIncoming_ok (silent_eq_ok run)
    exact ⟨g₂, rfl⟩
  | replaceAllUses old new =>
    obtain ⟨g, -, rfl⟩ := replaceAllUses_ok (silent_eq_ok run)
    exact ⟨g, rfl⟩
  | _ => cases h

/-- Every successful request has one of the four effects on the graph. -/
theorem run_effect (hs : c.Sound) (run : r.run c = .ok a c') : r.Effect c.graph a c'.graph := by
  -- The four sorts of requests: the factories, those that attach, the one that replaces, and all
  -- others.
  cases hf : r.isFactory with
  | true =>
    obtain ⟨m, site, hm, builds⟩ := run_builds hs hf
    rw [hm] at run
    obtain ⟨h, rfl, made⟩ := valued_eq_ok run
    obtain ⟨g, ty, op, name, operands, supply, built⟩ := builds.newUser made
    exact .factory hf supply built
  | false =>
    cases ha : r.isAttaching with
    | true =>
      cases r with
      | setOperand user index target =>
        obtain ⟨g, set, rfl⟩ := setOperand_ok (silent_eq_ok run)
        exact .setOperand set
      | addCase i value dest =>
        obtain ⟨g₁, g₂, first, second, rfl⟩ := addCase_ok (silent_eq_ok run)
        exact .addCase first second
      | addIncoming i value b =>
        obtain ⟨g₁, g₂, first, second, rfl⟩ := addIncoming_ok (silent_eq_ok run)
        exact .addIncoming first second
      | _ => cases ha
    | false =>
      cases hr : r.isReplacing with
      | true =>
        cases r with
        | replaceAllUses old new =>
          obtain ⟨g, replaced, rfl⟩ := replaceAllUses_ok (silent_eq_ok run)
          exact .replaceAllUses replaced
        | _ => cases hr
      | false =>
        refine .quiet hf ha hr ?_
        -- What supplies creates types and constants at most; the rest does not attach anything.
        cases hsupply : r.isSupply with
        | true =>
          exact Graph.quiets_of_creates (supplies_graph (run_supply hs hsupply _ _ run))
        | false =>
          have hc := wantsConstant_eq_false hf hsupply
          exact quiets_graph (run_quiet hs hf ha hr hc _ _ run)

end Request

/-! ## Courses -/

/-- An answered request of a history. -/
structure Turn where
  /-- The context that the request found. -/
  before : Context
  /-- What was asked. -/
  request : Request
  /-- What was answered. -/
  answer : Answer
  /-- The context that the request left. -/
  after : Context

namespace Context

/-- The turns lead from one context to another; requests that are rejected may come between them. -/
inductive Course (allowed : Context → Request → Prop) (c : Context) : List Turn → Context → Prop
  | start : Course allowed c [] c
  | answered {ts : List Turn} {c₁ c₂ : Context} {r : Request} {a : Answer}
    (before : Course allowed c ts c₁) (request : allowed c₁ r) (run : r.run c₁ = .ok a c₂) :
    Course allowed c (ts ++ [⟨c₁, r, a, c₂⟩]) c₂
  | rejected {ts : List Turn} {c₁ c₂ : Context} {r : Request} {e : Error}
    (before : Course allowed c ts c₁) (request : allowed c₁ r)
    (run : r.run c₁ = .error (.rejected e) c₂) : Course allowed c ts c₂

variable {allowed : Context → Request → Prop} {c c' : Context} {ts : List Turn}

/-- What a course leads to is reached. -/
theorem Course.reachedBy (h : Course allowed c ts c') (hc : ReachedBy allowed c) :
    ReachedBy allowed c' := by
  induction h with
  | start => exact hc
  | answered _ request run ih => exact .answered ih request run
  | rejected _ request run ih => exact .rejected ih request run

/-- What is reached under a rule is reached under a weaker one. -/
theorem ReachedBy.mono {allowed' : Context → Request → Prop} (h : ReachedBy allowed c)
    (sub : ∀ c r, allowed c r → allowed' c r) : ReachedBy allowed' c := by
  induction h with
  | initial id => exact .initial id
  | answered _ request run ih => exact .answered ih (sub _ _ request) run
  | rejected _ request run ih => exact .rejected ih (sub _ _ request) run

/-- A property of the turns so far and the context they lead to: it holds at the start, and answered
requests keep it. -/
theorem Course.invariant {P : List Turn → Context → Prop} (h : Course allowed c ts c')
    (hc : ReachedBy allowed c) (start : P [] c)
    (answered : ∀ {ts c₁ c₂ r a}, Course allowed c ts c₁ → ReachedBy allowed c₁ → P ts c₁ →
      allowed c₁ r → r.run c₁ = .ok a c₂ → P (ts ++ [⟨c₁, r, a, c₂⟩]) c₂) : P ts c' := by
  induction h with
  | start => exact start
  | answered before request run ih => exact answered before (before.reachedBy hc) ih request run
  | rejected before request run ih =>
    rw [Request.run_atomic (before.reachedBy hc).sound _ _ _ run]
    exact ih

/-- A course under a rule is one under a weaker rule. -/
theorem Course.mono {allowed' : Context → Request → Prop} (h : Course allowed c ts c')
    (sub : ∀ c r, allowed c r → allowed' c r) : Course allowed' c ts c' := by
  induction h with
  | start => exact .start
  | answered _ request run ih => exact .answered ih (sub _ _ request) run
  | rejected _ request run ih => exact .rejected ih (sub _ _ request) run

/-- Whatever happens in a course, the type table only grows. -/
theorem Course.growsTo (h : Course allowed c ts c') (hc : ReachedBy allowed c) :
    c.types.GrowsTo c'.types :=
  h.invariant (P := fun _ c' => c.types.GrowsTo c'.types) hc (.refl c.types)
    fun _ reached grows _ run =>
      grows.trans (growsTo_of_chain (Request.run_steps reached.sound _ _ _ run))

/-- A course with a turn in it is one up to the turn, the turn, and one from there on. -/
theorem Course.split {t : Turn} {before after : List Turn}
    (h : Course allowed c (before ++ t :: after) c') :
    Course allowed c before t.before ∧ allowed t.before t.request ∧
      t.request.run t.before = .ok t.answer t.after ∧ Course allowed t.after after c' := by
  -- On the course, which ends with its last turn, so the turns behind `t` are taken off one by one.
  generalize hts : before ++ t :: after = ts at h
  induction h generalizing after with
  | start => simp at hts
  | @answered ts' c₁ c₂ r a course request run ih =>
    -- The last turn is the one, or the one comes earlier.
    rcases List.eq_nil_or_concat after with rfl | ⟨after', t', rfl⟩
    · obtain ⟨rfl, ht⟩ := List.append_inj' hts rfl
      cases ht
      exact ⟨course, request, run, .start⟩
    · rw [List.concat_eq_append, ← List.cons_append, ← List.append_assoc] at hts
      obtain ⟨rfl, ht⟩ := List.append_inj' hts rfl
      cases ht
      obtain ⟨first, asked, answered, rest⟩ := ih rfl
      rw [List.concat_eq_append]
      exact ⟨first, asked, answered, .answered rest request run⟩
  | rejected course request run ih =>
    obtain ⟨first, asked, answered, rest⟩ := ih hts
    exact ⟨first, asked, answered, .rejected rest request run⟩

/-- The same for a turn that is one of those of a course. -/
theorem Course.split_of_mem {t : Turn} (h : Course allowed c ts c') (ht : t ∈ ts) :
    ∃ before after, Course allowed c before t.before ∧ allowed t.before t.request ∧
      t.request.run t.before = .ok t.answer t.after ∧ Course allowed t.after after c' := by
  obtain ⟨before, after, rfl⟩ := List.append_of_mem ht
  exact ⟨before, after, h.split⟩

/-- A turn before a course. -/
theorem Course.cons {c₁ : Context} {r : Request} {a : Answer} (request : allowed c r)
    (run : r.run c = .ok a c₁) (h : Course allowed c₁ ts c') :
    Course allowed c (⟨c, r, a, c₁⟩ :: ts) c' := by
  induction h with
  | start => exact .answered .start request run
  | answered _ request run ih => exact .answered ih request run
  | rejected _ request run ih => exact .rejected ih request run

/-- The turns that requests make, one after the other, and the context they lead to, if all are made
with handles of live values and all are answered. -/
def record : List Request → Context → Option (List Turn × Context)
  | [], c => some ([], c)
  | r :: rs, c =>
    if ∀ m ∈ r.mentions, c.isa m.1 m.2 = .ok true then
      match r.run c with
      | .ok a c₁ => (record rs c₁).map fun (ts, c') => (⟨c, r, a, c₁⟩ :: ts, c')
      | .error _ _ => none
    else none

/-- What is recorded of a run is its course. -/
theorem course_of_record {rs : List Request} (h : record rs c = some (ts, c')) :
    Course Request.ClassChecked c ts c' := by
  -- On the requests; the record stops at the first that is not checked or not answered.
  induction rs generalizing c ts with
  | nil =>
    cases h
    exact .start
  | cons r rs ih =>
    rw [record] at h
    split at h
    · rename_i checked
      split at h
      · rename_i a c₁ run
        obtain ⟨⟨ts', c''⟩, rest, heq⟩ := Option.map_eq_some_iff.1 h
        cases heq
        exact .cons (fun m hm => hasClass_of_isa (checked m hm)) run (ih rest)
      · cases h
    · cases h

/-- A course of some requests, with something that can be seen of it and something that then holds
of all class-checked courses. -/
theorem exists_record (rs : List Request) (c : Context) {P Q : List Turn → Context → Prop}
    [∀ ts c', Decidable (P ts c')]
    (h : ((record rs c).any fun (ts, c') => decide (P ts c')) = true)
    (hQ : ∀ ts c', Course Request.ClassChecked c ts c' → P ts c' → Q ts c') :
    ∃ ts c', record rs c = some (ts, c') ∧ P ts c' ∧ Q ts c' := by
  obtain ⟨⟨ts, c'⟩, hts, hP⟩ := (Option.any_eq_true ..).1 h
  have hP : P ts c' := of_decide_eq_true hP
  exact ⟨ts, c', hts, hP, hQ ts c' (course_of_record hts) hP⟩

/-- The same for a course from what other requests lead to. -/
theorem exists_record_after (rs rs' : List Request) (id : ContextId)
    {P Q : Context → List Turn → Context → Prop} [∀ c ts c', Decidable (P c ts c')]
    (h : ((replay rs (.initial id)).any fun c =>
      (record rs' c).any fun (ts, c') => decide (P c ts c')) = true)
    (hQ : ∀ c ts c', replay rs (.initial id) = some c → Course Request.ClassChecked c ts c' →
      P c ts c' → Q c ts c') :
    ∃ c ts c', replay rs (.initial id) = some c ∧ record rs' c = some (ts, c') ∧ P c ts c' ∧
      Q c ts c' := by
  obtain ⟨c, hc, h⟩ := (Option.any_eq_true ..).1 h
  obtain ⟨ts, c', seen⟩ := exists_record rs' c h (hQ c · · hc)
  exact ⟨c, ts, c', hc, seen⟩

end Context

end SsaGraph
