import SsaGraph.Proofs.Class

/-!
# Instructions keep their type rules

Every instruction is built so that it fits its type rule. It fits it ever after, as long as what is
handed in as a block, a switch or a phi is one, and operand slots are only pointed from one value to
another of the same type: no request then makes an operand slot hold a value of another type, and
the rules need no more than that (`Operation.Fits.mono`).

`WellTyped` is the invariant. Besides the rules it says that blocks are of type `label`, which the
branches, switches and phis need of the blocks they are given, and that the pool of constants is in
order, which `alloca` needs. A tame change keeps it because it narrows the graph: what is left of
the values has the types it had, and operand slots hold what they held before or something of the
same type or nothing. A new value keeps it because no operand slot holds it yet. The slots that a
new case or a new incoming edge brings come in pairs, after the first of which the rule does not
hold; so the two are one step here.
-/

namespace SsaGraph

namespace Context

variable {c c' : Context}

/-! ## The invariant -/

/-- Instructions fit their rules. -/
structure WellTyped (c : Context) : Prop where
  /-- The pool of constants is in order. -/
  pooled : c.Pooled
  /-- Blocks are of type `label`. -/
  label : ∀ {v n}, c.graph.node? v = some n → n.kind = .block → n.ty = c.types.label
  /-- Instructions fit their rules. -/
  fits : ∀ {v n op}, c.graph.node? v = some n → n.kind = .instruction op →
    op.Fits c.types n.ty (c.graph.slotTypes n.operands)

/-- A new context is well-typed. -/
theorem wellTyped_initial (id : ContextId) : (initial id).WellTyped := by
  have empty : ∀ v, (initial id).graph.node? v = none := by
    simp [initial, Graph.node?, Graph.bare?, Graph.value?, Graph.initial]
  refine ⟨⟨?_, ?_⟩, ?_, ?_⟩
  · intro ty k v h
    cases h
  · intro ty k v h
    cases h
  · intro v n h
    rw [empty] at h
    cases h
  · intro v n op h
    rw [empty] at h
    cases h

/-- A table that grows keeps the rules. -/
theorem WellTyped.grow {types : TypeTable} (h : c.WellTyped) (grows : c.types.GrowsTo types) :
    WellTyped { c with types } := by
  refine ⟨⟨h.pooled.created, h.pooled.typed⟩, fun {v n} hn hk => ?_, fun {v n op} hn hk => ?_⟩
  · exact (h.label hn hk).trans grows.label_eq.symm
  · exact (h.fits hn hk).mono grows (Under.all_refl _)

/-- The pool stays in order as long as the values that have been created keep their types. -/
theorem Pooled.keep {graph : Graph} (h : c.Pooled)
    (size : c.graph.values.size ≤ graph.values.size)
    (types : ∀ {v ty}, v.index < c.graph.values.size → graph.typeAt? v = some ty →
      c.graph.typeAt? v = some ty) : Pooled { c with graph } := by
  refine ⟨fun hv => ?_, fun hv ty hty => ?_⟩
  · exact Nat.lt_of_lt_of_le (h.created hv) size
  · exact h.typed hv ty (types (h.created hv) hty)

/-- A graph that narrows keeps the rules. -/
theorem WellTyped.narrow {graph : Graph} (h : c.WellTyped) (narrows : c.graph.Narrows graph) :
    WellTyped { c with graph } := by
  refine ⟨h.pooled.keep narrows.size fun _ => narrows.typeAt?, fun {v n'} hn' hk => ?_,
    fun {v n' op} hn' hk => ?_⟩
  · obtain ⟨n, hn, hty, alike, -⟩ := narrows.node hn'
    rw [hk] at alike
    exact hty.trans (h.label hn alike.eq_block)
  · obtain ⟨n, hn, hty, alike, under⟩ := narrows.node hn'
    rw [hk] at alike
    obtain ⟨op', hk', remark⟩ := alike.eq_instruction
    rw [hty]
    exact (remark (h.fits hn hk')).mono (.refl _) under

/-- A new value keeps the rules, if it fits its own. -/
theorem WellTyped.extend {graph : Graph} {v : Value} {n : Node} (h : c.WellTyped) (hs : c.Sound)
    (hv : v = ⟨c.graph.ctx, c.graph.values.size⟩)
    (size : c.graph.values.size ≤ graph.values.size)
    (node : ∀ w, graph.node? w = if w = v then some n else c.graph.node? w)
    (label : n.kind = .block → n.ty = c.types.label)
    (suits : ∀ op, n.kind = .instruction op → c.Suits n.ty op n.operands) :
    WellTyped { c with graph } := by
  -- The values that have been created are older than the new one.
  have types : ∀ {w : Value}, w.index < c.graph.values.size →
      graph.typeAt? w = c.graph.typeAt? w := by
    intro w hw
    rw [Graph.typeAt?_eq_node?, Graph.typeAt?_eq_node?, node, if_neg]
    rintro rfl
    rw [hv] at hw
    exact Nat.lt_irrefl _ hw
  refine ⟨h.pooled.keep size fun hw => by simp [types hw], fun {w m} hm hk => ?_,
    fun {w m op} hm hk => ?_⟩
  · rw [node] at hm
    split at hm
    · cases hm
      exact label hk
    · exact h.label hm hk
  · -- An operand is of a type that it already had, for the new value as well as for the old ones.
    rw [node] at hm
    split at hm
    · cases hm
      rw [Graph.slotTypes_congr fun x hx => types ((suits op hk).created hx)]
      exact (suits op hk).fits
    · rw [Graph.slotTypes_congr fun x hx => types ?_]
      · exact h.fits hm hk
      · obtain ⟨d, hd⟩ := hs.graph.operand_alive hm hx
        exact Graph.index_lt_of_value? hd

/-- A new value without operands keeps the rules. -/
theorem WellTyped.create (h : c.WellTyped) (hs : c.Sound) (ty : Ty) (kind : ValueKind)
    (name : Option String) (user : kind.isUser = false)
    (label : kind = .block → ty = c.types.label) :
    WellTyped { c with graph := (c.graph.push ⟨ty, name, kind, [], none, 0⟩).2 } := by
  refine h.extend hs rfl (by simp [Graph.push]) (Graph.node?_create _ _ _ _) label fun op hk => ?_
  have hk : kind = .instruction op := hk
  rw [hk] at user
  cases user

/-- A new constant keeps the rules. -/
theorem WellTyped.constant (h : c.WellTyped) (hs : c.Sound) (ty : Ty) (k : Constant) :
    WellTyped { c with
      graph := (c.graph.push ⟨ty, none, .constant k, [], none, 0⟩).2
      pool := c.pool.insert (ty, k) ⟨c.graph.ctx, c.graph.values.size⟩ } := by
  -- The value is created first, and then pooled under its own type.
  have created := h.create hs ty (.constant k) none rfl nofun
  refine ⟨⟨fun {ty' k' v} hv => ?_, fun {ty' k' v} hv => ?_⟩, created.label, created.fits⟩
  · rw [Keyed.get?_insert] at hv
    split at hv
    · cases hv
      simp [Graph.push]
    · exact created.pooled.created hv
  · rw [Keyed.get?_insert] at hv
    split at hv
    · rename_i hkey
      cases hkey
      cases hv
      rw [Graph.typeAt?_push]
      exact .some rfl
    · exact created.pooled.typed hv

/-- A change without new instructions or operands keeps the typing. -/
theorem WellTyped.tame (h : c.WellTyped) (hs : c.Sound) (ht : c.Tame c') : c'.WellTyped := by
  cases ht with
  | types ht => exact h.grow ht.growsTo
  | constant ty k => exact h.constant hs ty k
  | create name user label => exact h.create hs _ _ name user label
  | graph ht => exact h.narrow (ht.narrows hs.graph)
  | layout ht => exact ⟨⟨h.pooled.created, h.pooled.typed⟩, h.label, h.fits⟩
  | registry functions names => exact ⟨⟨h.pooled.created, h.pooled.typed⟩, h.label, h.fits⟩

/-- So does a chain of such changes. -/
theorem WellTyped.of_chain (h : c.WellTyped) (hs : c.Sound)
    (ht : Relation.ReflTransGen Tame c c') : c'.WellTyped := by
  induction ht with
  | refl => exact h
  | tail chain step ih => exact ih.tame (hs.of_chain (chain_of_tame chain)) step

/-! ## Requests that fill operand slots -/

/-- A pair of operand slots keeps the rules, if the instruction fits its own with them. -/
theorem WellTyped.pushPair {user x y : Value} {c₁ c₂ : Context} {a b : Unit} (h : c.WellTyped)
    (hs : c.Sound) (run₁ : pushOperand user x c = .ok a c₁)
    (run₂ : pushOperand user y c₁ = .ok b c₂)
    (fits : ∀ {n op}, c.graph.node? user = some n → n.kind = .instruction op →
      op.Fits c.types n.ty
        (c.graph.slotTypes n.operands ++ [c.graph.typeAt? x, c.graph.typeAt? y])) :
    c₂.WellTyped := by
  obtain ⟨g₁, hg₁, rfl⟩ := pushOperand_ok run₁
  obtain ⟨g₂, hg₂, rfl⟩ := pushOperand_ok run₂
  obtain ⟨size, node⟩ := Graph.pushPair_ok hs.graph hg₁ hg₂
  -- New slots do not change the type of any value.
  have types : ∀ w, g₂.typeAt? w = c.graph.typeAt? w := by
    intro w
    rw [Graph.typeAt?_eq_node?, Graph.typeAt?_eq_node?, node]
    split
    · cases c.graph.node? w <;> rfl
    · rfl
  refine ⟨h.pooled.keep (Nat.le_of_eq size.symm) fun _ => by simp [types],
    fun {w n'} hn' hk => ?_, fun {w n' op} hn' hk => ?_⟩
  · rw [node] at hn'
    split at hn'
    · obtain ⟨n, hn, rfl⟩ := Option.map_eq_some_iff.1 hn'
      have label := h.label hn hk
      exact label
    · exact h.label hn' hk
  · rw [Graph.slotTypes_congr fun w _ => types w]
    rw [node] at hn'
    split at hn'
    · subst w
      obtain ⟨n, hn, rfl⟩ := Option.map_eq_some_iff.1 hn'
      rw [Graph.slotTypes, List.map_append]
      exact fits hn hk
    · exact h.fits hn' hk

/-- A block has the label type. -/
theorem HasClass.isLabel {b : Block} (hb : c.HasClass b) (hs : c.Sound) (h : c.WellTyped) :
    c.IsLabel b := by
  intro ty hty
  rw [Graph.typeAt?_eq_node?] at hty
  obtain ⟨n, hn, rfl⟩ := Option.map_eq_some_iff.1 hty
  exact h.label hn (Class.kind_of_block (hb.kind hs hn))

/-- The type of the condition of a switch is that of its first operand slot. -/
theorem switchType_eq_ok (hs : c.Sound) {i : Handle .switch} {ty : Ty} {n : Node}
    (h : c.switchType i = .ok (some ty)) (hn : c.graph.node? i.value = some n) :
    (c.graph.slotTypes n.operands)[0]? = some (some ty) := by
  simp only [switchType, switchCondition, Question.bind_eq_ok_iff] at h
  obtain ⟨cond, hcond, h⟩ := h
  cases cond with
  | none => cases h
  | some w =>
    obtain ⟨ty', hty, h⟩ := Question.map_eq_ok_iff.1 h
    cases h
    obtain ⟨x, -, he⟩ := (operandAt_eq_ok_iff hs).1 hcond
    have hfirst := hs.graph.operands_getElem? he hn
    simp only at hfirst
    rw [Graph.slotTypes, List.getElem?_map, hfirst, Option.map_some, Option.bind_some,
      typeOf_eq_ok hty]

/-- Adding a case to a switch keeps the typing. -/
theorem addCase_wellTyped {i : Handle .switch} {value : Handle .intConstant} {dest : Block}
    {a : Unit} (h : c.WellTyped) (hs : c.Sound) (hi : c.HasClass i) (hdest : c.HasClass dest)
    (run : addCase i value dest c = .ok a c') : c'.WellTyped := by
  simp only [addCase, Run.bind_eq_ok_iff, Run.get_apply, Run.question_eq_ok_iff,
    Run.faulting_eq_ok_iff, Run.guard_eq_ok_iff] at run
  obtain ⟨_, _, h₀, _, _, ⟨-, rfl⟩, _, _, ⟨-, rfl⟩, cond, _, ⟨hcond, rfl⟩, ty, _, ⟨hty, rfl⟩, heq,
    _, c₁, run₁, run₂⟩ := run
  cases h₀
  refine h.pushPair hs run₁ run₂ fun {n op} hn hk => ?_
  have hswitch := Class.kind_of_switch (hi.kind hs hn)
  rw [hswitch] at hk
  cases hk
  rw [heq] at hcond
  exact (h.fits hn hswitch).append_case (switchType_eq_ok hs hcond hn) (slot_of_typeOf hty rfl)
    (hdest.isLabel hs h)

/-- Adding an incoming edge to a phi keeps the typing. -/
theorem addIncoming_wellTyped {p : Handle .phi} {value : Value} {b : Block} {a : Unit}
    (h : c.WellTyped) (hs : c.Sound) (hp : c.HasClass p) (hb : c.HasClass b)
    (run : addIncoming p value b c = .ok a c') : c'.WellTyped := by
  simp only [addIncoming, Run.bind_eq_ok_iff, Run.get_apply, Run.question_eq_ok_iff,
    Run.faulting_eq_ok_iff, Run.guard_eq_ok_iff] at run
  obtain ⟨_, _, h₀, _, _, ⟨-, rfl⟩, _, _, ⟨-, rfl⟩, ty, _, ⟨hty, rfl⟩, ty', _, ⟨hty', rfl⟩, heq,
    _, c₁, run₁, run₂⟩ := run
  cases h₀
  refine h.pushPair hs run₁ run₂ fun {n op} hn hk => ?_
  have hphi := Class.kind_of_phi (hp.kind hs hn)
  rw [hphi] at hk
  cases hk
  -- The check compares the type of the value with the type of the phi.
  have htype : ty = n.ty := by
    have := (typeOf_eq_ok hty').symm.trans (Graph.typeAt?_of_node? hn)
    rw [heq]
    exact Option.some.inj this
  exact (h.fits hn hphi).append_incoming (slot_of_typeOf hty htype) (hb.isLabel hs h)

/-- What `setOperand` replaces is what the slot is said to hold. -/
theorem operand_of_edge (hs : c.Sound) {user : Value} {d : ValueData} {i : Nat} {u : Use} {e : Edge}
    (hd : c.graph.value? user = some d) (huser : d.kind.isUser = true)
    (hu : d.operands[i]? = some u) (he : c.graph.edge? u = some e) :
    c.operand user i = .ok e.target := by
  simp only [operand, Question.bind_eq_ok_iff, check_eq_ok_iff, Question.lift_eq_ok_iff,
    valueData_eq_ok_iff hs, Question.guard_eq_ok_iff]
  refine ⟨(), ⟨d, hd⟩, d, hd, huser, ?_⟩
  rw [hu]
  simp [useData, Graph.edge_eq_ok_iff, he]

/-- Pointing a slot to a value of the type of the old one is tame. -/
theorem setOperand_tame (hs : c.Sound) {user : Value} {index : Nat} {target : Option Value}
    (keeps : ∀ v ∈ target, ∀ old ty, c.operand user index = .ok old → c.typeOf v = .ok ty →
      ∃ w, old = some w ∧ c.typeOf w = .ok ty) :
    Run.Steps Tame (setOperand user index target) c := by
  refine .get_bind (.ask fun _ _ => .ask fun _ _ => ?_)
  intro a c' h
  obtain ⟨g, hg, rfl⟩ := onGraph_ok h
  obtain ⟨d, u, e, hd, huser, hu, he, heff⟩ := Graph.setOperand_ok hg
  cases target with
  | none =>
    rw [heff]
    exact .single (.graph (.clear he))
  | some v =>
    obtain ⟨⟨d', hd'⟩, rfl⟩ := heff
    have hty : c.typeOf v = .ok d'.ty := by simp [typeOf, (valueData_eq_ok_iff hs).2 hd']
    obtain ⟨w, hw, hty'⟩ := keeps v rfl _ _ (operand_of_edge hs hd huser hu he) hty
    exact .single (.graph (.swap he hw (typeOf_eq_ok hty') (typeOf_eq_ok hty)))

end Context

/-! ## Disciplined histories -/

namespace Request

open Context

/-- The request keeps to classes and types. What it hands in as a block that is to be an operand, or
as the switch or phi that is to grow, is one; and a value that it puts into an operand slot has the
type of the value that the slot held. -/
def Disciplined (c : Context) : Request → Prop
  | br _ dest => c.HasClass dest
  | condBr _ _ ifTrue ifFalse => c.HasClass ifTrue ∧ c.HasClass ifFalse
  | switch _ _ dest => c.HasClass dest
  | addCase i _ dest => c.HasClass i ∧ c.HasClass dest
  | addIncoming p _ b => c.HasClass p ∧ c.HasClass b
  | setOperand user index target => ∀ v ∈ target, ∀ old ty, c.operand user index = .ok old →
    c.typeOf v = .ok ty → ∃ w, old = some w ∧ c.typeOf w = .ok ty
  | _ => True

variable {c c' : Context} {r : Request}

/-- A disciplined request finds its operands as it needs them. -/
theorem Disciplined.ready (hr : r.Disciplined c) (hs : c.Sound) (h : c.WellTyped) : r.Ready c := by
  cases r with
  | br site dest => exact HasClass.isLabel hr hs h
  | condBr site cond ifTrue ifFalse => exact ⟨hr.1.isLabel hs h, hr.2.isLabel hs h⟩
  | switch site cond dest => exact HasClass.isLabel hr hs h
  | alloca site ty size => exact h.pooled
  | _ => exact trivial

end Request

namespace Context

variable {c c' : Context}

/-- An emitted instruction keeps the rules, if its operands suit it. -/
theorem emit_wellTyped {cls : Class} {site : Site} {ty : Ty} {op : Operation}
    {operands : List (Option Value)} {i : Handle cls} (h : c.WellTyped) (hs : c.Sound)
    (suits : c.Suits ty op operands) (run : emit site ty op operands c = .ok i c') :
    c'.WellTyped := by
  obtain ⟨graph, _, hg, rfl, hp⟩ := emit_ok run
  obtain ⟨hc, hctx, hv, node⟩ := Graph.newUser_ok hs.graph hg
  have size : c.graph.values.size ≤ graph.values.size := by simp [Graph.newUser_size hg]
  have built : WellTyped { c with graph } := by
    refine h.extend hs hv size node nofun fun op' hop' => ?_
    cases hop'
    exact suits
  have sound : Sound { c with graph } := Change.sound (.graph (.build hg)) hs
  have place := place_steps (c := { c with graph }) (by rw [hv, hctx]) _ _ _ hp
  exact built.of_chain sound (chain_of_local place)

end Context

/-- Every disciplined request keeps the typing. -/
theorem Request.run_wellTyped {c c' : Context} {r : Request} {a : Answer} (h : c.WellTyped)
    (hs : c.Sound) (hr : r.Disciplined c) (run : r.run c = .ok a c') : c'.WellTyped := by
  cases hf : r.isFactory with
  | true =>
    -- What the factory supplies first keeps the typing, and its operands satisfy the rule of the
    -- opcode.
    obtain ⟨i, site, c₁, ty, op, operands, -, -, supplies, -, suits, hemit⟩ := run_emits hs hf run
    have chain := Context.chain_of_supply (chain_of_supplies supplies)
    have sound := hs.of_chain (Context.chain_of_tame chain)
    exact Context.emit_wellTyped (h.of_chain hs chain) sound (suits (hr.ready hs h)) hemit
  | false =>
    cases ha : r.isAttaching with
    | false => exact h.of_chain hs (run_tame hs hf ha _ _ run)
    | true =>
      -- Only these three attach an operand; the discipline is about them.
      cases r with
      | setOperand user index target =>
        exact h.of_chain hs (silent_steps (Context.setOperand_tame hs hr) _ _ run)
      | addCase i value dest =>
        obtain ⟨_, _, run, hret⟩ := Run.bind_eq_ok_iff.1 run
        cases hret
        exact Context.addCase_wellTyped h hs hr.1 hr.2 run
      | addIncoming i value b =>
        obtain ⟨_, _, run, hret⟩ := Run.bind_eq_ok_iff.1 run
        cases hret
        exact Context.addIncoming_wellTyped h hs hr.1 hr.2 run
      | _ => cases ha

namespace Context

variable {c : Context}

/-- The contexts that disciplined histories lead to. -/
abbrev Disciplined : Context → Prop := ReachedBy fun c r => r.Disciplined c

/-- A context that is reached by disciplined requests is well-typed. -/
theorem Disciplined.wellTyped (h : c.Disciplined) : c.WellTyped :=
  h.invariant wellTyped_initial fun hs h hr run => Request.run_wellTyped h hs hr run

/-- What operand slots hold is answered with its types. -/
theorem slotTypes_eq_ok (hs : c.Sound) {operands : List (Option Value)}
    (alive : ∀ v, some v ∈ operands → ∃ d, c.graph.value? v = some d) :
    operands.mapM (·.mapM c.typeOf) = .ok (c.graph.slotTypes operands) := by
  refine Question.mapM_eq_ok fun operand hmem => ?_
  cases operand with
  | none => rfl
  | some v =>
    obtain ⟨d, hd⟩ := alive v hmem
    refine Question.map_eq_ok_iff.2 ⟨d.ty, ?_, (Graph.typeAt?_of_value? hd).symm⟩
    simp [typeOf, (valueData_eq_ok_iff hs).2 hd]

/-- In every context that a disciplined history leads to, every instruction fits the type rule of
its operation. -/
theorem fits_of_disciplined (hc : c.Disciplined) {v : Value}
    {op : Operation} (hv : c.kindOf v = .ok (.instruction op)) :
    ∃ ty operands slots, c.typeOf v = .ok ty ∧ c.operands v = .ok operands ∧
      operands.mapM (·.mapM c.typeOf) = .ok slots ∧ op.Fits c.types ty slots := by
  have hs := hc.sound
  simp only [kindOf, Question.bind_eq_ok_iff, valueData_eq_ok_iff hs] at hv
  obtain ⟨d, hd, hk⟩ := hv
  have hn := Graph.node?_of_value? hd
  refine ⟨d.ty, _, _, ?_, operands_eq_ok hs hd, slotTypes_eq_ok hs ?_, hc.wellTyped.fits hn ?_⟩
  · simp [typeOf, (valueData_eq_ok_iff hs).2 hd]
  · exact fun w hw => hs.graph.operand_alive hn hw
  · simpa using hk

/-- For instance, after a branch was turned from one block to another. -/
theorem fits_after_turned_br : ∃ c₁ c₂ c₃ c₄ : Context,
    (Request.newBlock none).run (.initial ⟨1⟩) = .ok (.value ⟨⟨1⟩, 0⟩) c₁ ∧
    (Request.newBlock none).run c₁ = .ok (.value ⟨⟨1⟩, 1⟩) c₂ ∧
    (Request.br {} ⟨⟨⟨1⟩, 0⟩⟩).run c₂ = .ok (.value ⟨⟨1⟩, 2⟩) c₃ ∧
    (Request.setOperand ⟨⟨1⟩, 2⟩ 0 (some ⟨⟨1⟩, 1⟩)).run c₃ = .ok .unit c₄ ∧
    ∃ ty operands slots, c₄.typeOf ⟨⟨1⟩, 2⟩ = .ok ty ∧ c₄.operands ⟨⟨1⟩, 2⟩ = .ok operands ∧
      operands.mapM (·.mapM c₄.typeOf) = .ok slots ∧ Operation.br.Fits c₄.types ty slots := by
  have h₁ : Disciplined _ :=
    .answered (.initial ⟨1⟩) trivial (r := .newBlock none) rfl
  have h₂ : Disciplined _ :=
    .answered h₁ trivial (r := .newBlock none) rfl
  have h₃ : Disciplined _ :=
    .answered h₂ (hasClass_of_isa rfl) (r := .br {} ⟨⟨⟨1⟩, 0⟩⟩) rfl
  have h₄ : Disciplined _ :=
    .answered h₃ (fun | _, rfl, _, _, rfl, rfl => ⟨_, rfl, rfl⟩)
      (r := .setOperand ⟨⟨1⟩, 2⟩ 0 (some ⟨⟨1⟩, 1⟩)) rfl
  exact ⟨_, _, _, _, rfl, rfl, rfl, rfl, fits_of_disciplined h₄ rfl⟩

end Context

end SsaGraph
