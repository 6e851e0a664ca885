import SsaGraph.Proofs.Shaping

/-!
# Edges of phis and switches

The operand slots of a phi are its incoming edges, a value and a block for each. Those of a switch
are the condition and the default destination, and then a value and a block for each case. An edge
is added slot by slot. It is added as a whole or not at all: what can be wrong with the second slot
is found out before the first is there.

Slots of earlier edges may have been emptied or pointed elsewhere, even to values that do not belong
there. Their number is even nevertheless, so what is added last is the last edge, and the earlier
ones are read as before, whatever they are.
-/

namespace SsaGraph

open Run (Firm)

namespace Run

variable {α β σ : Type}

/-- If the request fails in the state `s`, in whatever way, the state is left as it was. -/
def Harmless (m : Run σ α) (s : σ) : Prop := ∀ e s', m s = .error e s' → s' = s

namespace Harmless

/-- What is atomic and calm is harmless. -/
theorem of_atomic {m : Run σ α} {s : σ} (atomic : Atomic m s) (calm : Calm m s) :
    Harmless m s := by
  intro e s' h
  cases e with
  | rejected err => exact atomic err s' h
  | fatal f => exact absurd trivial (calm _ s' h)

/-- Reading the state does no harm. -/
theorem get_bind {f : σ → Run σ β} {s : σ} (hf : Harmless (f s) s) : Harmless (get >>= f) s := by
  intro e s' h
  rw [bind_apply, get_apply] at h
  exact hf e s' h

/-- A question changes nothing. -/
theorem ask {x : Except Failure α} {f : α → Run σ β} {s : σ}
    (hf : ∀ a, x = .ok a → Harmless (f a) s) : Harmless (liftM x >>= f) s := by
  intro e s' h
  rw [bind_apply, question_apply] at h
  cases x with
  | ok a => exact hf a rfl e s' h
  | error e' =>
    cases h
    rfl

/-- A question does no harm, and what follows may use its answer. -/
theorem ask_fault {x : Except Fault α} {f : α → Run σ β} {s : σ}
    (hf : ∀ a, x = .ok a → Harmless (f a) s) : Harmless (liftM x >>= f) s := by
  intro e s' h
  rw [bind_apply, faulting_apply] at h
  cases x with
  | ok a => exact hf a rfl e s' h
  | error f =>
    cases h
    rfl

/-- What follows a guard may use that it passed. -/
theorem guard {p : Prop} [Decidable p] {m : Run σ β} {e : Error} {f : α → Run σ β} {s : σ}
    (hm : p → Harmless m s) : Harmless (if p then m else (reject e >>= f)) s := by
  intro e' s' h
  split at h
  · exact hm ‹_› e' s' h
  · cases h
    rfl

end Harmless

end Run

/-- A value of a class has a node of a kind of the class. -/
theorem Graph.Has.node {g : Graph} {cls : Class} {v : Value} (h : g.Has cls v) :
    ∃ n, g.node? v = some n ∧ cls.contains n.kind = true := by
  obtain ⟨d, hd, hkind⟩ := has_iff.1 h
  exact ⟨_, node?_of_value? hd, hkind⟩

namespace Context

variable {c c' : Context} {user v w x y : Value} {n : Node}

/-! ## What is seen of a value -/

/-- The kind that is answered of a value is that of its node. -/
theorem kindOf_of_node? (hs : c.Sound) (hn : c.graph.node? v = some n) :
    c.kindOf v = .ok n.kind := by
  obtain ⟨d, hd, rfl⟩ := Graph.value?_of_node? hn
  exact Question.bind_eq_ok_iff.2 ⟨d, (valueData_eq_ok_iff hs).2 hd, rfl⟩

/-- The operands that are answered of a value are those of its node. -/
theorem operands_of_node? (hs : c.Sound) (hn : c.graph.node? v = some n) :
    c.operands v = .ok n.operands := by
  obtain ⟨d, hd, rfl⟩ := Graph.value?_of_node? hn
  exact operands_eq_ok hs hd

/-- A value has as many operand slots as its node has operands. -/
theorem operandSlots_of_node? (hs : c.Sound) (hn : c.graph.node? v = some n) :
    ∃ slots, c.operandSlots v = .ok slots ∧ slots.length = n.operands.length := by
  obtain ⟨d, hd, rfl⟩ := Graph.value?_of_node? hn
  exact ⟨d.operands, by simp [operandSlots, (valueData_eq_ok_iff hs).2 hd], by simp⟩

/-- The operand that is answered of a value is that of its node. -/
theorem operandAt_of_node? (hs : c.Sound) (hn : c.graph.node? v = some n) (i : Nat) :
    c.operandAt v i = .ok n.operands[i]?.join := by
  obtain ⟨d, hd, rfl⟩ := Graph.value?_of_node? hn
  simp only [operandAt, Graph.operand, Question.bind_eq_ok_iff, valueData_eq_ok_iff hs,
    Graph.value_eq_ok_iff]
  refine ⟨d, hd, d, hd, ?_⟩
  cases hx : d.operands[i]? with
  | none => simp [hx]
  | some u =>
    obtain ⟨t, ht⟩ := hs.graph.owned (v := v) (i := i) (by simpa [Graph.slot?, hd] using hx)
    simp [hx, Graph.edge_eq_ok_iff.2 ht, Graph.target?, ht]

/-- A value that is not alive is met with a fault, and with the same one at all times. -/
theorem valueData_of_node?_eq_none (h : c.graph.node? v = none) :
    c.valueData v = .error (if v.ctx ≠ c.id then .foreignValue v else .missingValue v) := by
  have h : c.graph.value? v = none := by simpa [Graph.node?, Graph.bare?] using h
  rw [valueData, Graph.value, h]
  split <;> rfl

/-- The kind of a value that is not there is not answered, with the reason why. -/
theorem kindOf_of_node?_eq_none (h : c.graph.node? v = none) :
    c.kindOf v = .error (if v.ctx ≠ c.id then .foreignValue v else .missingValue v) := by
  rw [kindOf, valueData_of_node?_eq_none h]
  rfl

/-- The operands of a value that is not there are not answered, with the reason why. -/
theorem operands_of_node?_eq_none (h : c.graph.node? v = none) :
    c.operands v = .error (if v.ctx ≠ c.id then .foreignValue v else .missingValue v) := by
  rw [operands, operandSlots, valueData_of_node?_eq_none h]
  rfl

/-! ## New operands -/

/-- From `c` to `c'` a value gets operands, and nothing else changes. -/
structure Lengthens (c c' : Context) (user : Value) (more : List (Option Value)) : Prop where
  /-- It is the same context. -/
  id : c'.id = c.id
  /-- The new operands come last. -/
  node : ∀ w, c'.graph.node? w =
    if w = user then (c.graph.node? w).map fun n => { n with operands := n.operands ++ more }
    else c.graph.node? w

namespace Lengthens

variable {more : List (Option Value)} (h : c.Lengthens c' user more) (hs : c.Sound) (hs' : c'.Sound)

include h

/-- The node of the user has the further operands behind the ones it had. -/
theorem user_node (hn : c.graph.node? user = some n) :
    c'.graph.node? user = some { n with operands := n.operands ++ more } := by
  rw [h.node, if_pos rfl, hn]
  rfl

/-- A value that was not there is not there now. -/
theorem node_eq_none (hn : c.graph.node? w = none) : c'.graph.node? w = none := by
  rw [h.node]
  split
  · rw [hn]
    rfl
  · exact hn

include hs hs'

/-- The answer to the question for a kind is the same. -/
theorem kindOf_eq (w : Value) : c'.kindOf w = c.kindOf w := by
  cases hn : c.graph.node? w with
  | none => rw [kindOf_of_node?_eq_none hn, kindOf_of_node?_eq_none (h.node_eq_none hn), h.id]
  | some n =>
    rw [kindOf_of_node? hs hn]
    by_cases hw : w = user
    · subst hw
      rw [kindOf_of_node? hs' (h.user_node hn)]
    · exact kindOf_of_node? hs' (((h.node w).trans (if_neg hw)).trans hn)

/-- The answer to a narrowing is the same. -/
theorem narrow_eq (cls : Class) (w : Value) : c'.narrow cls w = c.narrow cls w := by
  unfold narrow narrow? isa
  rw [h.kindOf_eq hs hs']

/-- A value that had its class is narrowed to it. -/
theorem narrow_new {cls : Class} {i : Handle cls} (hi : c.graph.Has cls i.value) :
    c'.narrow cls i.value = .ok i := by
  have isa := (isa_eq_true_iff hs).2 hi
  rw [h.narrow_eq hs hs', narrow, narrow?, isa]
  rfl

/-- All other values keep their operands. -/
theorem operands_eq (hw : w ≠ user) : c'.operands w = c.operands w := by
  cases hn : c.graph.node? w with
  | none => rw [operands_of_node?_eq_none hn, operands_of_node?_eq_none (h.node_eq_none hn), h.id]
  | some n =>
    rw [operands_of_node? hs hn]
    exact operands_of_node? hs' (((h.node w).trans (if_neg hw)).trans hn)

/-- The value keeps the operands that it has. -/
theorem operandAt_eq (hn : c.graph.node? user = some n) {i : Nat} (hi : i < n.operands.length) :
    c'.operandAt user i = c.operandAt user i := by
  rw [operandAt_of_node? hs hn, operandAt_of_node? hs' (h.user_node hn),
    List.getElem?_append_left hi]

/-- The operands that were there are read as before. -/
theorem operandAs_eq (hn : c.graph.node? user = some n) {i : Nat} (hi : i < n.operands.length)
    (cls : Class) : c'.operandAs cls user i = c.operandAs cls user i := by
  have same : c'.narrow cls = c.narrow cls := funext (h.narrow_eq hs hs' cls)
  rw [operandAs, operandAs, h.operandAt_eq hs hs' hn hi, same]

omit hs in
/-- The new operands are found after those that it had. -/
theorem operandAt_new (hn : c.graph.node? user = some n) (i : Nat) :
    c'.operandAt user (n.operands.length + i) = .ok more[i]?.join := by
  rw [operandAt_of_node? hs' (h.user_node hn), List.getElem?_append_right (by omega),
    Nat.add_sub_cancel_left]

end Lengthens

/-- What two slots that are added one after the other do. -/
theorem lengthens_of_pushPair {g₁ g₂ : Graph} {a b : Unit} (hs : c.Sound)
    (run₁ : Graph.pushOperand user x c.graph = .ok a g₁)
    (run₂ : Graph.pushOperand user y g₁ = .ok b g₂) :
    c.Lengthens { c with graph := g₂ } user [some x, some y] :=
  ⟨rfl, (Graph.pushPair_ok hs.graph run₁ run₂).2⟩

/-- A variadic instruction takes operands. -/
theorem pushOperand_firm {d : ValueData} (hd : c.graph.value? user = some d)
    (variadic : d.kind.isVariadic = true) (hx : x.ctx = c.graph.ctx) :
    Firm (pushOperand user x) c := by
  refine .get_bind (.ask ?_ fun _ _ => .ask (Graph.check_not_rejected hx) fun _ _ => ?_)
  · exact Graph.check_not_rejected (Graph.ctx_of_value? hd)
  · refine onGraph_firm (Graph.pushOperand_firm fun d' hd' => ?_)
    rw [hd] at hd'
    cases hd'
    exact variadic

/-- Two operands can be added to an instruction that takes any number of them. -/
theorem pushTwice_answered {d : ValueData} {a b : Class} (hs : c.Sound)
    (hd : c.graph.value? user = some d) (variadic : d.kind.isVariadic = true)
    (hx : c.graph.Has a x) (hy : c.graph.Has b y) :
    ∃ c', (do pushOperand user x; pushOperand user y : Run Context Unit) c = .ok () c' := by
  obtain ⟨dx, hdx⟩ := hx.value?
  obtain ⟨dy, hdy⟩ := hy.value?
  have first := pushOperand_firm hd variadic (Graph.ctx_of_value? hdx)
  -- The instruction is of the same kind when the second operand comes.
  have second : ∀ {c₁}, pushOperand user x c = .ok () c₁ → Firm (pushOperand user y) c₁ := by
    intro c₁ run
    obtain ⟨g, pushed, rfl⟩ := pushOperand_ok run
    obtain ⟨-, gctx, -, -, node⟩ := Graph.pushOperand_ok hs.graph pushed
    have after := node user
    rw [if_pos rfl, Graph.node?_of_value? hd] at after
    obtain ⟨d₁, hd₁, same⟩ := Graph.value?_of_node? after
    have kind : d.kind = d₁.kind := congrArg Node.kind same
    exact pushOperand_firm hd₁ (kind ▸ variadic) ((Graph.ctx_of_value? hdy).trans gctx.symm)
  obtain ⟨_, c', run⟩ := Run.ok_of_avoids (.bind first fun _ _ run => second run)
    (pushTwice_calm hs (Graph.has_of_value? hd) hx hy)
  exact ⟨c', run⟩

/-- A pair of operands that is not added leaves nothing behind. -/
theorem pushTwice_harmless {a : Unit} (hs : c.Sound) {ty : Ty} (hu : c.typeOf user = .ok ty)
    (hx : c.check x = .ok a) (hy : c.check y = .ok a) :
    Run.Harmless (do pushOperand user x; pushOperand user y : Run Context Unit) c := by
  simp only [typeOf, Question.bind_eq_ok_iff, valueData_eq_ok_iff hs] at hu
  obtain ⟨d, hd, -⟩ := hu
  obtain ⟨dx, hdx⟩ := check_eq_ok_iff.1 hx
  obtain ⟨dy, hdy⟩ := check_eq_ok_iff.1 hy
  exact .of_atomic (pushTwice_atomic hs (Graph.ctx_of_value? hdy))
    (pushTwice_calm hs (Graph.has_of_value? hd) (Graph.has_of_value? hdx) (Graph.has_of_value? hdy))

/-! ## Incoming edges -/

/-- A failed incoming edge leaves the context as it was. -/
theorem addIncoming_harmless {p : Handle .phi} {b : Block} (hs : c.Sound) :
    Run.Harmless (addIncoming p v b) c :=
  .get_bind (.ask fun _ hv => .ask fun _ hb => .ask_fault fun _ _ => .ask_fault fun _ hp =>
    .guard fun _ => pushTwice_harmless hs hp hv hb)

/-- An incoming edge is added exactly when both handles are known, the types agree, and the two
operands can be added. -/
theorem addIncoming_eq_ok_iff {p : Handle .phi} {b : Block} {a : Unit} :
    addIncoming p v b c = .ok a c' ↔
      c.check v = .ok () ∧ c.check b.value = .ok () ∧
        (∃ ty, c.typeOf v = .ok ty ∧ c.typeOf p.value = .ok ty) ∧
        (do pushOperand p.value v; pushOperand p.value b.value : Run Context Unit) c =
          .ok a c' := by
  simp only [addIncoming, Run.bind_eq_ok_iff, Run.get_apply, Run.question_eq_ok_iff,
    Run.faulting_eq_ok_iff, Run.guard_eq_ok_iff]
  constructor
  · rintro ⟨_, _, h₀, _, _, ⟨hv, rfl⟩, _, _, ⟨hb, rfl⟩, tv, _, ⟨htv, rfl⟩, tp, _, ⟨htp, rfl⟩, same,
      run⟩
    cases h₀
    exact ⟨hv, hb, ⟨tv, htv, same ▸ htp⟩, run⟩
  · rintro ⟨hv, hb, ⟨ty, htv, htp⟩, run⟩
    exact ⟨c, c, rfl, (), c, ⟨hv, rfl⟩, (), c, ⟨hb, rfl⟩, ty, c, ⟨htv, rfl⟩, ty, c, ⟨htp, rfl⟩, rfl,
      run⟩

/-- An incoming edge of live values is accepted exactly when the types agree. -/
theorem addIncoming_answered_iff {p : Handle .phi} {b : Block} (hs : c.Sound)
    (hp : c.graph.Has .phi p.value) (hv : c.graph.Has .value v) (hb : c.graph.Has .block b.value) :
    (∃ a c', addIncoming p v b c = .ok a c') ↔
      ∃ ty, c.typeOf v = .ok ty ∧ c.typeOf p.value = .ok ty := by
  constructor
  · rintro ⟨a, c', run⟩
    exact (addIncoming_eq_ok_iff.1 run).2.2.1
  · intro typed
    obtain ⟨d, hd, hkind⟩ := Graph.has_iff.1 hp
    have variadic : d.kind.isVariadic = true := by
      rw [Class.kind_of_phi hkind]
      rfl
    obtain ⟨c', run⟩ := pushTwice_answered hs hd variadic hv hb
    exact ⟨(), c', addIncoming_eq_ok_iff.2
      ⟨check_eq_ok_iff.2 hv.value?, check_eq_ok_iff.2 hb.value?, typed, run⟩⟩

/-- From `c` to `c'` an edge is added to a phi. -/
structure AddsIncoming (c c' : Context) (p : Handle .phi) (v : Value) (b : Block) : Prop where
  /-- The edge is the last one, and the earlier ones are what they were. -/
  edges : ∃ n, c.numIncoming p = .ok n ∧ c'.numIncoming p = .ok (n + 1) ∧
    c'.incomingValue p n = .ok (some v) ∧ c'.incomingBlock p n = .ok (some b) ∧
    ∀ i < n, c'.incomingValue p i = c.incomingValue p i ∧
      c'.incomingBlock p i = c.incomingBlock p i
  /-- No other operands change. -/
  others : ∀ w ≠ p.value, c'.operands w = c.operands w

/-- The number of incoming edges is half that of the operands. -/
theorem numIncoming_of_node? {p : Handle .phi} {k : Nat} (hs : c.Sound)
    (hn : c.graph.node? p.value = some n) (length : n.operands.length = k * 2) :
    c.numIncoming p = .ok k := by
  obtain ⟨slots, hslots, same⟩ := operandSlots_of_node? hs hn
  rw [numIncoming, hslots]
  show Except.ok (slots.length / 2) = Except.ok k
  rw [same, length, Nat.mul_div_cancel k Nat.two_pos]

section

variable {p : Handle .phi} {k : Nat} (hk : c.numIncoming p = .ok k)

include hk

/-- The value of an incoming edge is the first of its two operands. -/
theorem incomingValue_eq {i : Nat} (hi : i < k) :
    c.incomingValue p i = c.operandAt p.value (i * 2) := by
  rw [incomingValue, hk]
  exact if_pos hi

/-- The block of an incoming edge is the second of its two operands. -/
theorem incomingBlock_eq {i : Nat} (hi : i < k) :
    c.incomingBlock p i = c.operandAs .block p.value (i * 2 + 1) := by
  rw [incomingBlock, hk]
  exact if_pos hi

end

/-- With the two operands behind the others, the phi has one more edge and no other change. -/
theorem Lengthens.addsIncoming {p : Handle .phi} {b : Block}
    (h : c.Lengthens c' p.value [some v, some b.value]) (hs : c.Sound) (hs' : c'.Sound)
    (shaped : c.graph.Shaped c.types) (hp : c.graph.Has .phi p.value)
    (hb : c.graph.Has .block b.value) : c.AddsIncoming c' p v b := by
  obtain ⟨n, hn, hkind⟩ := hp.node
  have even : n.operands.length % 2 = 0 := shaped hn (Class.kind_of_phi hkind)
  obtain ⟨k, length⟩ : ∃ k, n.operands.length = k * 2 := ⟨n.operands.length / 2, by omega⟩
  -- The operands come in pairs, so the number of edges says where the new pair starts.
  have before : c.numIncoming p = .ok k := numIncoming_of_node? hs hn length
  have after : c'.numIncoming p = .ok (k + 1) := by
    refine numIncoming_of_node? hs' (h.user_node hn) ?_
    rw [List.length_append, length, Nat.add_mul]
    rfl
  have value : c'.operandAt p.value (k * 2) = .ok (some v) := length ▸ h.operandAt_new hs' hn 0
  have block : c'.operandAt p.value (k * 2 + 1) = .ok (some b.value) :=
    length ▸ h.operandAt_new hs' hn 1
  refine ⟨⟨k, before, after, ?_, ?_, fun i hi => ⟨?_, ?_⟩⟩, fun w hw => h.operands_eq hs hs' hw⟩
  · rw [incomingValue_eq after (Nat.lt_succ_self k), value]
  · rw [incomingBlock_eq after (Nat.lt_succ_self k), operandAs, block]
    exact Question.map_eq_ok_iff.2 ⟨b, h.narrow_new hs hs' hb, rfl⟩
  · rw [incomingValue_eq after (by omega), incomingValue_eq before hi]
    exact h.operandAt_eq hs hs' hn (by omega)
  · rw [incomingBlock_eq after (by omega), incomingBlock_eq before hi]
    exact h.operandAs_eq hs hs' hn (by omega) .block

/-! ## Cases -/

/-- A switch whose type is read has a type. -/
theorem typeOf_of_switchType {s : Handle .switch} {o : Option Ty} (h : c.switchType s = .ok o) :
    ∃ ty, c.typeOf s.value = .ok ty := by
  simp only [switchType, switchCondition, operandAt, Question.bind_eq_ok_iff] at h
  obtain ⟨_, ⟨d, hd, -⟩, -⟩ := h
  exact ⟨d.ty, Question.bind_eq_ok_iff.2 ⟨d, hd, rfl⟩⟩

/-- A failed case leaves the context as it was. -/
theorem addCase_harmless {s : Handle .switch} {value : Handle .intConstant} {dest : Block}
    (hs : c.Sound) : Run.Harmless (addCase s value dest) c := by
  refine .get_bind (.ask fun _ hv => .ask fun _ hd => .ask_fault fun _ hcond =>
    .ask_fault fun _ _ => .guard fun _ => ?_)
  obtain ⟨ty, hty⟩ := typeOf_of_switchType hcond
  exact pushTwice_harmless hs hty hv hd

/-- The type a switch compares in is that of its condition. -/
theorem switchType_eq_some_iff {s : Handle .switch} {ty : Ty} :
    c.switchType s = .ok (some ty) ↔
      ∃ w, c.switchCondition s = .ok (some w) ∧ c.typeOf w = .ok ty := by
  simp only [switchType, Question.bind_eq_ok_iff]
  constructor
  · rintro ⟨o, ho, h⟩
    cases o with
    | none => cases h
    | some w =>
      obtain ⟨_, hty, ⟨⟩⟩ := Question.map_eq_ok_iff.1 h
      exact ⟨w, ho, hty⟩
  · rintro ⟨w, ho, hty⟩
    exact ⟨some w, ho, Question.map_eq_ok_iff.2 ⟨ty, hty, rfl⟩⟩

/-- A case is added exactly when both handles are known, the value has the type of the condition,
and the two operands can be added. -/
theorem addCase_eq_ok_iff {s : Handle .switch} {value : Handle .intConstant} {dest : Block}
    {a : Unit} :
    addCase s value dest c = .ok a c' ↔
      c.check value.value = .ok () ∧ c.check dest.value = .ok () ∧
        (∃ w ty, c.switchCondition s = .ok (some w) ∧ c.typeOf w = .ok ty ∧
          c.typeOf value.value = .ok ty) ∧
        (do pushOperand s.value value.value; pushOperand s.value dest.value : Run Context Unit) c =
          .ok a c' := by
  -- Three checks and then two attachments; the second check reads the type of the condition.
  simp only [addCase, Run.bind_eq_ok_iff, Run.get_apply, Run.question_eq_ok_iff,
    Run.faulting_eq_ok_iff, Run.guard_eq_ok_iff]
  constructor
  · rintro ⟨_, _, h₀, _, _, ⟨hv, rfl⟩, _, _, ⟨hd, rfl⟩, o, _, ⟨hcond, rfl⟩, ty, _, ⟨hty, rfl⟩, rfl,
      run⟩
    cases h₀
    obtain ⟨w, hw, hw'⟩ := switchType_eq_some_iff.1 hcond
    exact ⟨hv, hd, ⟨w, ty, hw, hw', hty⟩, run⟩
  · rintro ⟨hv, hd, ⟨w, ty, hw, hw', hty⟩, run⟩
    have hcond := switchType_eq_some_iff.2 ⟨w, hw, hw'⟩
    exact ⟨c, c, rfl, (), c, ⟨hv, rfl⟩, (), c, ⟨hd, rfl⟩, some ty, c, ⟨hcond, rfl⟩, ty, c,
      ⟨hty, rfl⟩, rfl, run⟩

/-- A case of live values is accepted exactly when the value has the type of the condition. -/
theorem addCase_answered_iff {s : Handle .switch} {value : Handle .intConstant} {dest : Block}
    (hs : c.Sound) (hi : c.graph.Has .switch s.value) (hv : c.graph.Has .intConstant value.value)
    (hd : c.graph.Has .block dest.value) :
    (∃ a c', addCase s value dest c = .ok a c') ↔ ∃ w ty, c.switchCondition s = .ok (some w) ∧
      c.typeOf w = .ok ty ∧ c.typeOf value.value = .ok ty := by
  constructor
  · rintro ⟨a, c', run⟩
    exact (addCase_eq_ok_iff.1 run).2.2.1
  · intro typed
    obtain ⟨d, hd', hkind⟩ := Graph.has_iff.1 hi
    have variadic : d.kind.isVariadic = true := by
      rw [Class.kind_of_switch hkind]
      rfl
    obtain ⟨c', run⟩ := pushTwice_answered hs hd' variadic hv hd
    exact ⟨(), c', addCase_eq_ok_iff.2
      ⟨check_eq_ok_iff.2 hv.value?, check_eq_ok_iff.2 hd.value?, typed, run⟩⟩

/-- From `c` to `c'` a case is added to a switch. -/
structure AddsCase (c c' : Context) (s : Handle .switch) (value : Handle .intConstant)
    (dest : Block) : Prop where
  /-- The case is the last one, and the earlier ones are what they were. -/
  cases : ∃ n, c.numCases s = .ok n ∧ c'.numCases s = .ok (n + 1) ∧
    c'.case? s n = .ok (some (value, dest)) ∧ ∀ i < n, c'.case? s i = c.case? s i
  /-- The condition stays. -/
  condition : c'.switchCondition s = c.switchCondition s
  /-- The default destination stays. -/
  default : c'.defaultDest s = c.defaultDest s
  /-- No other operands change. -/
  others : ∀ w ≠ s.value, c'.operands w = c.operands w

/-- The number of cases is half that of the operands behind the first two. -/
theorem numCases_of_node? {s : Handle .switch} {k : Nat} (hs : c.Sound)
    (hn : c.graph.node? s.value = some n) (length : n.operands.length = 2 + k * 2) :
    c.numCases s = .ok k := by
  obtain ⟨slots, hslots, same⟩ := operandSlots_of_node? hs hn
  rw [numCases, operandsAfter_eq_ok hslots (by omega)]
  show Except.ok ((slots.length - 2) / 2) = Except.ok k
  congr 1
  omega

/-- What two operand slots are read as. -/
def caseOf (c : Context) :
    Option Value → Option Value → Except Fault (Option (Handle .intConstant × Block))
  | some value, some dest => return some (← c.narrow .intConstant value, ← c.narrow .block dest)
  | _, _ => return none

/-- A case is read from its two operands. -/
theorem case?_eq {s : Handle .switch} {k i : Nat} (hk : c.numCases s = .ok k) (hi : i < k)
    {value dest : Option Value} (hv : c.operandAt s.value (2 + i * 2) = .ok value)
    (hd : c.operandAt s.value (3 + i * 2) = .ok dest) : c.case? s i = c.caseOf value dest := by
  rw [case?, hk, hv, hd]
  show (if k ≤ i then _ else _) = _
  rw [if_neg (by omega)]
  cases value <;> cases dest <;> rfl

/-- Two operands are read as a case as before. -/
theorem Lengthens.caseOf_eq {more : List (Option Value)} (h : c.Lengthens c' user more)
    (hs : c.Sound) (hs' : c'.Sound) (value dest : Option Value) :
    c'.caseOf value dest = c.caseOf value dest := by
  cases value with
  | none => rfl
  | some value =>
    cases dest with
    | none => rfl
    | some dest => rw [caseOf, caseOf, h.narrow_eq hs hs', h.narrow_eq hs hs']

/-- With the two operands behind the others, the switch has one more case and no other change. -/
theorem Lengthens.addsCase {s : Handle .switch} {value : Handle .intConstant} {dest : Block}
    (h : c.Lengthens c' s.value [some value.value, some dest.value]) (hs : c.Sound) (hs' : c'.Sound)
    (shaped : c.graph.Shaped c.types) (hi' : c.graph.Has .switch s.value)
    (hv : c.graph.Has .intConstant value.value) (hd : c.graph.Has .block dest.value) :
    c.AddsCase c' s value dest := by
  obtain ⟨n, hn, hkind⟩ := hi'.node
  obtain ⟨least, even⟩ : 2 ≤ n.operands.length ∧ n.operands.length % 2 = 0 :=
    shaped hn (Class.kind_of_switch hkind)
  obtain ⟨k, length⟩ : ∃ k, n.operands.length = 2 + k * 2 :=
    ⟨(n.operands.length - 2) / 2, by omega⟩
  -- Condition and default come first; the operands behind them come in pairs.
  have before : c.numCases s = .ok k := numCases_of_node? hs hn length
  have after : c'.numCases s = .ok (k + 1) := by
    refine numCases_of_node? hs' (h.user_node hn) ?_
    rw [List.length_append, length, Nat.add_mul]
    rfl
  have first : c'.operandAt s.value (2 + k * 2) = .ok (some value.value) :=
    length ▸ h.operandAt_new hs' hn 0
  have second : c'.operandAt s.value (3 + k * 2) = .ok (some dest.value) := by
    have last := h.operandAt_new hs' hn 1
    rwa [length, Nat.add_right_comm] at last
  refine ⟨⟨k, before, after, ?_, fun i hi => ?_⟩, ?_, ?_, fun w hw => h.operands_eq hs hs' hw⟩
  · rw [case?_eq after (Nat.lt_succ_self k) first second, caseOf, h.narrow_new hs hs' hv,
      h.narrow_new hs hs' hd]
    rfl
  · -- An earlier case has its slots before the new ones.
    obtain ⟨ov, hv, -⟩ := hi'.operandAt hs (2 + i * 2)
    obtain ⟨od, hd, -⟩ := hi'.operandAt hs (3 + i * 2)
    have hv' := (h.operandAt_eq hs hs' hn (by omega)).trans hv
    have hd' := (h.operandAt_eq hs hs' hn (by omega)).trans hd
    rw [case?_eq before hi hv hd, case?_eq after (Nat.lt_succ_of_lt hi) hv' hd',
      h.caseOf_eq hs hs']
  · exact h.operandAt_eq hs hs' hn (by omega)
  · exact h.operandAs_eq hs hs' hn (by omega) .block

/-! ## Edges, as they can be seen -/

/-- A request that answers nothing does the harm of its operation. -/
theorem silent_harmless {m : Run Context Unit} (h : Run.Harmless m c) :
    Run.Harmless (Request.silent m) c := by
  intro e c' run
  obtain run | ⟨_, _, -, run⟩ := Run.bind_eq_error run
  · exact h e c' run
  · cases run

/-- A request that answers nothing is answered when its operation is. -/
theorem silent_answered_iff {m : Run Context Unit} :
    (∃ a c', Request.silent m c = .ok a c') ↔ ∃ a c', m c = .ok a c' := by
  constructor
  · rintro ⟨a, c', run⟩
    exact ⟨(), c', Request.silent_eq_ok run⟩
  · rintro ⟨a, c', run⟩
    exact ⟨.unit, c', Run.bind_eq_ok_iff.2 ⟨a, c', run, rfl⟩⟩

/-- Phis and switches get whole edges, or none. -/
structure AddsWholeEdges (c : Context) : Prop where
  /-- A phi takes the values of its type. -/
  incoming_answered : ∀ {p v b}, (Request.addIncoming p v b).Live c →
    ((∃ a c', (Request.addIncoming p v b).run c = .ok a c') ↔
      ∃ ty, c.typeOf v = .ok ty ∧ c.typeOf p.value = .ok ty)
  /-- It then has one more edge. -/
  incoming_added : ∀ {p v b a c'}, (Request.addIncoming p v b).Live c →
    (Request.addIncoming p v b).run c = .ok a c' → c.AddsIncoming c' p v b
  /-- If it does not take the value, it does not take the block either. -/
  incoming_failed : ∀ {p v b e c'}, (Request.addIncoming p v b).run c = .error e c' → c' = c
  /-- A switch that has a condition takes the values of its type. -/
  case_answered : ∀ {s value dest}, (Request.addCase s value dest).Live c →
    ((∃ a c', (Request.addCase s value dest).run c = .ok a c') ↔
      ∃ w ty, c.switchCondition s = .ok (some w) ∧ c.typeOf w = .ok ty ∧
        c.typeOf value.value = .ok ty)
  /-- It then has one more case. -/
  case_added : ∀ {s value dest a c'}, (Request.addCase s value dest).Live c →
    (Request.addCase s value dest).run c = .ok a c' → c.AddsCase c' s value dest
  /-- If it does not take the value, it does not take the destination either. -/
  case_failed : ∀ {s value dest e c'}, (Request.addCase s value dest).run c = .error e c' → c' = c

/-- In every context that class-checked requests lead to, edges are added to phis and switches as a
whole. -/
theorem ReachedBy.adds_whole_edges (hc : ClassChecked c) : c.AddsWholeEdges := by
  have hs := hc.sound
  have shaped := hc.shaped
  -- The two requests mention three handles each, which are alive and of their classes.
  have alive : ∀ {r : Request}, r.Live c → ∀ m ∈ r.mentions, c.graph.Has m.1 m.2 :=
    fun live m hm => (isa_eq_true_iff hs).1 (live.values m hm)
  have after : ∀ {r : Request} {a c'}, r.Live c → r.run c = .ok a c' → c'.Sound :=
    fun live run =>
      (ReachedBy.answered hc (fun m hm => hasClass_of_isa (live.values m hm)) run).sound
  constructor
  case incoming_answered =>
    intro p v b live
    have alive := alive live
    exact silent_answered_iff.trans (addIncoming_answered_iff hs
      (alive (.phi, p.value) (by simp [Request.mentions]))
      (alive (.value, v) (by simp [Request.mentions]))
      (alive (.block, b.value) (by simp [Request.mentions])))
  case incoming_added =>
    intro p v b a c' live run
    have hs' := after live run
    have alive := alive live
    -- After success both slots are attached, one behind the other.
    obtain ⟨g₁, g₂, first, second, rfl⟩ := addIncoming_ok (Request.silent_eq_ok run)
    exact (lengthens_of_pushPair hs first second).addsIncoming hs hs' shaped
      (alive (.phi, p.value) (by simp [Request.mentions]))
      (alive (.block, b.value) (by simp [Request.mentions]))
  case incoming_failed =>
    intro p v b e c' run
    exact silent_harmless (addIncoming_harmless hs) e c' run
  case case_answered =>
    intro s value dest live
    have alive := alive live
    exact silent_answered_iff.trans (addCase_answered_iff hs
      (alive (.switch, s.value) (by simp [Request.mentions]))
      (alive (.intConstant, value.value) (by simp [Request.mentions]))
      (alive (.block, dest.value) (by simp [Request.mentions])))
  case case_added =>
    intro s value dest a c' live run
    have hs' := after live run
    have alive := alive live
    obtain ⟨g₁, g₂, first, second, rfl⟩ := addCase_ok (Request.silent_eq_ok run)
    exact (lengthens_of_pushPair hs first second).addsCase hs hs' shaped
      (alive (.switch, s.value) (by simp [Request.mentions]))
      (alive (.intConstant, value.value) (by simp [Request.mentions]))
      (alive (.block, dest.value) (by simp [Request.mentions]))
  case case_failed =>
    intro s value dest e c' run
    exact silent_harmless (addCase_harmless hs) e c' run

/-- For instance, when a phi has an edge to itself from its own block, of which the value is gone,
and a switch has lost the value of its case. -/
theorem adds_whole_edges_after_emptying : ∃ c,
    replay [.newBlock none, .phi { point := .atEnd ⟨⟨⟨1⟩, 0⟩⟩ } ⟨⟨1⟩, 9⟩,
      .addIncoming ⟨⟨⟨1⟩, 1⟩⟩ ⟨⟨1⟩, 1⟩ ⟨⟨⟨1⟩, 0⟩⟩, .setOperand ⟨⟨1⟩, 1⟩ 0 none,
      .constInt ⟨⟨1⟩, 9⟩ 5, .switch {} ⟨⟨1⟩, 1⟩ ⟨⟨⟨1⟩, 0⟩⟩,
      .addCase ⟨⟨⟨1⟩, 3⟩⟩ ⟨⟨⟨1⟩, 2⟩⟩ ⟨⟨⟨1⟩, 0⟩⟩, .dropAllUses ⟨⟨1⟩, 2⟩] (.initial ⟨1⟩) = some c ∧
    (c.operands ⟨⟨1⟩, 1⟩ = .ok [none, some ⟨⟨1⟩, 0⟩] ∧
      c.operands ⟨⟨1⟩, 3⟩ = .ok [some ⟨⟨1⟩, 1⟩, some ⟨⟨1⟩, 0⟩, none, some ⟨⟨1⟩, 0⟩]) ∧
    c.AddsWholeEdges :=
  exists_replay _ _ (by decide +kernel) fun c hc _ => ReachedBy.adds_whole_edges hc

end Context

end SsaGraph
