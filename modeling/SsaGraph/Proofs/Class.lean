import SsaGraph.Proofs.Graph.Narrow
import SsaGraph.Proofs.History

/-!
# Classes of values

A typed handle can be made without a check, and then may name a value of another class. A handle
that was checked cannot, neither at that time nor later (`Later.hasClass`): a value keeps its class
for life, and nothing else is ever created in its place.
-/

namespace SsaGraph

/-! ## Kinds of a class -/

/-- A kind with an opcode is an instruction that carries it. -/
theorem ValueKind.of_hasOpcode {k : ValueKind} {o : Opcode} (h : k.hasOpcode (· = o) = true) :
    ∃ op, k = .instruction op ∧ op.Carries o := by
  cases k with
  | instruction op =>
    have hop : op.opcode = o := by simpa [hasOpcode, opcode?] using h
    exact ⟨op, rfl, hop ▸ op.carries⟩
  | _ => cases h

namespace Class

variable {k : ValueKind}

/-- The class of blocks has one kind. -/
theorem kind_of_block (h : block.contains k = true) : k = .block := by
  cases k with
  | block => rfl
  | _ => cases h

/-- The kinds of the class of integer constants are these constants. -/
theorem kind_of_intConstant (h : intConstant.contains k = true) :
    ∃ x, k = .constant (.int x) := by
  cases k with
  | constant k =>
    cases k with
    | int x => exact ⟨x, rfl⟩
    | _ => cases h
  | _ => cases h

/-- The class of switches has one kind. -/
theorem kind_of_switch (h : switch.contains k = true) : k = .instruction .switch := by
  obtain ⟨op, rfl, told⟩ := ValueKind.of_hasOpcode h
  rw [told .switch rfl]

/-- The class of phis has one kind. -/
theorem kind_of_phi (h : phi.contains k = true) : k = .instruction .phi := by
  obtain ⟨op, rfl, told⟩ := ValueKind.of_hasOpcode h
  rw [told .phi rfl]

/-- The kinds of the class of calls are the calls. -/
theorem kind_of_call (h : call.contains k = true) :
    ∃ fnType marker conv, k = .instruction (.call fnType marker conv) := by
  obtain ⟨op, rfl, fnType, marker, conv, rfl⟩ := ValueKind.of_hasOpcode h
  exact ⟨fnType, marker, conv, rfl⟩

end Class

/-- A value that is touched up keeps its class. -/
theorem ValueKind.Alike.contains_eq {k k' : ValueKind} (h : k.Alike k') (cls : Class) :
    cls.contains k' = cls.contains k := by
  cases h with
  | refl => rfl
  | function => cases cls <;> rfl
  | call => cases cls <;> rfl

namespace Graph

variable {g g' g'' : Graph}

/-! ## Values over time -/

/-- Values keep what they are, and nothing is created in their place. -/
structure Lasts (g g' : Graph) : Prop where
  /-- The places of values are not given up. -/
  size : g.values.size ≤ g'.values.size
  /-- A value that had been created is what it was. -/
  node : ∀ {v n'}, v.index < g.values.size → g'.node? v = some n' →
    ∃ n, g.node? v = some n ∧ n'.ty = n.ty ∧ n.kind.Alike n'.kind

/-- Values last while nothing happens. -/
theorem Lasts.refl (g : Graph) : g.Lasts g := ⟨Nat.le_refl _, fun _ hn => ⟨_, hn, rfl, .refl _⟩⟩

/-- Lasting is transitive. -/
theorem Lasts.trans (h : g.Lasts g') (h' : g'.Lasts g'') : g.Lasts g'' := by
  refine ⟨Nat.le_trans h.size h'.size, fun hv hn'' => ?_⟩
  obtain ⟨n', hn', hty', alike'⟩ := h'.node (Nat.lt_of_lt_of_le hv h.size) hn''
  obtain ⟨n, hn, hty, alike⟩ := h.node hv hn'
  exact ⟨n, hn, hty'.trans hty, alike.trans alike'⟩

/-- A value that had been created is of the classes it was of. -/
theorem Lasts.contains_eq (h : g.Lasts g') {v : Value} {n' : Node} (hv : v.index < g.values.size)
    (hn' : g'.node? v = some n') :
    ∃ n, g.node? v = some n ∧ ∀ cls : Class, cls.contains n'.kind = cls.contains n.kind := by
  obtain ⟨n, hn, -, alike⟩ := h.node hv hn'
  exact ⟨n, hn, alike.contains_eq⟩

/-- Values last while the graph only loses. -/
theorem Narrows.lasts (h : g.Narrows g') : g.Lasts g' := by
  refine ⟨h.size, fun _ hn' => ?_⟩
  obtain ⟨n, hn, hty, alike, -⟩ := h.node hn'
  exact ⟨n, hn, hty, alike⟩

/-- Operand slots do not matter for what a value is. -/
theorem lasts_of_operands {user : Value} {f : Node → List (Option Value)}
    (size : g.values.size ≤ g'.values.size)
    (node : ∀ w, g'.node? w =
      if w = user then (g.node? w).map fun n => { n with operands := f n }
      else g.node? w) : g.Lasts g' := by
  refine ⟨size, fun {v n'} _ hn' => ?_⟩
  rw [node] at hn'
  split at hn'
  · obtain ⟨n, hn, rfl⟩ := Option.map_eq_some_iff.1 hn'
    exact ⟨n, hn, rfl, .refl _⟩
  · exact ⟨n', hn', rfl, .refl _⟩

/-- A new value has a place of its own. -/
theorem lasts_of_new {n : Node} (size : g.values.size ≤ g'.values.size)
    (node : ∀ w, g'.node? w = if w = ⟨g.ctx, g.values.size⟩ then some n else g.node? w) :
    g.Lasts g' := by
  refine ⟨size, fun {v n'} hv hn' => ?_⟩
  rw [node, if_neg] at hn'
  · exact ⟨n', hn', rfl, .refl _⟩
  · rintro rfl
    exact Nat.lt_irrefl _ hv

/-- Values last over a change of the graph. -/
theorem Change.lasts (hc : g.Coherent) (h : g.Change g') : g.Lasts g' := by
  cases h with
  | tame h => exact (h.narrows hc).lasts
  | retarget edge data => exact lasts_of_operands (by simp) (hc.node?_retargeted edge _)
  | build run =>
    obtain ⟨-, -, rfl, node⟩ := newUser_ok hc run
    exact lasts_of_new (by simp [newUser_size run]) node
  | grow run =>
    obtain ⟨-, -, -, -, node⟩ := pushOperand_ok hc run
    have size := size_of_sameSize (pushOperand_sameSize _ _ _ _ _ run)
    exact lasts_of_operands (Nat.le_of_eq size.symm) node

end Graph

namespace Context

variable {c c' : Context}

/-- Values last over a change of the context. -/
theorem Change.lasts (hs : c.Sound) (h : c.Change c') : c.graph.Lasts c'.graph := by
  cases h with
  | graph h => exact h.lasts hs.graph
  | tame h =>
    cases h with
    | constant ty k => exact Graph.lasts_of_new (by simp [Graph.push]) (Graph.node?_create _ _ _ _)
    | create name user label =>
      exact Graph.lasts_of_new (by simp [Graph.push]) (Graph.node?_create _ _ _ _)
    | graph h => exact (h.narrows hs.graph).lasts
    | types h => exact .refl _
    | layout h => exact .refl _
    | registry functions names => exact .refl _

/-- Values last over a chain of changes. -/
theorem lasts_of_chain (hs : c.Sound) (h : Relation.ReflTransGen Change c c') :
    c.graph.Lasts c'.graph := by
  induction h with
  | refl => exact .refl _
  | tail chain step ih => exact ih.trans (step.lasts (hs.of_chain chain))

/-! ## Handles -/

/-- The question for a class is answered, for values that are alive, by their kind. -/
theorem isa_eq_ok_iff (hs : c.Sound) {cls : Class} {v : Value} {b : Bool} :
    c.isa cls v = .ok b ↔ ∃ d, c.graph.value? v = some d ∧ cls.contains d.kind = b := by
  simp [isa, kindOf, valueData_eq_ok_iff hs]

/-- A handle passes its check as the value that it was asked for, which is of the class. -/
theorem narrow_eq_ok {cls : Class} {v : Value} {h : Handle cls} (checked : c.narrow cls v = .ok h) :
    h.value = v ∧ c.isa cls v = .ok true := by
  simp only [narrow, narrow?, Question.bind_eq_ok_iff] at checked
  obtain ⟨_, ⟨b, hb, hnarrow⟩, hh⟩ := checked
  cases hnarrow
  cases b with
  | true =>
    cases hh
    exact ⟨rfl, hb⟩
  | false => cases hh

/-- The handle is of its class, if the value is alive. -/
def HasClass {cls : Class} (c : Context) (h : Handle cls) : Prop :=
  ∀ b, c.isa cls h.value = .ok b → b = true

/-- A handle of its class has a node of a kind of the class. -/
theorem HasClass.kind {cls : Class} {h : Handle cls} (hh : c.HasClass h) (hs : c.Sound) {n : Node}
    (hn : c.graph.node? h.value = some n) : cls.contains n.kind = true := by
  obtain ⟨d, hd, rfl⟩ := Graph.value?_of_node? hn
  exact hh _ ((isa_eq_ok_iff hs).2 ⟨d, hd, rfl⟩)

/-- A handle that the question finds in its class is of its class. -/
theorem hasClass_of_isa {cls : Class} {h : Handle cls} (hh : c.isa cls h.value = .ok true) :
    c.HasClass h := by
  intro b hb
  rw [hh] at hb
  cases hb
  rfl

/-- A handle that passed its check is of its class ever after. -/
theorem Later.hasClass {cls : Class} {v : Value} {h : Handle cls} (hc : c.Reachable)
    (checked : c.narrow cls v = .ok h) (later : c.Later c') : c'.HasClass h := by
  have hs := hc.sound
  have hs' := (later.reachable hc).sound
  have lasts := lasts_of_chain hs (later.chain hc)
  obtain ⟨rfl, isa⟩ := narrow_eq_ok checked
  obtain ⟨d, hd, hclass⟩ := (isa_eq_ok_iff hs).1 isa
  intro b hb
  obtain ⟨d', hd', rfl⟩ := (isa_eq_ok_iff hs').1 hb
  -- The value that is alive now is the one that was checked.
  obtain ⟨n, hn, eq⟩ :=
    lasts.contains_eq (Graph.index_lt_of_value? hd) (Graph.node?_of_value? hd')
  rw [Graph.node?_of_value? hd] at hn
  cases hn
  exact (eq cls).trans hclass

end Context

end SsaGraph
