import SsaGraph.Proofs.Arrangement
import SsaGraph.Proofs.Context.Calm
import SsaGraph.Proofs.Course
import SsaGraph.Proofs.Mirror

/-!
# Instructions keep their shape

A factory gives an instruction as many operand slots as its operation takes. Slots are pointed
elsewhere and emptied at will afterwards, but none is ever taken away, and only a switch and a phi
get more, always two at a time. So the number of slots fits the operation ever after
(`Graph.Shaped`), and the questions that count operands from the end of the list, or in pairs, are
answered.

The data that an operation carries besides its opcode belongs to the opcode: a question for it is
answered exactly when the value is of the class.
-/

namespace SsaGraph

namespace Graph

variable {g g' : Graph} {t : TypeTable}

/-! ## The invariant -/

/-- Every instruction has as many operands as its operation takes. -/
def Shaped (g : Graph) (t : TypeTable) : Prop :=
  ∀ ⦃v n op⦄, g.node? v = some n → n.kind = .instruction op → op.Shaped t n.operands.length

/-- The shapes of instructions are kept when the table grows. -/
theorem Shaped.grow {t' : TypeTable} (h : g.Shaped t) (grows : t.GrowsTo t') : g.Shaped t' :=
  fun _ _ _ hn hk => (h hn hk).grow grows

/-- What is left of the values has as many operand slots as before. -/
theorem Shaped.keep (h : g.Shaped t)
    (node : ∀ {v n'}, g'.node? v = some n' → ∃ n, g.node? v = some n ∧ n.kind.Alike n'.kind ∧
      n'.operands.length = n.operands.length) : g'.Shaped t := by
  intro v n' op' hn' hk'
  obtain ⟨n, hn, alike, length⟩ := node hn'
  rw [hk'] at alike
  obtain ⟨op, hk, -⟩ := alike.eq_instruction
  rw [hk] at alike
  rw [length]
  exact (h hn hk).alike alike

/-- A tame change empties slots and swaps what they hold. -/
theorem Shaped.narrow (h : g.Shaped t) (narrows : g.Narrows g') : g'.Shaped t := by
  refine h.keep fun hn' => ?_
  obtain ⟨n, hn, -, alike, slots⟩ := narrows.node hn'
  exact ⟨n, hn, alike, by simpa [slotTypes] using slots.length_eq⟩

/-- Redirecting a use keeps the shapes. -/
theorem Shaped.retarget {u : Use} {e : Edge} (h : g.Shaped t) (hc : g.Coherent)
    (edge : g.edge? u = some e) (v : Value) : (g.retarget u v).Shaped t := by
  refine h.keep fun {w n'} hn' => ?_
  rw [hc.node?_retargeted edge v] at hn'
  split at hn'
  · obtain ⟨n, hn, rfl⟩ := Option.map_eq_some_iff.1 hn'
    exact ⟨n, hn, .refl _, List.length_set⟩
  · exact ⟨n', hn', .refl _, rfl⟩

/-- A new value keeps the shapes, if it has its own. -/
theorem Shaped.extend {v : Value} {n : Node} (h : g.Shaped t)
    (node : ∀ w, g'.node? w = if w = v then some n else g.node? w)
    (own : ∀ op, n.kind = .instruction op → op.Shaped t n.operands.length) : g'.Shaped t := by
  intro w m op hm hk
  rw [node] at hm
  split at hm
  · cases hm
    exact own op hk
  · exact h hm hk

/-- A new value that is no user keeps the shapes. -/
theorem Shaped.create {kind : ValueKind} (h : g.Shaped t) (ty : Ty) (name : Option String)
    (user : kind.isUser = false) : (g.push ⟨ty, name, kind, [], none, 0⟩).2.Shaped t := by
  refine h.extend (node?_create g ty kind name) fun op hk => ?_
  have hk : kind = .instruction op := hk
  rw [hk] at user
  cases user

/-- Setting an operand keeps the shapes, since it adds no slot. -/
theorem Shaped.setOperand {user : Value} {index : Nat} {target : Option Value} {a : Unit}
    (h : g.Shaped t) (hc : g.Coherent) (run : setOperand user index target g = .ok a g') :
    g'.Shaped t := by
  obtain ⟨d, u, e, -, -, -, edge, effect⟩ := setOperand_ok run
  cases target with
  | none =>
    rw [effect]
    exact h.narrow ((Tame.clear edge).narrows hc)
  | some v =>
    rw [effect.2]
    exact h.retarget hc edge v

/-- A pair of operand slots keeps the shapes, if it fits the operation that gets it. -/
theorem Shaped.pushPair {g₁ : Graph} {user x y : Value} {a b : Unit} (h : g.Shaped t)
    (hc : g.Coherent) (run₁ : pushOperand user x g = .ok a g₁)
    (run₂ : pushOperand user y g₁ = .ok b g')
    (pairs : ∀ {n op}, g.node? user = some n → n.kind = .instruction op →
      ∀ {m}, op.Shaped t m → op.Shaped t (m + 2)) : g'.Shaped t := by
  obtain ⟨-, node⟩ := pushPair_ok hc run₁ run₂
  intro w n' op hn' hk
  rw [node] at hn'
  split at hn'
  · subst w
    obtain ⟨n, hn, rfl⟩ := Option.map_eq_some_iff.1 hn'
    rw [List.length_append]
    exact pairs hn hk (h hn hk)
  · exact h hn' hk

end Graph

namespace Operation.Shaped

variable {t : TypeTable} {n : Nat}

/-- A switch with one more case has the shape of a switch. -/
theorem switch_add_two (h : switch.Shaped t n) : switch.Shaped t (n + 2) := by
  obtain ⟨least, even⟩ := h
  exact ⟨by omega, by omega⟩

/-- A phi with one more incoming edge has the shape of a phi. -/
theorem phi_add_two (h : phi.Shaped t n) : phi.Shaped t (n + 2) := by
  have even : n % 2 = 0 := h
  show (n + 2) % 2 = 0
  omega

end Operation.Shaped

namespace Context

variable {c c' : Context}

/-- A new context has no instructions. -/
theorem shaped_initial (id : ContextId) : (initial id).graph.Shaped (initial id).types := by
  intro v n op hn
  simp [initial, Graph.node?, Graph.bare?, Graph.value?, Graph.initial] at hn

/-- A change without new instructions or operands keeps the shapes. -/
theorem shaped_of_tame (h : c.graph.Shaped c.types) (hs : c.Sound) (ht : c.Tame c') :
    c'.graph.Shaped c'.types := by
  cases ht with
  | types ht => exact h.grow ht.growsTo
  | constant ty k => exact h.create ty none rfl
  | create name user label => exact h.create _ name user
  | graph ht => exact h.narrow (ht.narrows hs.graph)
  | layout ht => exact h
  | registry functions names => exact h

/-- So does a chain of such changes. -/
theorem shaped_of_chain (h : c.graph.Shaped c.types) (hs : c.Sound)
    (ht : Relation.ReflTransGen Tame c c') : c'.graph.Shaped c'.types := by
  induction ht with
  | refl => exact h
  | tail chain step ih => exact shaped_of_tame ih (hs.of_chain (chain_of_tame chain)) step

/-- Emitting an instruction of the right shape keeps the shapes. -/
theorem emit_shaped {cls : Class} {site : Site} {ty : Ty} {op : Operation}
    {operands : List (Option Value)} {i : Handle cls} (h : c.graph.Shaped c.types) (hs : c.Sound)
    (own : op.Shaped c.types operands.length) (run : emit site ty op operands c = .ok i c') :
    c'.graph.Shaped c'.types := by
  obtain ⟨graph, _, hg, rfl, placed⟩ := emit_ok run
  obtain ⟨layout, rfl⟩ := place_ok placed
  obtain ⟨-, -, -, node⟩ := Graph.newUser_ok hs.graph hg
  refine h.extend node fun op' hop' => ?_
  cases hop'
  exact own

end Context

/-! ## Requests -/

/-- Every successful request keeps the shapes. -/
theorem Request.run_shaped {c c' : Context} {r : Request} {a : Answer}
    (h : c.graph.Shaped c.types) (hs : c.Sound) (hr : r.ClassChecked c)
    (run : r.run c = .ok a c') : c'.graph.Shaped c'.types := by
  cases hf : r.isFactory with
  | true =>
    -- What is supplied first adds no instruction, and the new one has the shape of its opcode.
    obtain ⟨i, site, c₁, ty, op, operands, -, -, supplies, takes, -, hemit⟩ := run_emits hs hf run
    have chain := Context.chain_of_supply (chain_of_supplies supplies)
    exact Context.emit_shaped (Context.shaped_of_chain h hs chain)
      (hs.of_chain (Context.chain_of_tame chain)) takes.shape hemit
  | false =>
    cases ha : r.isAttaching with
    | false => exact Context.shaped_of_chain h hs (run_tame hs hf ha _ _ run)
    | true =>
      cases r with
      | setOperand user index target =>
        obtain ⟨g, set, rfl⟩ := Context.setOperand_ok (silent_eq_ok run)
        exact h.setOperand hs.graph set
      | addCase i value dest =>
        obtain ⟨g₁, g₂, first, second, rfl⟩ := Context.addCase_ok (silent_eq_ok run)
        -- The receiver is of its class, so the two new slots are those of a switch.
        refine h.pushPair hs.graph first second fun {n op} hn hk _ => ?_
        have hi : c.HasClass i := hr (.switch, i.value) (by simp [mentions])
        rw [Class.kind_of_switch (hi.kind hs hn)] at hk
        cases hk
        exact .switch_add_two
      | addIncoming i value b =>
        obtain ⟨g₁, g₂, first, second, rfl⟩ := Context.addIncoming_ok (silent_eq_ok run)
        -- Here they are those of a phi.
        refine h.pushPair hs.graph first second fun {n op} hn hk _ => ?_
        have hi : c.HasClass i := hr (.phi, i.value) (by simp [mentions])
        rw [Class.kind_of_phi (hi.kind hs hn)] at hk
        cases hk
        exact .phi_add_two
      | _ => cases ha

namespace Context

variable {c : Context}

/-- In a context that is reached by class-checked requests all instructions have their shapes. -/
theorem ReachedBy.shaped (h : ClassChecked c) : c.graph.Shaped c.types :=
  h.invariant (P := fun c => c.graph.Shaped c.types) shaped_initial
    fun hs h hr run => Request.run_shaped h hs hr run

/-! ## Questions about instructions -/

/-- The operation of an instruction is the one that its kind records. -/
theorem operation_eq_ok_iff {i : Instruction} {op : Operation} :
    c.operation i = .ok op ↔ c.kindOf i.value = .ok (.instruction op) := by
  simp only [operation, Question.bind_eq_ok_iff]
  constructor
  · rintro ⟨k, hk, h⟩
    cases k with
    | instruction op' =>
      cases h
      exact hk
    | _ => cases h
  · intro hk
    exact ⟨_, hk, rfl⟩

/-- A class of one opcode has the instructions with this opcode. -/
theorem isa_iff_operation {cls : Class} {o : Opcode}
    (ho : ∀ k, cls.contains k = k.hasOpcode (· = o)) {v : Value} :
    c.isa cls v = .ok true ↔ ∃ op, c.operation ⟨v⟩ = .ok op ∧ op.opcode = o := by
  simp only [isa, Question.bind_eq_ok_iff, Question.pure_eq_ok_iff, operation_eq_ok_iff, ho]
  constructor
  · rintro ⟨k, hk, h⟩
    cases k with
    | instruction op => exact ⟨op, hk, by simpa [ValueKind.hasOpcode, ValueKind.opcode?] using h⟩
    | _ => cases h
  · rintro ⟨op, hk, rfl⟩
    exact ⟨_, hk, by simp [ValueKind.hasOpcode, ValueKind.opcode?]⟩

/-- A question for what the operations of an opcode carry is answered exactly for the instructions
of the opcode. -/
theorem answered_iff_isa {α : Type} {cls : Class} {o : Opcode}
    (ho : ∀ k, cls.contains k = k.hasOpcode (· = o)) {v : Value} {f : Operation → Except Fault α}
    (told : ∀ op a, f op = .ok a → op.opcode = o)
    (found : ∀ op : Operation, op.Carries o → ∃ a, f op = .ok a) :
    (∃ a, (c.operation ⟨v⟩ >>= f) = .ok a) ↔ c.isa cls v = .ok true := by
  rw [isa_iff_operation ho]
  simp only [Question.bind_eq_ok_iff]
  constructor
  · rintro ⟨a, op, hop, h⟩
    exact ⟨op, hop, told op a h⟩
  · rintro ⟨op, hop, rfl⟩
    obtain ⟨a, ha⟩ := found op op.carries
    exact ⟨a, op, hop, ha⟩

/-- The allocated type is answered exactly for allocations. -/
theorem allocatedType_answered {i : Handle .alloca} :
    (∃ ty, c.allocatedType i = .ok ty) ↔ c.isa .alloca i.value = .ok true := by
  refine answered_iff_isa (o := .alloca) (fun _ => rfl) (fun op _ h => ?_) ?_
  · cases op <;> first | rfl | cases h
  · rintro _ ⟨ty, rfl⟩
    exact ⟨ty, rfl⟩

/-- The source type is answered exactly for address computations. -/
theorem sourceType_answered {i : Handle .elementPtr} :
    (∃ ty, c.sourceType i = .ok ty) ↔ c.isa .elementPtr i.value = .ok true := by
  refine answered_iff_isa (o := .getelementptr) (fun _ => rfl) (fun op _ h => ?_) ?_
  · cases op <;> first | rfl | cases h
  · rintro _ ⟨source, inbounds, rfl⟩
    exact ⟨source, rfl⟩

/-- The integer predicate is answered exactly for integer comparisons. -/
theorem intPredicate_answered {i : Handle .intComparison} :
    (∃ pred, c.intPredicate i = .ok pred) ↔ c.isa .intComparison i.value = .ok true := by
  refine answered_iff_isa (o := .icmp) (fun _ => rfl) (fun op _ h => ?_) ?_
  · cases op <;> first | rfl | cases h
  · rintro _ ⟨pred, rfl⟩
    exact ⟨pred, rfl⟩

/-- The floating-point predicate is answered exactly for floating-point comparisons. -/
theorem floatPredicate_answered {i : Handle .floatComparison} :
    (∃ pred, c.floatPredicate i = .ok pred) ↔ c.isa .floatComparison i.value = .ok true := by
  refine answered_iff_isa (o := .fcmp) (fun _ => rfl) (fun op _ h => ?_) ?_
  · cases op <;> first | rfl | cases h
  · rintro _ ⟨pred, rfl⟩
    exact ⟨pred, rfl⟩

/-- The function type of the callee is answered exactly for calls. -/
theorem calleeFunctionType_answered {i : Handle .call} :
    (∃ ty, c.calleeFunctionType i = .ok ty) ↔ c.isa .call i.value = .ok true := by
  refine answered_iff_isa (o := .call) (fun _ => rfl) (fun op _ h => ?_) ?_
  · cases op <;> first | rfl | cases h
  · rintro _ ⟨fnType, marker, conv, rfl⟩
    exact ⟨fnType, rfl⟩

/-- The tail-call marker is answered exactly for calls. -/
theorem tailCall_answered {i : Handle .call} :
    (∃ marker, c.tailCall i = .ok marker) ↔ c.isa .call i.value = .ok true := by
  refine answered_iff_isa (o := .call) (fun _ => rfl) (fun op _ h => ?_) ?_
  · cases op <;> first | rfl | cases h
  · rintro _ ⟨fnType, marker, conv, rfl⟩
    exact ⟨marker, rfl⟩

/-- The calling convention is answered exactly for calls. -/
theorem callingConv_answered {i : Handle .call} :
    (∃ conv, c.callingConv i = .ok conv) ↔ c.isa .call i.value = .ok true := by
  refine answered_iff_isa (o := .call) (fun _ => rfl) (fun op _ h => ?_) ?_
  · cases op <;> first | rfl | cases h
  · rintro _ ⟨fnType, marker, conv, rfl⟩
    exact ⟨conv, rfl⟩

/-- A call takes any tail-call marker. -/
theorem setTailCall_answered {i : Handle .call} {marker : TailCall} (hs : c.Sound)
    (hi : c.graph.Has .call i.value) : ∃ c', setTailCall i marker c = .ok () c' := by
  obtain ⟨_, c', run⟩ := Run.ok_of_avoids setTailCall_firm (setTailCall_calm hs hi)
  exact ⟨c', run⟩

/-- A call takes any calling convention. -/
theorem setCallingConv_answered {i : Handle .call} {conv : CallingConv} (hs : c.Sound)
    (hi : c.graph.Has .call i.value) : ∃ c', setCallingConv i conv c = .ok () c' := by
  obtain ⟨_, c', run⟩ := Run.ok_of_avoids setCallingConv_firm (setCallingConv_calm hs hi)
  exact ⟨c', run⟩

/-- The number of operands that are counted is that of all operands less those that are skipped. -/
theorem operandsAfter_eq_ok {v : Value} {skipped : Nat} {slots : List Use}
    (h : c.operandSlots v = .ok slots) (enough : skipped ≤ slots.length) :
    c.operandsAfter v skipped = .ok (slots.length - skipped) := by
  refine Question.bind_eq_ok_iff.2 ⟨slots, h, ?_⟩
  rw [if_neg (by omega)]
  rfl

/-- The number of slots of an instruction fits its operation. -/
theorem slots_of_operation (hs : c.Sound) (h : c.graph.Shaped c.types) {i : Instruction}
    {op : Operation} (hop : c.operation i = .ok op) :
    ∃ slots, c.operandSlots i.value = .ok slots ∧ op.Shaped c.types slots.length := by
  simp only [operation_eq_ok_iff, kindOf, Question.bind_eq_ok_iff, valueData_eq_ok_iff hs,
    Question.pure_eq_ok_iff] at hop
  obtain ⟨d, hd, hk⟩ := hop
  have shape := h (Graph.node?_of_value? hd) hk
  rw [List.length_map] at shape
  exact ⟨d.operands, by simp [operandSlots, valueData_eq_ok_iff hs, hd], shape⟩

/-- The operand slots of an instruction that is told by its class. -/
theorem slots_of_isa (hs : c.Sound) (h : c.graph.Shaped c.types) {cls : Class} {o : Opcode}
    (ho : ∀ k, cls.contains k = k.hasOpcode (· = o)) {v : Value} (isa : c.isa cls v = .ok true) :
    ∃ (op : Operation) (slots : List Use), op.Carries o ∧ c.operandSlots v = .ok slots ∧
      op.Shaped c.types slots.length := by
  obtain ⟨op, hop, rfl⟩ := (isa_iff_operation ho).1 isa
  obtain ⟨slots, hslots, shape⟩ := slots_of_operation hs h hop
  exact ⟨op, slots, op.carries, hslots, shape⟩

/-- A switch has two slots and two more for each case. -/
theorem numCases_of_isa (hs : c.Sound) (h : c.graph.Shaped c.types) {i : Handle .switch}
    (isa : c.isa .switch i.value = .ok true) :
    ∃ n slots, c.numCases i = .ok n ∧ c.operandSlots i.value = .ok slots ∧
      slots.length = 2 + 2 * n := by
  obtain ⟨op, slots, told, hslots, shape⟩ := slots_of_isa hs h (o := .switch) (fun _ => rfl) isa
  rw [← told .switch rfl] at shape
  obtain ⟨least, even⟩ := shape
  refine ⟨(slots.length - 2) / 2, slots, ?_, hslots, by omega⟩
  exact Question.bind_eq_ok_iff.2 ⟨_, operandsAfter_eq_ok hslots least, rfl⟩

/-- An address computation has a slot for its base and one for each of its indices, of which there
is one at least. -/
theorem numIndices_of_isa (hs : c.Sound) (h : c.graph.Shaped c.types) {i : Handle .elementPtr}
    (isa : c.isa .elementPtr i.value = .ok true) :
    ∃ n slots, c.numIndices i = .ok n ∧ c.operandSlots i.value = .ok slots ∧
      slots.length = n + 1 ∧ 1 ≤ n := by
  obtain ⟨op, slots, ⟨source, inbounds, rfl⟩, hslots, shape⟩ :=
    slots_of_isa hs h (o := .getelementptr) (fun _ => rfl) isa
  have least : 2 ≤ slots.length := shape
  exact ⟨slots.length - 1, slots, operandsAfter_eq_ok hslots (by omega), hslots, by omega, by omega⟩

/-- A call has a slot for each argument, and the called value in the last one. -/
theorem numArgs_of_isa (hs : c.Sound) (h : c.graph.Shaped c.types) {i : Handle .call}
    (isa : c.isa .call i.value = .ok true) :
    ∃ n slots o, c.numArgs i = .ok n ∧ c.operandSlots i.value = .ok slots ∧
      slots.length = n + 1 ∧ c.operandAt i.value n = .ok o ∧ c.calledValue i = .ok o := by
  obtain ⟨op, slots, ⟨fnType, marker, conv, rfl⟩, hslots, shape⟩ :=
    slots_of_isa hs h (o := .call) (fun _ => rfl) isa
  obtain ⟨ret, params, varArg, -, least, -⟩ := shape
  have count : c.numArgs i = .ok (slots.length - 1) := operandsAfter_eq_ok hslots (by omega)
  obtain ⟨o, ho, -⟩ := ((isa_eq_true_iff hs).1 isa).operandAt hs (slots.length - 1)
  exact ⟨slots.length - 1, slots, o, count, hslots, by omega, ho,
    Question.bind_eq_ok_iff.2 ⟨_, count, ho⟩⟩

/-! ## The shape of instructions, as it can be seen -/

/-- Instructions have the operands and the data that they are asked for. -/
structure InShape (c : Context) : Prop where
  /-- Every instruction has as many operands as its operation takes. -/
  slots : ∀ {i op}, c.operation i = .ok op →
    ∃ slots, c.operandSlots i.value = .ok slots ∧ op.Shaped c.types slots.length
  /-- Every instruction carries the data of its opcode, and no other data. -/
  carries : ∀ {i op}, c.operation i = .ok op → op.Carries op.opcode
  /-- What is no instruction has no operands. -/
  no_slots : ∀ {v k}, c.kindOf v = .ok k → k.isUser = false → c.operandSlots v = .ok []
  /-- A switch has a condition, a default destination and two operands for each case. -/
  numCases : ∀ {i : Handle .switch}, c.isa .switch i.value = .ok true →
    ∃ n slots, c.numCases i = .ok n ∧ c.operandSlots i.value = .ok slots ∧
      slots.length = 2 + 2 * n
  /-- An address computation has a pointer and its indices, of which there is one at least. -/
  numIndices : ∀ {i : Handle .elementPtr}, c.isa .elementPtr i.value = .ok true →
    ∃ n slots, c.numIndices i = .ok n ∧ c.operandSlots i.value = .ok slots ∧
      slots.length = n + 1 ∧ 1 ≤ n
  /-- A call has its arguments, and after them what is called. -/
  numArgs : ∀ {i : Handle .call}, c.isa .call i.value = .ok true →
    ∃ n slots o, c.numArgs i = .ok n ∧ c.operandSlots i.value = .ok slots ∧
      slots.length = n + 1 ∧ c.operandAt i.value n = .ok o ∧ c.calledValue i = .ok o
  /-- Stack slots have the type they are for. -/
  allocatedType : ∀ {i : Handle .alloca},
    (∃ ty, c.allocatedType i = .ok ty) ↔ c.isa .alloca i.value = .ok true
  /-- Address computations have the type pointed to. -/
  sourceType : ∀ {i : Handle .elementPtr},
    (∃ ty, c.sourceType i = .ok ty) ↔ c.isa .elementPtr i.value = .ok true
  /-- Integer comparisons have their predicate. -/
  intPredicate : ∀ {i : Handle .intComparison},
    (∃ pred, c.intPredicate i = .ok pred) ↔ c.isa .intComparison i.value = .ok true
  /-- Floating point comparisons have their predicate. -/
  floatPredicate : ∀ {i : Handle .floatComparison},
    (∃ pred, c.floatPredicate i = .ok pred) ↔ c.isa .floatComparison i.value = .ok true
  /-- Calls have the function type of what is called. -/
  calleeFunctionType : ∀ {i : Handle .call},
    (∃ ty, c.calleeFunctionType i = .ok ty) ↔ c.isa .call i.value = .ok true
  /-- Calls have a tail call marker. -/
  tailCall : ∀ {i : Handle .call},
    (∃ marker, c.tailCall i = .ok marker) ↔ c.isa .call i.value = .ok true
  /-- Calls have a calling convention. -/
  callingConv : ∀ {i : Handle .call},
    (∃ conv, c.callingConv i = .ok conv) ↔ c.isa .call i.value = .ok true
  /-- The marks of a call can be set. -/
  marks : ∀ {i : Handle .call}, c.isa .call i.value = .ok true → ∀ marker conv,
    (∃ c', setTailCall i marker c = .ok () c') ∧ ∃ c', setCallingConv i conv c = .ok () c'

/-- In every context that class-checked requests lead to, instructions have the operands and the
data that they are asked for. -/
theorem ReachedBy.inShape (hc : ClassChecked c) : c.InShape := by
  have hs := hc.sound
  have shaped := hc.shaped
  constructor
  case slots => exact slots_of_operation hs shaped
  case carries =>
    intro i op _
    exact op.carries
  -- Only users have operands, and a user is an instruction.
  case no_slots =>
    intro v k hk user
    simp only [kindOf, Question.bind_eq_ok_iff, valueData_eq_ok_iff hs] at hk
    obtain ⟨d, hd, hk⟩ := hk
    cases hk
    have none := hc.onlyUsers (Graph.node?_of_value? hd) user
    rw [List.map_eq_nil_iff] at none
    simp [operandSlots, valueData_eq_ok_iff hs, hd, none]
  case numCases => exact numCases_of_isa hs shaped
  case numIndices => exact numIndices_of_isa hs shaped
  case numArgs => exact numArgs_of_isa hs shaped
  case allocatedType => exact allocatedType_answered
  case sourceType => exact sourceType_answered
  case intPredicate => exact intPredicate_answered
  case floatPredicate => exact floatPredicate_answered
  case calleeFunctionType => exact calleeFunctionType_answered
  case tailCall => exact tailCall_answered
  case callingConv => exact callingConv_answered
  case marks =>
    intro i isa marker conv
    have hi := (isa_eq_true_iff hs).1 isa
    exact ⟨setTailCall_answered hs hi, setCallingConv_answered hs hi⟩

/-- For instance, when a call and a switch have lost all their operands. -/
theorem inShape_after_dropping : ∃ c : Context,
    replay [.functionType ⟨⟨1⟩, 0⟩ [⟨⟨1⟩, 9⟩] true, .newFunction "f" ⟨⟨1⟩, 11⟩,
      .constInt ⟨⟨1⟩, 9⟩ 5, .call {} ⟨⟨1⟩, 0⟩ [⟨⟨1⟩, 2⟩, ⟨⟨1⟩, 2⟩], .newBlock none,
      .switch {} ⟨⟨1⟩, 2⟩ ⟨⟨⟨1⟩, 4⟩⟩, .addCase ⟨⟨⟨1⟩, 5⟩⟩ ⟨⟨⟨1⟩, 2⟩⟩ ⟨⟨⟨1⟩, 4⟩⟩,
      .setTailCall ⟨⟨⟨1⟩, 3⟩⟩ .tail, .dropAllReferences ⟨⟨1⟩, 5⟩, .dropAllUses ⟨⟨1⟩, 2⟩,
      .setOperand ⟨⟨1⟩, 3⟩ 2 none] (.initial ⟨1⟩) = some c ∧
    (c.operands ⟨⟨1⟩, 3⟩ = .ok [none, none, none] ∧ c.isa .call ⟨⟨1⟩, 3⟩ = .ok true ∧
      c.operands ⟨⟨1⟩, 5⟩ = .ok [none, none, none, none] ∧
      c.isa .switch ⟨⟨1⟩, 5⟩ = .ok true) ∧
    c.InShape :=
  exists_replay _ _ (by decide +kernel) fun c hc _ => ReachedBy.inShape hc

end Context

end SsaGraph
