import Mathlib.Data.List.Forall2
import SsaGraph.Build.Cast
import SsaGraph.Proofs.Type.Growth
import SsaGraph.Value

/-!
# Type rules of instructions

`Fits t op ty slots` is the type rule of the operation `op`: an instruction of type `ty` may have
operand slots of the types `slots`, where an empty slot counts as nothing and fits anywhere. There
is one rule for each shape of each operation.

A rule speaks about the types of the slots and not about the values in them, and only about what
never changes of a type: so it still holds when slots are emptied and when the table grows
(`Fits.mono`).
-/

namespace SsaGraph

/-! ## Slots -/

/-- An operand slot is empty, or its type satisfies `P`. -/
def Slot (P : Ty → Prop) (slot : Option Ty) : Prop := ∀ ty ∈ slot, P ty

/-- An operand slot is empty, or of the type of the other. -/
def Under (slot' slot : Option Ty) : Prop := ∀ ty ∈ slot', ty ∈ slot

/-- A slot is under itself. -/
theorem Under.refl (slot : Option Ty) : Under slot slot := fun _ h => h

/-- Slots are under themselves. -/
theorem Under.all_refl (slots : List (Option Ty)) : List.Forall₂ Under slots slots :=
  List.forall₂_same.2 fun slot _ => .refl slot

/-- The empty slot is under every slot. -/
theorem Under.none (slot : Option Ty) : Under .none slot := nofun

/-- A full slot satisfies what its type satisfies. -/
theorem Slot.some {P : Ty → Prop} {ty : Ty} (h : P ty) : Slot P (.some ty) := by
  rintro _ ⟨⟩
  exact h

/-- A slot under one that satisfies a property satisfies a weaker property. -/
theorem Slot.mono {P Q : Ty → Prop} {slot' slot : Option Ty} (h : Slot P slot)
    (imp : ∀ ty, P ty → Q ty) (under : Under slot' slot) : Slot Q slot' :=
  fun ty hty => imp ty (h ty (under ty hty))

/-- A slot under one that satisfies a property satisfies it. -/
theorem Slot.under {P : Ty → Prop} {slot' slot : Option Ty} (h : Slot P slot)
    (under : Under slot' slot) : Slot P slot' :=
  h.mono (fun _ h => h) under

/-- The same for every slot of a list. -/
theorem Slot.all_under {P : Ty → Prop} {slots' slots : List (Option Ty)}
    (h : ∀ slot ∈ slots, Slot P slot) (under : List.Forall₂ Under slots' slots) :
    ∀ slot ∈ slots', Slot P slot := by
  induction under with
  | nil => simp
  | cons hu _ ih =>
    rw [List.forall_mem_cons] at h ⊢
    exact ⟨h.1.under hu, ih h.2⟩

/-- The same for slots whose types are given one by one. -/
theorem Slot.each_under {tys : List Ty} {slots' slots : List (Option Ty)}
    (h : List.Forall₂ (fun ty slot => Slot (· = ty) slot) tys slots)
    (under : List.Forall₂ Under slots' slots) :
    List.Forall₂ (fun ty slot => Slot (· = ty) slot) tys slots' := by
  induction under generalizing tys with
  | nil => exact h
  | cons hu _ ih =>
    obtain _ | ⟨ha, rest⟩ := h
    exact .cons (ha.under hu) (ih rest)

/-- What corresponds to two lists in a row is two lists in a row. -/
theorem forall₂_append_right {α β : Type} {R : α → β → Prop} {l : List α} {l₁ l₂ : List β}
    (h : List.Forall₂ R l (l₁ ++ l₂)) :
    ∃ k₁ k₂, l = k₁ ++ k₂ ∧ List.Forall₂ R k₁ l₁ ∧ List.Forall₂ R k₂ l₂ :=
  ⟨l.take l₁.length, l.drop l₁.length, (List.take_append_drop ..).symm,
    List.forall₂_take_append _ _ _ h, List.forall₂_drop_append _ _ _ h⟩

/-- Slots of the type `ty` and slots of the type `label` in turn, as those of a switch or a phi. -/
inductive Alternate (ty label : Ty) : List (Option Ty) → Prop
  | nil : Alternate ty label []
  | cons {a b : Option Ty} {slots : List (Option Ty)} (value : Slot (· = ty) a)
    (block : Slot (· = label) b) (rest : Alternate ty label slots) :
    Alternate ty label (a :: b :: slots)

/-- A pair of slots can be added. -/
theorem Alternate.append {ty label : Ty} {slots : List (Option Ty)} {a b : Option Ty}
    (h : Alternate ty label slots) (value : Slot (· = ty) a) (block : Slot (· = label) b) :
    Alternate ty label (slots ++ [a, b]) := by
  induction h with
  | nil => exact .cons value block .nil
  | cons value' block' _ ih => exact .cons value' block' ih

/-- Slots under alternating ones alternate. -/
theorem Alternate.mono {ty label : Ty} {slots' slots : List (Option Ty)}
    (h : Alternate ty label slots) (under : List.Forall₂ Under slots' slots) :
    Alternate ty label slots' := by
  induction h generalizing slots' with
  | nil =>
    cases under
    exact .nil
  | cons value block _ ih =>
    obtain _ | ⟨ha, _ | ⟨hb, rest⟩⟩ := under
    exact .cons (value.under ha) (block.under hb) (ih rest)

/-- The first slot tells the type. -/
theorem Alternate.eq_of_head {ty label first : Ty} {slots : List (Option Ty)}
    (h : Alternate ty label slots) (hfirst : slots[0]? = some (some first)) : first = ty := by
  cases h with
  | nil => cases hfirst
  | cons value =>
    cases hfirst
    exact value first rfl

/-! ## Properties of types that stay -/

namespace TypeTable

/-- The type is a pointer to `pointee`. -/
def PointsTo (t : TypeTable) (pointee ty : Ty) : Prop :=
  ∃ space, t.data? ty = some (.pointer pointee space)

/-- The kind of the type, or of its elements if it is a vector, satisfies `p`. -/
def ScalarFits (t : TypeTable) (p : TypeKind → Bool) (ty : Ty) : Prop :=
  ∃ k, t.scalarKind ty = .ok k ∧ p k = true

/-- The type of a comparison of operands of the type `operand`: `i1`, or the vector of `i1` with as
many lanes. -/
def BoolLike (t : TypeTable) (operand result : Ty) : Prop :=
  (∃ elem lanes, t.data? operand = some (.vector elem lanes) ∧
    t.data? result = some (.vector t.int1 lanes)) ∨
  ∃ d, t.data? operand = some d ∧ d.kind ≠ .vector ∧ result = t.int1

/-- A type with a scalar kind is in the table. -/
theorem ScalarFits.has {t : TypeTable} {p : TypeKind → Bool} {ty : Ty} (h : t.ScalarFits p ty) :
    t.Has ty := by
  obtain ⟨k, hk, -⟩ := h
  simp only [scalarKind, scalarType, Question.bind_eq_ok_iff, data_eq_ok_iff] at hk
  obtain ⟨_, ⟨d, hd, -⟩, -⟩ := hk
  exact ⟨d, hd⟩

/-- The type of a comparison is in the table. -/
theorem BoolLike.has {t : TypeTable} {operand result : Ty} (h : t.BoolLike operand result)
    (hw : t.WellFormed) : t.Has result := by
  rcases h with ⟨elem, lanes, -, hr⟩ | ⟨d, -, -, rfl⟩
  · exact ⟨_, hr⟩
  · exact hw.has_primitive (by decide)

/-- What a cast goes to is in the table. -/
theorem has_of_isValidCast {t : TypeTable} {op : Opcode} {a b : Ty} {valid : Bool}
    (h : t.isValidCast op a b = .ok valid) : t.Has b := by
  simp only [isValidCast, castSide, shape, Question.bind_eq_ok_iff, data_eq_ok_iff] at h
  obtain ⟨_, -, _, ⟨_, ⟨d, hd, -⟩, -⟩, -⟩ := h
  exact ⟨d, hd⟩

namespace GrowsTo

variable {t t' : TypeTable} (h : t.GrowsTo t')

include h

/-- The type `void` stays the same. -/
theorem void_eq : t'.void = t.void := by rw [void, void, h.ctx]

/-- The type of labels stays the same. -/
theorem label_eq : t'.label = t.label := by rw [label, label, h.ctx]

/-- The type `i1` stays the same. -/
theorem int1_eq : t'.int1 = t.int1 := by rw [int1, int1, h.ctx]

/-- A pointer keeps what it points to. -/
theorem pointsTo {pointee ty : Ty} (hp : t.PointsTo pointee ty) : t'.PointsTo pointee ty := by
  obtain ⟨space, hd⟩ := hp
  exact ⟨space, h.structural hd rfl⟩

/-- The scalar type and the lane count of a type stay. -/
theorem shape {ty : Ty} {s : Ty × Option Nat} (hs : t.shape ty = .ok s) : t'.shape ty = .ok s := by
  simp only [TypeTable.shape, Question.bind_eq_ok_iff, data_eq_ok_iff] at hs ⊢
  obtain ⟨d, hd, hs⟩ := hs
  obtain ⟨d', hd', b⟩ := h.data hd
  refine ⟨d', hd', ?_⟩
  cases b with
  | refl => exact hs
  | struct => exact hs

/-- A type keeps its scalar kind. -/
theorem scalarKind {ty : Ty} {k : TypeKind} (hk : t.scalarKind ty = .ok k) :
    t'.scalarKind ty = .ok k := by
  simp only [TypeTable.scalarKind, scalarType, Question.bind_eq_ok_iff, data_eq_ok_iff] at hk ⊢
  obtain ⟨elem, ⟨d, hd, he⟩, hk⟩ := hk
  obtain ⟨d', hd', b⟩ := h.data hd
  refine ⟨elem, ⟨d', hd', ?_⟩, h.kind hk⟩
  cases b with
  | refl => exact he
  | struct => exact he

/-- A type fits as a scalar what it fitted. -/
theorem scalarFits {p : TypeKind → Bool} {ty : Ty} (hp : t.ScalarFits p ty) :
    t'.ScalarFits p ty := by
  obtain ⟨k, hk, hp⟩ := hp
  exact ⟨k, h.scalarKind hk, hp⟩

/-- The type of a comparison stays the type of the comparison. -/
theorem boolLike {operand result : Ty} (hb : t.BoolLike operand result) :
    t'.BoolLike operand result := by
  rcases hb with ⟨elem, lanes, ho, hr⟩ | ⟨d, hd, hk, rfl⟩
  · refine .inl ⟨elem, lanes, h.structural ho rfl, ?_⟩
    rw [h.int1_eq]
    exact h.structural hr rfl
  · obtain ⟨d', hd', b⟩ := h.data hd
    exact .inr ⟨d', hd', by rwa [b.kind_eq], h.int1_eq.symm⟩

/-- A type keeps what a cast looks at. -/
theorem castSide {ty : Ty} {s : CastSide} (hs : t.castSide ty = .ok s) :
    t'.castSide ty = .ok s := by
  simp only [TypeTable.castSide, primitiveBits, Question.bind_eq_ok_iff, data_eq_ok_iff] at hs ⊢
  obtain ⟨⟨elem, lanes⟩, hshape, d, hd, k, hk, bits, ⟨e, he, hbits⟩, hs⟩ := hs
  -- A structure may get its body meanwhile, but a cast does not look inside structures.
  obtain ⟨d', hd', b⟩ := h.data hd
  obtain ⟨e', he', be⟩ := h.data he
  refine ⟨(elem, lanes), h.shape hshape, d', hd', k, h.kind hk, bits, ⟨e', he', ?_⟩, ?_⟩
  · cases be with
    | struct => exact hbits
    | refl =>
      cases e with
      | vector el n =>
        simp only [Question.bind_eq_ok_iff, data_eq_ok_iff] at hbits ⊢
        obtain ⟨f, hf, hbits⟩ := hbits
        obtain ⟨f', hf', bf⟩ := h.data hf
        exact ⟨f', hf', by rwa [bf.scalarBits_eq]⟩
      | _ => exact hbits
  · rw [b.kind_eq, b.addressSpace?_eq]
    exact hs

/-- A cast keeps its validity. -/
theorem isValidCast {op : Opcode} {a b : Ty} {r : Bool} (hv : t.isValidCast op a b = .ok r) :
    t'.isValidCast op a b = .ok r := by
  simp only [TypeTable.isValidCast, Question.bind_eq_ok_iff] at hv ⊢
  obtain ⟨sa, ha, sb, hb, hr⟩ := hv
  exact ⟨sa, h.castSide ha, sb, h.castSide hb, hr⟩

end GrowsTo

end TypeTable

/-! ## The rules -/

/-- The binary operators of floating point numbers; the others are those of integers. -/
def floatOperators : List Opcode := [.fadd, .fsub, .fmul, .fdiv, .frem]

/-- What a factory checks of a binary operator is whether it is one of the five. -/
theorem Opcode.isFloatBinary_iff {op : Opcode} :
    op.isFloatBinary = true ↔ op ∈ floatOperators := by
  cases op <;> decide

/-- An instruction with the given operation and type may have operand slots of the given types. -/
inductive Operation.Fits (t : TypeTable) : Operation → Ty → List (Option Ty) → Prop
  | retVoid : Fits t .ret t.void []
  | ret {value : Option Ty} (firstClass : Slot (t.PartFits (·.isFirstClass)) value) :
    Fits t .ret t.void [value]
  | br {dest : Option Ty} (label : Slot (· = t.label) dest) : Fits t .br t.void [dest]
  | condBr {cond ifTrue ifFalse : Option Ty} (bool : Slot (· = t.int1) cond)
    (labelTrue : Slot (· = t.label) ifTrue) (labelFalse : Slot (· = t.label) ifFalse) :
    Fits t .br t.void [cond, ifTrue, ifFalse]
  /-- The condition and the default block of a switch come first, then its cases. -/
  | switch {slots : List (Option Ty)} (ty : Ty) (integer : t.PartFits (· = .integer) ty)
    (edges : Alternate ty t.label slots) (two : 2 ≤ slots.length) : Fits t .switch t.void slots
  | unreachable : Fits t .unreachable t.void []
  | intBinary {op : BinaryOpcode} {ty : Ty} {lhs rhs : Option Ty}
    (sort : op.val ∉ floatOperators) (integer : t.ScalarFits (· = .integer) ty)
    (left : Slot (· = ty) lhs) (right : Slot (· = ty) rhs) : Fits t (.binary op) ty [lhs, rhs]
  | floatBinary {op : BinaryOpcode} {ty : Ty} {lhs rhs : Option Ty}
    (sort : op.val ∈ floatOperators) (float : t.ScalarFits (·.isFloatingPoint) ty)
    (left : Slot (· = ty) lhs) (right : Slot (· = ty) rhs) : Fits t (.binary op) ty [lhs, rhs]
  | alloca {allocated ty : Ty} {size : Option Ty} (pointer : t.data? ty = some (.pointer allocated 0))
    (integer : Slot (t.PartFits (· = .integer)) size) : Fits t (.alloca allocated) ty [size]
  | load {ty : Ty} {ptr : Option Ty} (pointer : Slot (t.PointsTo ty) ptr) : Fits t .load ty [ptr]
  | store (ty : Ty) {value ptr : Option Ty} (stored : Slot (· = ty) value)
    (pointer : Slot (t.PointsTo ty) ptr) : Fits t .store t.void [value, ptr]
  /-- An address computation stays in the address space of its pointer. -/
  | elementPtr {source target ty : Ty} {inbounds : Bool} {space : Nat} {ptr : Option Ty}
    {indices : List (Option Ty)} (result : t.data? ty = some (.pointer target space))
    (pointer : Slot (fun p => t.data? p = some (.pointer source space)) ptr)
    (integers : ∀ i ∈ indices, Slot (t.PartFits (· = .integer)) i) (some : indices ≠ []) :
    Fits t (.elementPtr source inbounds) ty (ptr :: indices)
  | cast {op : CastOpcode} {ty : Ty} {value : Option Ty}
    (valid : Slot (fun source => t.isValidCast op.val source ty = .ok true) value) :
    Fits t (.cast op) ty [value]
  | icmp (operand : Ty) {pred : IntPredicate} {ty : Ty} {lhs rhs : Option Ty}
    (sort : t.ScalarFits (fun k => k = .integer || k = .pointer) operand)
    (left : Slot (· = operand) lhs) (right : Slot (· = operand) rhs)
    (result : t.BoolLike operand ty) : Fits t (.icmp pred) ty [lhs, rhs]
  | fcmp (operand : Ty) {pred : FloatPredicate} {ty : Ty} {lhs rhs : Option Ty}
    (sort : t.ScalarFits (·.isFloatingPoint) operand)
    (left : Slot (· = operand) lhs) (right : Slot (· = operand) rhs)
    (result : t.BoolLike operand ty) : Fits t (.fcmp pred) ty [lhs, rhs]
  | phi {ty : Ty} {slots : List (Option Ty)} (firstClass : t.PartFits (·.isFirstClass) ty)
    (edges : Alternate ty t.label slots) : Fits t .phi ty slots
  /-- The arguments of a call come first, one for each parameter and perhaps more, then the
  callee. -/
  | call {fnType ty : Ty} {marker : TailCall} {conv : CallingConv} {params : List Ty} {varArg : Bool}
    {fixed extra : List (Option Ty)} {callee : Option Ty}
    (function : t.data? fnType = some (.function ty params varArg))
    (arguments : List.Forall₂ (fun param arg => Slot (· = param) arg) params fixed)
    (more : varArg = false → extra = []) (pointer : Slot (t.PointsTo fnType) callee) :
    Fits t (.call fnType marker conv) ty (fixed ++ extra ++ [callee])
  | select {ty : Ty} {cond ifTrue ifFalse : Option Ty} (firstClass : t.PartFits (·.isFirstClass) ty)
    (bool : Slot (· = t.int1) cond) (left : Slot (· = ty) ifTrue) (right : Slot (· = ty) ifFalse) :
    Fits t .select ty [cond, ifTrue, ifFalse]

namespace Operation.Fits

variable {t t' : TypeTable} {op : Operation} {ty : Ty} {slots slots' : List (Option Ty)}

/-- The marks of a call do not matter. -/
theorem remark {fnType : Ty} {marker marker' : TailCall} {conv conv' : CallingConv}
    (h : Fits t (.call fnType marker conv) ty slots) :
    Fits t (.call fnType marker' conv') ty slots := by
  cases h with
  | call function arguments more pointer => exact .call function arguments more pointer

/-- A switch takes a case for a value of the type of its condition. -/
theorem append_case {cond : Ty} {value block : Option Ty} (h : Fits t .switch ty slots)
    (hcond : slots[0]? = some (some cond)) (hvalue : Slot (· = cond) value)
    (hblock : Slot (· = t.label) block) : Fits t .switch ty (slots ++ [value, block]) := by
  cases h with
  | switch ty' integer edges two =>
    cases edges.eq_of_head hcond
    refine .switch cond integer (edges.append hvalue hblock) ?_
    simp

/-- A phi takes an incoming edge with a value of its type. -/
theorem append_incoming {value block : Option Ty} (h : Fits t .phi ty slots)
    (hvalue : Slot (· = ty) value) (hblock : Slot (· = t.label) block) :
    Fits t .phi ty (slots ++ [value, block]) := by
  cases h with
  | phi firstClass edges => exact .phi firstClass (edges.append hvalue hblock)

/-- A rule holds on, whatever is added to the table and whichever slots are emptied. -/
theorem mono (h : Fits t op ty slots) (grows : t.GrowsTo t')
    (under : List.Forall₂ Under slots' slots) : Fits t' op ty slots' := by
  have int1 : ∀ ty', ty' = t.int1 → ty' = t'.int1 := fun _ h => h.trans grows.int1_eq.symm
  have label : ∀ ty', ty' = t.label → ty' = t'.label := fun _ h => h.trans grows.label_eq.symm
  -- A rule has one fact for each operand slot, and each slot is replaced by the one under it.
  cases h with
  | retVoid =>
    cases under
    rw [← grows.void_eq]
    exact .retVoid
  | ret firstClass =>
    obtain _ | ⟨ha, _ | _⟩ := under
    rw [← grows.void_eq]
    exact .ret (firstClass.mono (fun _ h => h.mono grows) ha)
  | br hl =>
    obtain _ | ⟨ha, _ | _⟩ := under
    rw [← grows.void_eq]
    exact .br (hl.mono label ha)
  | condBr bool hl hr =>
    obtain _ | ⟨ha, _ | ⟨hb, _ | ⟨hc, _ | _⟩⟩⟩ := under
    rw [← grows.void_eq]
    exact .condBr (bool.mono int1 ha) (hl.mono label hb) (hr.mono label hc)
  -- The slots of switches and phis alternate, and stay so when some of them become empty.
  | switch ty' integer edges two =>
    rw [← grows.void_eq]
    refine .switch ty' (integer.mono grows) ?_ (under.length_eq ▸ two)
    rw [grows.label_eq]
    exact edges.mono under
  | unreachable =>
    cases under
    rw [← grows.void_eq]
    exact .unreachable
  | intBinary sort integer left right =>
    obtain _ | ⟨ha, _ | ⟨hb, _ | _⟩⟩ := under
    exact .intBinary sort (grows.scalarFits integer) (left.under ha) (right.under hb)
  | floatBinary sort float left right =>
    obtain _ | ⟨ha, _ | ⟨hb, _ | _⟩⟩ := under
    exact .floatBinary sort (grows.scalarFits float) (left.under ha) (right.under hb)
  -- Facts about the data of a type are facts about structural data, which does not change.
  | alloca pointer integer =>
    obtain _ | ⟨ha, _ | _⟩ := under
    exact .alloca (grows.structural pointer rfl) (integer.mono (fun _ h => h.mono grows) ha)
  | load pointer =>
    obtain _ | ⟨ha, _ | _⟩ := under
    exact .load (pointer.mono (fun _ => grows.pointsTo) ha)
  | store ty' stored pointer =>
    obtain _ | ⟨ha, _ | ⟨hb, _ | _⟩⟩ := under
    rw [← grows.void_eq]
    exact .store ty' (stored.under ha) (pointer.mono (fun _ => grows.pointsTo) hb)
  | elementPtr result pointer integers some =>
    obtain _ | ⟨ha, rest⟩ := under
    refine .elementPtr (grows.structural result rfl)
      (pointer.mono (fun _ h => grows.structural h rfl) ha) ?_ ?_
    · exact fun i hi => (Slot.all_under integers rest i hi).mono (fun _ h => h.mono grows) (.refl i)
    · rintro rfl
      cases rest
      exact some rfl
  | cast valid =>
    obtain _ | ⟨ha, _ | _⟩ := under
    exact .cast (valid.mono (fun _ => grows.isValidCast) ha)
  | icmp operand sort left right result =>
    obtain _ | ⟨ha, _ | ⟨hb, _ | _⟩⟩ := under
    exact .icmp operand (grows.scalarFits sort) (left.under ha) (right.under hb)
      (grows.boolLike result)
  | fcmp operand sort left right result =>
    obtain _ | ⟨ha, _ | ⟨hb, _ | _⟩⟩ := under
    exact .fcmp operand (grows.scalarFits sort) (left.under ha) (right.under hb)
      (grows.boolLike result)
  | phi firstClass edges =>
    refine .phi (firstClass.mono grows) ?_
    rw [grows.label_eq]
    exact edges.mono under
  | call function arguments more pointer =>
    -- The slots of a call are split as its rule splits them, and the empty part stays empty.
    obtain ⟨front, last, rfl, hfront, hlast⟩ := forall₂_append_right under
    obtain ⟨fixed, extra, rfl, hfixed, hextra⟩ := forall₂_append_right hfront
    obtain _ | ⟨hcallee, _ | _⟩ := hlast
    refine .call (grows.structural function rfl) (Slot.each_under arguments hfixed) (fun h => ?_)
      (pointer.mono (fun _ => grows.pointsTo) hcallee)
    rw [more h] at hextra
    exact List.forall₂_nil_right_iff.1 hextra
  | select firstClass bool left right =>
    obtain _ | ⟨ha, _ | ⟨hb, _ | ⟨hc, _ | _⟩⟩⟩ := under
    exact .select (firstClass.mono grows) (bool.mono int1 ha) (left.under hb)
      (right.under hc)

end Operation.Fits

end SsaGraph
