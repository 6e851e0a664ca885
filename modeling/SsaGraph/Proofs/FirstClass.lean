import SsaGraph.Proofs.Casting

/-!
# Type rules take what is first-class

Ordinary values are of a first-class type; blocks are of type `label`, and instructions without a
result of type `void`. An instruction takes blocks where it goes to or comes from one, and ordinary
values everywhere else. The rule is kept in many ways: by a check of its own, or because the type is
that of a parameter, of a phi or of a constant, or because a cast from it is valid. The type rules
of instructions cover all of them (`Operation.Fits.firstClass`), with two exceptions. The rule of a
store is about what its pointer points to, which may be a function; and that of a call says nothing
about the arguments that there are no parameters for.
-/

namespace SsaGraph

/-! ## First-class types -/

namespace TypeKind

variable {k : TypeKind}

/-- A single value is first-class. -/
theorem isFirstClass_of_isSingleValue (h : k.isSingleValue = true) : k.isFirstClass = true := by
  cases k <;> first | rfl | cases h

/-- A floating point kind is first-class. -/
theorem isFirstClass_of_isFloatingPoint (h : k.isFloatingPoint = true) : k.isFirstClass = true := by
  cases k <;> first | rfl | cases h

/-- What can be loaded and stored is first-class. -/
theorem isFirstClass_of_canBeAccessed (h : k.canBeAccessed = true) : k.isFirstClass = true := by
  cases k <;> first | rfl | cases h

end TypeKind

/-- A slot of one type is a slot for what this type is. -/
theorem Slot.of_eq {P : Ty → Prop} {ty : Ty} {slot : Option Ty} (h : Slot (· = ty) slot)
    (hp : P ty) : Slot P slot := by
  intro ty' hty'
  rw [h ty' hty']
  exact hp

/-- The same for slots whose types are given one by one. -/
theorem Slot.of_each {P : Ty → Prop} {tys : List Ty} {slots : List (Option Ty)}
    (h : List.Forall₂ (fun ty slot => Slot (· = ty) slot) tys slots) (hp : ∀ ty ∈ tys, P ty) :
    ∀ slot ∈ slots, Slot P slot := by
  induction h with
  | nil => exact nofun
  | cons first _ ih =>
    rw [List.forall_mem_cons] at hp ⊢
    exact ⟨first.of_eq hp.1, ih hp.2⟩

/-- Every second slot is for a value. -/
theorem Alternate.value {ty label : Ty} {slots : List (Option Ty)} (h : Alternate ty label slots)
    {i : Nat} {slot : Option Ty} (hi : slots[i]? = some slot) (even : i % 2 = 0) :
    Slot (· = ty) slot := by
  induction h generalizing i with
  | nil => cases hi
  | cons value _ _ ih =>
    match i with
    | 0 =>
      cases hi
      exact value
    | 1 => cases even
    | i + 2 => exact ih hi (by omega)

namespace TypeTable

variable {t : TypeTable} {ty : Ty}

/-- The type is one that ordinary values have. -/
abbrev IsFirstClass (t : TypeTable) (ty : Ty) : Prop := t.PartFits (·.isFirstClass) ty

/-- A type that fits a kind fits a weaker one. -/
theorem PartFits.imp {p q : TypeKind → Bool} (h : t.PartFits p ty)
    (imp : ∀ {k}, p k = true → q k = true) : t.PartFits q ty := by
  obtain ⟨d, hd, hp⟩ := h
  exact ⟨d, hd, imp hp⟩

/-- A pointer is first-class. -/
theorem isFirstClass_of_pointer {pointee : Ty} {space : Nat}
    (h : t.data? ty = some (.pointer pointee space)) : t.IsFirstClass ty :=
  ⟨_, h, rfl⟩

/-- An integer is first-class. -/
theorem isFirstClass_of_integer (h : t.PartFits (· = .integer) ty) : t.IsFirstClass ty := by
  refine h.imp fun {k} hk => ?_
  rw [of_decide_eq_true hk]
  rfl

/-- The type `i1` is first-class. -/
theorem WellFormed.isFirstClass_int1 (hw : t.WellFormed) : t.IsFirstClass t.int1 :=
  ⟨_, hw.primitive rfl, rfl⟩

/-- Vectors are first-class, and what is not a vector is of the kind that is asked for. -/
theorem ScalarFits.isFirstClass {p : TypeKind → Bool} (h : t.ScalarFits p ty)
    (imp : ∀ k, p k = true → k.isFirstClass = true) : t.IsFirstClass ty := by
  obtain ⟨k, hk, hp⟩ := h
  simp only [scalarKind, scalarType, Question.bind_eq_ok_iff, data_eq_ok_iff] at hk
  obtain ⟨elem, ⟨d, hd, he⟩, hk⟩ := hk
  cases d with
  | vector elem' lanes => exact ⟨_, hd, rfl⟩
  | _ =>
    cases he
    exact partFits_of_kind hk (imp k hp)

end TypeTable

/-- A cast is from something first-class, or from a vector of it. -/
theorem CastSide.isFirstClass_of_valid {op : Opcode} {x y : CastSide} (h : valid op x y = true) :
    x.scalar.isFirstClass = true ∨ x.kind.isFirstClass = true := by
  have integer : x.scalar = .integer → x.scalar.isFirstClass = true := fun hx => hx ▸ rfl
  have pointer : x.scalar = .pointer → x.scalar.isFirstClass = true := fun hx => hx ▸ rfl
  -- The rule of each cast names the sort of what it casts from; only bit casts also look at the
  -- whole type.
  cases op with
  | trunc | zext | sext =>
    simp only [valid, valid.ints, Bool.and_eq_true, decide_eq_true_eq] at h
    exact .inl (integer h.1.2.1)
  | uitofp | sitofp | inttoptr =>
    simp only [valid, Bool.and_eq_true, decide_eq_true_eq] at h
    exact .inl (integer h.1.2)
  | fptrunc | fpext =>
    simp only [valid, valid.floats, Bool.and_eq_true, decide_eq_true_eq] at h
    exact .inl (TypeKind.isFirstClass_of_isFloatingPoint h.1.2.1)
  | fptoui | fptosi =>
    simp only [valid, Bool.and_eq_true, decide_eq_true_eq] at h
    exact .inl (TypeKind.isFirstClass_of_isFloatingPoint h.1.2)
  | ptrtoint =>
    simp only [valid, Bool.and_eq_true, decide_eq_true_eq] at h
    exact .inl (pointer h.1.2)
  | bitcast =>
    rcases bitcast_eq_true_iff.1 h with ⟨hx, -⟩ | ⟨-, -, single, -⟩
    · exact .inl (pointer hx)
    · exact .inr (TypeKind.isFirstClass_of_isSingleValue single)
  | _ => cases h

/-- What is cast is first-class. -/
theorem TypeTable.Accepts.isFirstClass {t : TypeTable} {op : Opcode} {a b : Ty}
    (h : t.Accepts op a b) : t.IsFirstClass a := by
  obtain ⟨x, y, hx, -, valid⟩ := accepts_iff.1 h
  refine partFits_of_kind (kind_of_castSide hx) ?_
  rcases castSide_cases hx with ⟨d, -, -, rfl⟩ | ⟨elem, n, d, -, -, rfl⟩
  · exact (CastSide.isFirstClass_of_valid valid).elim id id
  · rfl

/-! ## Operands of a rule -/

namespace Operation

/-- Operand number `i` of `count` is a block to go to or to come from. -/
def holdsBlock (count i : Nat) : Operation → Bool
  | br => count = 1 || i ≠ 0
  | switch | phi => i % 2 = 1
  | _ => false

/-- Operand number `i` of `count` is an argument of a call for which there is no parameter. -/
def HoldsFurther (t : TypeTable) (count i : Nat) (op : Operation) : Prop :=
  ∃ fnType marker conv ret params, op = .call fnType marker conv ∧
    t.data fnType = .ok (.function ret params true) ∧ params.length ≤ i ∧ i + 1 < count

variable {t : TypeTable} {op : Operation} {ty : Ty} {slots : List (Option Ty)} {slot : Option Ty}
  {i : Nat}

/-- The arguments that there are parameters for have the types of the parameters, and the callee is
a pointer. -/
theorem call_firstClass {fnType : Ty} {params : List Ty} {varArg : Bool}
    {fixed extra : List (Option Ty)} {callee : Option Ty} (hw : t.WellFormed)
    (function : t.data? fnType = some (.function ty params varArg))
    (arguments : List.Forall₂ (fun param arg => Slot (· = param) arg) params fixed)
    (more : varArg = false → extra = []) (pointer : Slot (t.PointsTo fnType) callee)
    (hi : (fixed ++ extra ++ [callee])[i]? = some slot)
    (few : ¬ (varArg = true ∧ params.length ≤ i ∧ i + 1 < (fixed ++ extra ++ [callee]).length)) :
    Slot t.IsFirstClass slot := by
  have count := arguments.length_eq
  have length : (fixed ++ extra ++ [callee]).length = fixed.length + extra.length + 1 := by
    rw [List.length_append, List.length_append, List.length_singleton]
  -- The slot is that of a parameter, of a further argument, or of the callee.
  by_cases first : i < fixed.length
  · rw [List.append_assoc, List.getElem?_append_left first] at hi
    exact Slot.of_each arguments (hw.admits function).2 slot (List.mem_of_getElem? hi)
  · by_cases last : i < fixed.length + extra.length
    · refine absurd ⟨?_, by omega, by omega⟩ few
      cases varArg with
      | true => rfl
      | false =>
        rw [more rfl] at last
        exact absurd last first
    · rw [List.getElem?_append_right (by simpa using last)] at hi
      cases List.mem_singleton.1 (List.mem_of_getElem? hi)
      exact pointer.mono (fun _ ⟨_, hp⟩ => TypeTable.isFirstClass_of_pointer hp) (.refl _)

/-- Blocks and further arguments aside, the operand slots of an instruction are for what is
first-class. What a store takes is not told by its rule. -/
theorem Fits.firstClass (h : Fits t op ty slots) (hw : t.WellFormed) (hi : slots[i]? = some slot)
    (other : op ≠ .store) (data : op.holdsBlock slots.length i = false)
    (few : ¬ op.HoldsFurther t slots.length i) : Slot t.IsFirstClass slot := by
  have mem : slot ∈ slots := List.mem_of_getElem? hi
  have both : ∀ {lhs rhs : Option Ty} {ty : Ty}, Slot (· = ty) lhs → Slot (· = ty) rhs →
      t.IsFirstClass ty → ∀ slot ∈ [lhs, rhs], Slot t.IsFirstClass slot := fun left right first =>
    List.forall_mem_cons.2 ⟨left.of_eq first, List.forall_mem_singleton.2 (right.of_eq first)⟩
  cases h with
  | retVoid => cases mem
  | unreachable => cases mem
  | ret firstClass =>
    cases List.mem_singleton.1 mem
    exact firstClass
  | br label => cases data
  | condBr bool labelTrue labelFalse =>
    obtain rfl : i = 0 := by simpa [holdsBlock] using data
    cases hi
    exact bool.of_eq hw.isFirstClass_int1
  -- Values and labels alternate, and the labels are excluded by their positions.
  | switch ty' integer edges two =>
    have even : i % 2 = 0 := by simpa [holdsBlock] using data
    exact (edges.value hi even).of_eq (TypeTable.isFirstClass_of_integer integer)
  | phi firstClass edges =>
    have even : i % 2 = 0 := by simpa [holdsBlock] using data
    exact (edges.value hi even).of_eq firstClass
  | intBinary sort integer left right =>
    refine both left right (integer.isFirstClass fun k hk => ?_) slot mem
    rw [of_decide_eq_true hk]
    rfl
  | floatBinary sort float left right =>
    exact both left right
      (float.isFirstClass fun k hk => TypeKind.isFirstClass_of_isFloatingPoint hk) slot mem
  -- For the memory operations the rule fixes the pointer and the indices, which is enough.
  | alloca pointer integer =>
    cases List.mem_singleton.1 mem
    exact integer.mono (fun _ => TypeTable.isFirstClass_of_integer) (.refl _)
  | load pointer =>
    cases List.mem_singleton.1 mem
    exact pointer.mono (fun _ ⟨_, hp⟩ => TypeTable.isFirstClass_of_pointer hp) (.refl _)
  -- A store is excluded, since its value may be of any type that its pointer points to.
  | store => exact absurd rfl other
  | elementPtr result pointer integers some =>
    rcases List.mem_cons.1 mem with rfl | mem
    · exact pointer.mono (fun _ => TypeTable.isFirstClass_of_pointer) (.refl _)
    · exact (integers slot mem).mono (fun _ => TypeTable.isFirstClass_of_integer) (.refl _)
  | cast valid =>
    cases List.mem_singleton.1 mem
    exact valid.mono (fun _ h => TypeTable.Accepts.isFirstClass h) (.refl _)
  | icmp operand sort left right result =>
    refine both left right (sort.isFirstClass fun k hk => ?_) slot mem
    obtain rfl | rfl : k = .integer ∨ k = .pointer := by simpa using hk
    all_goals rfl
  | fcmp operand sort left right result =>
    exact both left right
      (sort.isFirstClass fun k hk => TypeKind.isFirstClass_of_isFloatingPoint hk) slot mem
  | select firstClass bool left right =>
    rcases List.mem_cons.1 mem with rfl | mem
    · exact bool.of_eq hw.isFirstClass_int1
    · exact both left right firstClass slot mem
  -- Of a call only the further arguments are not checked, and they are excluded as well.
  | call function arguments more pointer =>
    refine call_firstClass hw function arguments more pointer hi ?_
    rintro ⟨rfl, least, last⟩
    exact few ⟨_, _, _, _, _, rfl, TypeTable.data_eq_ok_iff.2 function, least, last⟩

end Operation

end SsaGraph
