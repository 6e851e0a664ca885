import SsaGraph.Proofs.Type.Growth
import SsaGraph.Request

/-!
# Requests for types

A request for a description succeeds exactly when the table admits the description, and returns its
one entry (`Gets`). Everything else about such a request follows: its effect is one change of the
table, it changes nothing when it is rejected, and it is not rejected when the description is
admitted. The last is what makes the composed requests atomic: when a vector is derived, or a struct
created with its body, the parts that come after the first change ask for something that the table
admits.
-/

namespace SsaGraph

namespace TypeTable

/-! ## Checking parts -/

/-- The check of a part passes exactly when the part fits. -/
@[simp] theorem checkPart_eq_ok_iff {t : TypeTable} {fits : TypeKind → Bool} {err : String → Error}
    {ty : Ty} {a : Unit} : t.checkPart fits err ty = .ok a ↔ t.PartFits fits ty := by
  simp only [checkPart, Question.bind_eq_ok_iff, check_eq_ok_iff, Question.lift_eq_ok_iff,
    kind_eq_ok_iff, Question.guard_last_eq_ok_iff]
  constructor
  · rintro ⟨_, -, _, ⟨d, hd, rfl⟩, hf, -⟩
    exact ⟨d, hd, hf⟩
  · rintro ⟨d, hd, hf⟩
    exact ⟨(), ctx_of_data? hd, d.kind, ⟨d, hd, rfl⟩, hf, rfl⟩

/-- The check of parts passes exactly when all of them fit. -/
@[simp] theorem checkParts_eq_ok_iff {t : TypeTable} {fits : TypeKind → Bool}
    {err : String → Error} {tys : List Ty} {a : Unit} :
    t.checkParts fits err tys = .ok a ↔ ∀ ty ∈ tys, t.PartFits fits ty := by
  simp [checkParts]

/-- The check of fields passes exactly when all of them may be fields. -/
@[simp] theorem checkFields_eq_ok_iff {t : TypeTable} {fields : List Ty} {a : Unit} :
    t.checkFields fields = .ok a ↔ ∀ field ∈ fields, t.PartFits (·.canBeField) field := by
  simp [checkFields]

/-! ## Requests for descriptions -/

/-- The request succeeds exactly when the table admits the description, with its one entry. -/
structure Gets (m : Run TypeTable Ty) (d : TypeData) : Prop where
  eq_ok_iff : ∀ {t ty t'}, m t = .ok ty t' ↔ t.Admits d ∧ t.intern d = (ty, t')

/-- A description is requested by interning it. -/
theorem request_eq_ok_iff {d : TypeData} {t t' : TypeTable} {ty : Ty} :
    request d t = .ok ty t' ↔ t.intern d = (ty, t') := by
  rw [request, Run.modifyGet_apply]
  simp [Prod.ext_iff]

/-- An integer type is gotten by its width. -/
theorem integerType_gets (bits : Nat) : Gets (integerType bits) (.integer bits) := by
  refine ⟨fun {t ty t'} => ?_⟩
  simp only [integerType, Run.guard_eq_ok_iff, request_eq_ok_iff, Admits, and_assoc]

/-- A function type is gotten by its parts. -/
theorem functionType_gets (ret : Ty) (params : List Ty) (varArg : Bool) :
    Gets (functionType ret params varArg) (.function ret params varArg) := by
  refine ⟨fun {t ty t'} => ?_⟩
  simp [functionType, request_eq_ok_iff, Admits, and_assoc]

/-- A pointer type is gotten by its pointee and address space. -/
theorem pointerType_gets (pointee : Ty) (space : Nat) :
    Gets (pointerType pointee space) (.pointer pointee space) := by
  refine ⟨fun {t ty t'} => ?_⟩
  simp [pointerType, request_eq_ok_iff, Admits, and_assoc]

/-- An array type is gotten by its element and length. -/
theorem arrayType_gets (elem : Ty) (len : Nat) : Gets (arrayType elem len) (.array elem len) := by
  refine ⟨fun {t ty t'} => ?_⟩
  simp [arrayType, request_eq_ok_iff, Admits, and_assoc]

/-- A vector type is gotten by its element and number of lanes. -/
theorem vectorType_gets (elem : Ty) (lanes : Nat) :
    Gets (vectorType elem lanes) (.vector elem lanes) := by
  refine ⟨fun {t ty t'} => ?_⟩
  simp only [vectorType, Run.bind_eq_ok_iff, Run.get_apply, Run.question_eq_ok_iff,
    check_eq_ok_iff, Run.guard_eq_ok_iff, checkPart_eq_ok_iff, request_eq_ok_iff, Admits]
  constructor
  · rintro ⟨_, _, h, -, _, ⟨-, rfl⟩, hl, -, _, ⟨hp, rfl⟩, hi⟩
    cases h
    exact ⟨⟨hl, hp⟩, hi⟩
  · rintro ⟨⟨hl, d, hd, hk⟩, hi⟩
    exact ⟨t, t, rfl, (), t, ⟨ctx_of_data? hd, rfl⟩, hl, (), t, ⟨⟨d, hd, hk⟩, rfl⟩, hi⟩

/-- A literal struct is gotten by its fields. -/
theorem literalStruct_gets (fields : List Ty) (packed : Bool) :
    Gets (literalStruct fields packed) (.literal ⟨fields, packed⟩) := by
  refine ⟨fun {t ty t'} => ?_⟩
  simp [literalStruct, request_eq_ok_iff, Admits, and_assoc]

namespace Gets

variable {m : Run TypeTable Ty} {d : TypeData} {t t' : TypeTable} {ty : Ty}

/-- The answer has the description. -/
theorem data? (hm : Gets m d) (hw : t.WellFormed) (h : m t = .ok ty t') :
    t'.data? ty = some d := by
  have hi := (hm.eq_ok_iff.1 h).2
  have := hw.data?_intern d
  rwa [hi] at this

/-- Getting a type grows the table. -/
theorem growsTo (hm : Gets m d) (h : m t = .ok ty t') : t.GrowsTo t' := by
  have hi := (hm.eq_ok_iff.1 h).2
  have := intern_growsTo t d
  rwa [hi] at this

/-- Getting a type is a chain of changes. -/
theorem steps (hm : Gets m d) (hd : d.isNominal = false) (t : TypeTable) :
    Run.Steps Change m t := by
  intro ty t' h
  obtain ⟨admits, hi⟩ := hm.eq_ok_iff.1 h
  have := Change.enter hd admits
  rw [hi] at this
  exact .single this

/-- A description that the table admits is not refused. -/
theorem firm (hm : Gets m d) (hd : t.Admits d) : Run.Firm m t :=
  .of_ok (hm.eq_ok_iff.2 ⟨hd, rfl⟩)

end Gets

/-- A rejected request for an integer type leaves the table. -/
theorem integerType_atomic (bits : Nat) (t : TypeTable) : Run.Atomic (integerType bits) t :=
  .guard fun _ => .guard fun _ => .of_firm .modifyGet

/-- A rejected request for a function type leaves the table. -/
theorem functionType_atomic (ret : Ty) (params : List Ty) (varArg : Bool) (t : TypeTable) :
    Run.Atomic (functionType ret params varArg) t :=
  .get_bind (.ask fun _ _ => .ask fun _ _ => .of_firm .modifyGet)

/-- A rejected request for a pointer type leaves the table. -/
theorem pointerType_atomic (pointee : Ty) (space : Nat) (t : TypeTable) :
    Run.Atomic (pointerType pointee space) t :=
  .get_bind (.ask fun _ _ => .of_firm .modifyGet)

/-- A rejected request for an array type leaves the table. -/
theorem arrayType_atomic (elem : Ty) (len : Nat) (t : TypeTable) :
    Run.Atomic (arrayType elem len) t :=
  .get_bind (.ask fun _ _ => .of_firm .modifyGet)

/-- A rejected request for a vector type leaves the table. -/
theorem vectorType_atomic (elem : Ty) (lanes : Nat) (t : TypeTable) :
    Run.Atomic (vectorType elem lanes) t :=
  .get_bind (.ask fun _ _ => .guard fun _ => .ask fun _ _ => .of_firm .modifyGet)

/-- A rejected request for a literal struct leaves the table. -/
theorem literalStruct_atomic (fields : List Ty) (packed : Bool) (t : TypeTable) :
    Run.Atomic (literalStruct fields packed) t :=
  .get_bind (.ask fun _ _ => .of_firm .modifyGet)

/-! ## Vectors derived from vectors -/

/-- A shape is that of a vector of the table: its element, the bits of the element and its lanes. -/
theorem vectorShape_ok {t : TypeTable} {ty elem : Ty} {bits lanes : Nat}
    (h : t.vectorShape ty = .ok (elem, bits, lanes)) :
    t.data? ty = some (.vector elem lanes) ∧
      ∃ d, t.data? elem = some d ∧ d.scalarBits = bits := by
  simp only [vectorShape, Question.bind_eq_ok_iff, Question.lift_eq_ok_iff, data_eq_ok_iff] at h
  obtain ⟨_, -, d, hd, h⟩ := h
  cases d <;> simp at h
  obtain ⟨d', hd', rfl, rfl, rfl⟩ := h
  exact ⟨hd, d', hd', rfl⟩

/-- Deriving a vector is a chain of changes. -/
theorem deriveVector_steps (how : VectorDerivation) (ty : Ty) (t : TypeTable) :
    Run.Steps Change (how.run ty) t := by
  have widened : ∀ bits lanes t, Run.Steps Change (do vectorType (← integerType bits) lanes) t := by
    intro bits lanes t
    exact .bind ((integerType_gets bits).steps rfl t) fun _ t' _ => (vectorType_gets _ _).steps rfl t'
  cases how with
  | integer => exact .get_bind (.ask fun _ _ => .guard fun _ => widened _ _ t)
  | extended => exact .get_bind (.ask fun _ _ => widened _ _ t)
  | truncated => exact .get_bind (.ask fun _ _ => .guard fun _ => widened _ _ t)
  | halved => exact .get_bind (.ask fun _ _ => .guard fun _ => (vectorType_gets _ _).steps rfl t)
  | doubled => exact .get_bind (.ask fun _ _ => .guard fun _ => (vectorType_gets _ _).steps rfl t)

/-- A vector has lanes, and integers fit into a vector; so once the integer type is there, the
vector type is not refused. -/
theorem deriveVector_atomic (how : VectorDerivation) (ty : Ty) {t : TypeTable}
    (hw : t.WellFormed) : Run.Atomic (how.run ty) t := by
  have widened : ∀ {bits lanes}, 0 < lanes →
      Run.Atomic (do vectorType (← integerType bits) lanes) t := by
    intro bits lanes hl
    refine .bind (integerType_atomic bits t) fun int t' h => ?_
    exact (vectorType_gets int lanes).firm ⟨hl, _, (integerType_gets bits).data? hw h, rfl⟩
  have lanes_pos : ∀ {elem bits lanes}, t.vectorShape ty = .ok (elem, bits, lanes) →
      0 < lanes := fun h => (hw.admits (vectorShape_ok h).1).1
  cases how with
  | integer => exact .get_bind (.ask fun _ h => .guard fun _ => widened (lanes_pos h))
  | extended => exact .get_bind (.ask fun _ h => widened (lanes_pos h))
  | truncated => exact .get_bind (.ask fun _ h => .guard fun _ => widened (lanes_pos h))
  | halved => exact .get_bind (.ask fun _ _ => .guard fun _ => vectorType_atomic _ _ t)
  | doubled => exact .get_bind (.ask fun _ _ => .guard fun _ => vectorType_atomic _ _ t)

/-! ## Identified structs -/

/-- Creating a struct is one reform. -/
theorem createStruct_steps (name : Option String) (t : TypeTable) :
    Run.Steps Reforms (createStruct name) t := by
  intro ty t' h
  cases h
  exact .single (.create name)

/-- A body is set exactly for a struct without one, to fields that are admitted. -/
theorem setStructBody_eq_ok_iff {ty : Ty} {fields : List Ty} {packed : Bool} {t t' : TypeTable}
    {a : Unit} :
    setStructBody ty fields packed t = .ok a t' ↔
      ∃ name, t.data? ty = some (.identified name none) ∧
        t.Admits (.identified name (some ⟨fields, packed⟩)) ∧
        t' = t.setData ty (.identified name (some ⟨fields, packed⟩)) := by
  simp only [setStructBody, Run.bind_eq_ok_iff, Run.get_apply, Run.question_eq_ok_iff,
    check_eq_ok_iff, Run.faulting_eq_ok_iff, data_eq_ok_iff]
  constructor
  · -- The data is read after the check of the handle; only a struct without a body gets further.
    rintro ⟨_, _, h₀, _, _, ⟨-, rfl⟩, d, _, ⟨hd, rfl⟩, h⟩
    cases h₀
    cases d with
    | identified name body =>
      cases body with
      | none =>
        simp only [Run.bind_eq_ok_iff, Run.question_eq_ok_iff, checkFields_eq_ok_iff,
          Run.set_apply] at h
        obtain ⟨_, _, ⟨hf, rfl⟩, h⟩ := h
        cases h
        exact ⟨name, hd, hf, rfl⟩
      | some body => simp at h
    | _ => simp at h
  · rintro ⟨name, hd, hf, rfl⟩
    refine ⟨t, t, rfl, (), t, ⟨ctx_of_data? hd, rfl⟩, _, t, ⟨hd, rfl⟩, ?_⟩
    refine Run.bind_eq_ok_iff.2 ⟨(), t, Run.question_eq_ok_iff.2 ⟨?_, rfl⟩, rfl⟩
    exact checkFields_eq_ok_iff.2 hf

/-- Setting a body is one reform. -/
theorem setStructBody_steps (ty : Ty) (fields : List Ty) (packed : Bool) (t : TypeTable) :
    Run.Steps Reforms (setStructBody ty fields packed) t := by
  intro a t' h
  obtain ⟨name, hd, admits, rfl⟩ := setStructBody_eq_ok_iff.1 h
  exact .single (.complete hd admits)

/-- A rejected body leaves the table. -/
theorem setStructBody_atomic (ty : Ty) (fields : List Ty) (packed : Bool) (t : TypeTable) :
    Run.Atomic (setStructBody ty fields packed) t := by
  refine .get_bind (.ask fun _ _ => .ask_fault fun d _ => ?_)
  split
  · exact .reject
  · exact .ask fun _ _ => .of_firm .set
  · exact .reject

/-- Creating a struct with a body is a chain of reforms. -/
theorem createStructWithBody_steps (name : Option String) (fields : List Ty) (packed : Bool)
    (t : TypeTable) : Run.Steps Reforms (createStructWithBody name fields packed) t := by
  refine .get_bind (.ask fun _ _ => .bind (createStruct_steps name t) fun ty t' _ => ?_)
  exact .bind (setStructBody_steps ty fields packed t') fun _ t'' _ => .pure

/-- The fields that were checked before the struct was created pass the second check as well, and
the new struct has no body yet. -/
theorem createStructWithBody_atomic (name : Option String) (fields : List Ty) (packed : Bool)
    (t : TypeTable) : Run.Atomic (createStructWithBody name fields packed) t := by
  refine .get_bind (.ask fun _ hf => .bind (.of_firm .modifyGet) fun ty t' h => ?_)
  cases h
  rw [checkFields_eq_ok_iff] at hf
  have grows := (Reforms.create (t := t) name).growsTo
  obtain ⟨name', mends, -⟩ := assignName_mends (t := (t.push (.identified none none)).2)
    (by rw [data?_push, if_pos rfl]) name
  refine .bind (.of_ok (a := ()) (setStructBody_eq_ok_iff.2 ⟨name', ?_, ?_, rfl⟩)) fun _ _ _ => .pure
  · exact (mends.after _).trans (if_pos rfl)
  · exact fun field hfield => (hf field hfield).mono grows

/-- Renaming a struct is one reform. -/
theorem setStructName_steps (ty : Ty) (name : Option String) (t : TypeTable) :
    Run.Steps Reforms (setStructName ty name) t := by
  refine .get_bind (.ask fun _ _ => .ask_fault fun d hd => ?_)
  rw [data_eq_ok_iff] at hd
  cases d with
  | identified old body =>
    dsimp only
    split
    · exact .pure
    · intro a t' h
      cases h
      exact .single (.rename name hd)
  | _ =>
    intro a t' h
    cases h

/-- A rejected renaming leaves the table. -/
theorem setStructName_atomic (ty : Ty) (name : Option String) (t : TypeTable) :
    Run.Atomic (setStructName ty name) t := by
  refine .get_bind (.ask fun _ _ => .ask_fault fun d _ => ?_)
  split
  · split
    · exact .of_firm .pure
    · exact .of_firm .set
  · exact .reject

end TypeTable

end SsaGraph
