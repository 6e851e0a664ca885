import SsaGraph.Proofs.Type.Request

/-!
# Type requests cause no faults

The only fault that the type table knows is to be asked about a type that it does not have.
Everything that a well-formed table tells about its types is about types that it has too: the parts
of an admitted description are in the table. So a question about a type of the table has an answer,
and a request that is made with types of the table is answered or rejected.
-/

namespace SsaGraph

open Run (Calm)

namespace TypeTable

variable {t : TypeTable} {ty : Ty}

/-! ## Questions that have an answer -/

/-- A type of the table has its data. -/
theorem Has.data (h : t.Has ty) : ∃ d, t.data ty = .ok d := by
  obtain ⟨d, hd⟩ := h
  exact ⟨d, data_eq_ok_iff.2 hd⟩

/-- A type of the table has its kind. -/
theorem Has.kind (h : t.Has ty) : ∃ k, t.kind ty = .ok k := by
  obtain ⟨d, hd⟩ := h
  exact ⟨d.kind, kind_eq_ok_iff.2 ⟨d, hd, rfl⟩⟩

/-- For a type of the table the question of its size is answered. -/
theorem Has.isSized (h : t.Has ty) : ∃ b, t.isSized ty = .ok b := by
  obtain ⟨d, hd⟩ := h.data
  exact ⟨_, Question.bind_eq_ok_iff.2 ⟨d, hd, rfl⟩⟩

/-- The scalar type of a type of the table is in the table. -/
theorem Has.shape (hw : t.WellFormed) (h : t.Has ty) : ∃ s, t.shape ty = .ok s ∧ t.Has s.1 := by
  obtain ⟨d, hd⟩ := h
  simp only [TypeTable.shape, Question.bind_eq_ok_iff, data_eq_ok_iff]
  cases d with
  | vector elem lanes => exact ⟨(elem, some lanes), ⟨_, hd, rfl⟩, (hw.admits hd).2.has⟩
  | _ => exact ⟨(ty, none), ⟨_, hd, rfl⟩, _, hd⟩

/-- The scalar type is the first part of the shape. -/
theorem scalarType_eq (t : TypeTable) (ty : Ty) : t.scalarType ty = Prod.fst <$> t.shape ty := by
  unfold scalarType TypeTable.shape
  cases t.data ty with
  | error f => rfl
  | ok d => cases d <;> rfl

/-- A type of the table has the kind of its scalar. -/
theorem Has.scalarKind (hw : t.WellFormed) (h : t.Has ty) : ∃ k, t.scalarKind ty = .ok k := by
  obtain ⟨s, hs, has⟩ := h.shape hw
  obtain ⟨k, hk⟩ := has.kind
  refine ⟨k, Question.bind_eq_ok_iff.2 ⟨s.1, ?_, hk⟩⟩
  rw [scalarType_eq, hs]
  rfl

/-- A type of the table is asked for integers without fail. -/
theorem Has.isIntOrIntVector (hw : t.WellFormed) (h : t.Has ty) :
    ∃ b, t.isIntOrIntVector ty = .ok b := by
  obtain ⟨k, hk⟩ := h.scalarKind hw
  exact ⟨_, Question.bind_eq_ok_iff.2 ⟨k, hk, rfl⟩⟩

/-- A type of the table is asked for floating-point types without fail. -/
theorem Has.isFloatOrFloatVector (hw : t.WellFormed) (h : t.Has ty) :
    ∃ b, t.isFloatOrFloatVector ty = .ok b := by
  obtain ⟨k, hk⟩ := h.scalarKind hw
  exact ⟨_, Question.bind_eq_ok_iff.2 ⟨k, hk, rfl⟩⟩

/-- A type of the table has a number of primitive bits. -/
theorem Has.primitiveBits (hw : t.WellFormed) (h : t.Has ty) :
    ∃ n, t.primitiveBits ty = .ok n := by
  obtain ⟨d, hd⟩ := h
  simp only [TypeTable.primitiveBits, Question.bind_eq_ok_iff, data_eq_ok_iff]
  cases d with
  | vector elem lanes =>
    obtain ⟨e, he⟩ := (hw.admits hd).2.has
    exact ⟨_, _, hd, Question.bind_eq_ok_iff.2 ⟨e, data_eq_ok_iff.2 he, rfl⟩⟩
  | _ => exact ⟨_, _, hd, rfl⟩

/-- A type of the table gives one side of a cast. -/
theorem Has.castSide (hw : t.WellFormed) (h : t.Has ty) : ∃ s, t.castSide ty = .ok s := by
  obtain ⟨⟨elem, lanes⟩, hshape, has⟩ := h.shape hw
  obtain ⟨scalar, hscalar⟩ := has.data
  obtain ⟨k, hk⟩ := h.kind
  obtain ⟨bits, hbits⟩ := h.primitiveBits hw
  simp only [TypeTable.castSide, Question.bind_eq_ok_iff]
  exact ⟨_, (elem, lanes), hshape, scalar, hscalar, k, hk, bits, hbits, rfl⟩

/-- Between types of the table the validity of a cast is answered. -/
theorem Has.isValidCast {a b : Ty} (hw : t.WellFormed) (op : Opcode) (ha : t.Has a)
    (hb : t.Has b) : ∃ r, t.isValidCast op a b = .ok r := by
  obtain ⟨x, hx⟩ := ha.castSide hw
  obtain ⟨y, hy⟩ := hb.castSide hw
  exact ⟨_, Question.bind_eq_ok_iff.2 ⟨x, hx, Question.bind_eq_ok_iff.2 ⟨y, hy, rfl⟩⟩⟩

/-! ## Questions that may be rejected -/

/-- Checking where a type belongs is calm. -/
theorem check_calm : Question.Calm (t.check ty) := .guard_last fun _ => .pure

/-- The type is in the table if it belongs to the table's context; nothing is said about the types
of other contexts. -/
def Knows (t : TypeTable) (ty : Ty) : Prop := ty.ctx = t.ctx → t.Has ty

/-- A type of the table is known to it. -/
theorem Has.knows (h : t.Has ty) : t.Knows ty := fun _ => h

/-- Checking a known part is calm. -/
theorem checkPart_calm {fits : TypeKind → Bool} {err : String → Error} (h : t.Knows ty) :
    Question.Calm (t.checkPart fits err ty) := by
  refine .bind check_calm fun _ own => .answered (h (check_eq_ok_iff.1 own)).kind fun _ _ => ?_
  exact .guard_last fun _ => .pure

/-- Checking known parts is calm. -/
theorem checkParts_calm {fits : TypeKind → Bool} {err : String → Error} {tys : List Ty}
    (h : ∀ ty ∈ tys, t.Knows ty) : Question.Calm (t.checkParts fits err tys) :=
  .forM fun ty hty => checkPart_calm (h ty hty)

/-- Checking known fields is calm. -/
theorem checkFields_calm {fields : List Ty} (h : ∀ ty ∈ fields, t.Knows ty) :
    Question.Calm (t.checkFields fields) := checkParts_calm h

/-- Stepping into a type of the table is calm. -/
theorem typeAtIndex_calm {index : Nat} (h : t.Has ty) : Question.Calm (t.typeAtIndex ty index) := by
  refine .bind check_calm fun _ _ => .answered h.data fun d _ => ?_
  -- By the data of the type: the step is made, or it is rejected as out of range or not a step at
  -- all.
  split
  · exact .pure
  · exact .pure
  · exact .reject
  · split
    · exact .pure
    · exact .reject
  · split
    · exact .pure
    · exact .reject
  · exact .reject

/-- What is stepped to is in the table. -/
theorem has_of_typeAtIndex {index : Nat} {part : Ty} (hw : t.WellFormed)
    (h : t.typeAtIndex ty index = .ok part) : t.Has part := by
  simp only [typeAtIndex, Question.bind_eq_ok_iff, Question.lift_eq_ok_iff, data_eq_ok_iff] at h
  obtain ⟨_, -, d, hd, h⟩ := h
  -- A field is contained in its struct, and the table holds what its types contain.
  have field : ∀ {fields : List Ty} {f : Ty}, fields ⊆ d.contained → fields[index]? = some f →
      t.Has f :=
    fun sub hf => (hw.admits hd).has_contained _ (sub (List.mem_of_getElem? hf))
  split at h
  · cases h
    exact (hw.admits hd).has
  · cases h
    exact (hw.admits hd).2.has
  · cases h
  · split at h
    · rename_i hf
      cases h
      exact field (List.Subset.refl _) hf
    · cases h
  · split at h
    · rename_i hf
      cases h
      exact field (List.Subset.refl _) hf
    · cases h
  · cases h

/-! ## Requests for descriptions -/

/-- Asking for an integer type is calm. -/
theorem integerType_calm (bits : Nat) (t : TypeTable) : Calm (integerType bits) t :=
  .guard fun _ => .guard fun _ => .modifyGet

/-- Asking for a function type of types of the table is calm. -/
theorem functionType_calm {ret : Ty} {params : List Ty} {varArg : Bool} (hr : t.Has ret)
    (hp : ∀ ty ∈ params, t.Has ty) : Calm (functionType ret params varArg) t :=
  .get_bind (.ask (checkPart_calm hr.knows) fun _ _ =>
    .ask (checkParts_calm fun ty hty => (hp ty hty).knows) fun _ _ => .modifyGet)

/-- Asking for a pointer to a type of the table is calm. -/
theorem pointerType_calm {pointee : Ty} {space : Nat} (h : t.Has pointee) :
    Calm (pointerType pointee space) t :=
  .get_bind (.ask (checkPart_calm h.knows) fun _ _ => .modifyGet)

/-- Asking for an array of a type of the table is calm. -/
theorem arrayType_calm {elem : Ty} {len : Nat} (h : t.Has elem) : Calm (arrayType elem len) t :=
  .get_bind (.ask (checkPart_calm h.knows) fun _ _ => .modifyGet)

/-- Asking for a vector of a type of the table is calm. -/
theorem vectorType_calm {elem : Ty} {lanes : Nat} (h : t.Has elem) :
    Calm (vectorType elem lanes) t :=
  .get_bind (.ask check_calm fun _ _ => .guard fun _ => .ask (checkPart_calm h.knows) fun _ _ =>
    .modifyGet)

/-- Asking for a literal struct of types of the table is calm. -/
theorem literalStruct_calm {fields : List Ty} {packed : Bool} (h : ∀ ty ∈ fields, t.Has ty) :
    Calm (literalStruct fields packed) t :=
  .get_bind (.ask (checkFields_calm fun ty hty => (h ty hty).knows) fun _ _ => .modifyGet)

/-! ## Vectors derived from vectors -/

/-- Reading the shape of a type of the table is calm. -/
theorem vectorShape_calm (hw : t.WellFormed) (h : t.Has ty) : Question.Calm (t.vectorShape ty) := by
  refine .bind check_calm fun _ _ => .answered h.data fun d hd => ?_
  rw [data_eq_ok_iff] at hd
  split
  · exact .answered (hw.admits hd).2.has.data fun _ _ => .pure
  · exact .reject

/-- Deriving a vector from a type of the table is calm. -/
theorem deriveVector_calm (how : VectorDerivation) (hw : t.WellFormed) (h : t.Has ty) :
    Calm (how.run ty) t := by
  have shape := vectorShape_calm hw h
  -- Where the lanes change their width, the new integer type is in the table that comes out of the
  -- first step.
  have widened : ∀ bits lanes, Calm (do vectorType (← integerType bits) lanes) t := by
    intro bits lanes
    refine .bind (integerType_calm bits t) fun int t' h => ?_
    exact vectorType_calm ⟨_, (integerType_gets bits).data? hw h⟩
  have element : ∀ {elem bits lanes}, t.vectorShape ty = .ok (elem, bits, lanes) → t.Has elem := by
    intro elem bits lanes h
    obtain ⟨-, d, hd, -⟩ := vectorShape_ok h
    exact ⟨d, hd⟩
  cases how with
  | integer => exact .get_bind (.ask shape fun _ _ => .guard fun _ => widened _ _)
  | extended => exact .get_bind (.ask shape fun _ _ => widened _ _)
  | truncated => exact .get_bind (.ask shape fun _ _ => .guard fun _ => widened _ _)
  | halved =>
    exact .get_bind (.ask shape fun _ h => .guard fun _ => vectorType_calm (element h))
  | doubled =>
    exact .get_bind (.ask shape fun _ h => .guard fun _ => vectorType_calm (element h))

/-! ## Identified structs -/

/-- Giving a struct a body of types of the table is calm. -/
theorem setStructBody_calm {fields : List Ty} {packed : Bool} (h : t.Has ty)
    (hf : ∀ ty ∈ fields, t.Has ty) : Calm (setStructBody ty fields packed) t := by
  refine .get_bind (.ask check_calm fun _ _ => .answered h.data fun d _ => ?_)
  split
  · exact .reject
  · exact .ask (checkFields_calm fun ty hty => (hf ty hty).knows) fun _ _ => .set
  · exact .reject

/-- The struct that has just been created is in the table, and so are still its fields. -/
theorem createStructWithBody_calm {name : Option String} {fields : List Ty} {packed : Bool}
    (hf : ∀ ty ∈ fields, t.Has ty) : Calm (createStructWithBody name fields packed) t := by
  have known : ∀ ty ∈ fields, t.Knows ty := fun ty hty => (hf ty hty).knows
  refine .get_bind (.ask (checkFields_calm known) fun _ _ => .bind .modifyGet fun ty t' h => ?_)
  cases h
  have grows := (Reforms.create (t := t) name).growsTo
  obtain ⟨name', mends, -⟩ := assignName_mends (t := (t.push (.identified none none)).2)
    (by rw [data?_push, if_pos rfl]) name
  refine .bind (setStructBody_calm ⟨_, (mends.after _).trans (if_pos rfl)⟩ ?_) fun _ _ _ => .pure
  exact fun field hfield => grows.has (hf field hfield)

/-- Renaming a struct of the table is calm. -/
theorem setStructName_calm {name : Option String} (h : t.Has ty) :
    Calm (setStructName ty name) t := by
  refine .get_bind (.ask check_calm fun _ _ => .answered h.data fun d _ => ?_)
  split
  · split
    · exact .pure
    · exact .set
  · exact .reject

end TypeTable

end SsaGraph
