import SsaGraph.Inspect
import SsaGraph.Proofs.Build.Emission
import SsaGraph.Proofs.Canonical

/-!
# Address computations

An address computation is given a pointer and indices. The first index steps over what the pointer
points to, and each of the others steps into the type reached so far: into the field of a struct
that a constant numbers, or into the element of an array or a vector. `Enters` is one such step and
`Walks` is a series of them; `walk_eq_ok_iff` says that this is what `walk` computes.

`Addresses` says what can be relied on at a valid point: when the request succeeds, what it answers
with, and what the answer's type depends on. Nothing is rejected after the walk. A walk starts at a
type that can be pointed to and goes on to fields and elements, which are first-class, so the
pointer type that it asks for is always granted (`Walks.canBePointee`).
-/

namespace SsaGraph

/-- A first-class type can be pointed to. -/
theorem TypeKind.canBePointee_of_isFirstClass {k : TypeKind} (h : k.isFirstClass = true) :
    k.canBePointee = true := by
  cases k <;> first | rfl | cases h

/-- The type of a vector's lane is first-class. -/
theorem TypeKind.isFirstClass_of_canBeLane {k : TypeKind} (h : k.canBeLane = true) :
    k.isFirstClass = true := by
  cases k <;> first | rfl | cases h

/-! ## One step -/

namespace TypeTable

variable {t : TypeTable} {ty part : Ty}

/-- The field that an index selects, if there is one. -/
theorem fieldAt_eq_ok_iff {body : StructBody} {index : Nat} :
    (match body.fields[index]? with
      | some field => pure field
      | none => reject (.fieldOutOfRange index) : Except Failure Ty) = .ok part ↔
      body.fields[index]? = some part := by
  cases body.fields[index]? <;> simp

/-- The type that a step leads to. -/
theorem typeAtIndex_eq_ok_iff {index : Nat} :
    t.typeAtIndex ty index = .ok part ↔
      (∃ len, t.data? ty = some (.array part len)) ∨ (∃ lanes, t.data? ty = some (.vector part lanes)) ∨
        ∃ d body, t.data? ty = some d ∧ d.body? = some body ∧ body.fields[index]? = some part := by
  -- Only the four aggregate kinds have parts, and both kinds of structure answer with a field.
  simp only [typeAtIndex, Question.bind_eq_ok_iff, check_eq_ok_iff, Question.lift_eq_ok_iff,
    data_eq_ok_iff]
  constructor
  · rintro ⟨_, -, d, hd, h⟩
    rw [hd]
    cases d with
    | array elem len => exact .inl ⟨len, by simpa using h⟩
    | vector elem lanes => exact .inr (.inl ⟨lanes, by simpa using h⟩)
    | literal body => exact .inr (.inr ⟨_, body, rfl, rfl, fieldAt_eq_ok_iff.1 h⟩)
    | identified name body =>
      cases body with
      | none => simp at h
      | some body => exact .inr (.inr ⟨_, body, rfl, rfl, fieldAt_eq_ok_iff.1 h⟩)
    | _ => simp at h
  · -- Conversely, a type with data is of this table, so the check passes.
    rintro (⟨len, hd⟩ | ⟨lanes, hd⟩ | ⟨d, body, hd, hbody, hfield⟩)
    · exact ⟨(), ctx_of_data? hd, _, hd, rfl⟩
    · exact ⟨(), ctx_of_data? hd, _, hd, rfl⟩
    · refine ⟨(), ctx_of_data? hd, d, hd, ?_⟩
      cases d with
      | literal body' =>
        cases hbody
        exact fieldAt_eq_ok_iff.2 hfield
      | identified name body' =>
        cases hbody
        exact fieldAt_eq_ok_iff.2 hfield
      | _ => cases hbody

end TypeTable

namespace Context

variable {c c' : Context} {ty part target : Ty} {i : Value} {is : List Value}

/-- The value is a pointer to the type `source` in the address space `space`. -/
def PointsTo (c : Context) (ptr : Value) (source : Ty) (space : Nat) : Prop :=
  ∃ ty, c.typeOf ptr = .ok ty ∧ c.types.data ty = .ok (.pointer source space)

/-- The value is an integer, and not a vector of them. -/
def IsInteger (c : Context) (v : Value) : Prop :=
  ∃ ty bits, c.typeOf v = .ok ty ∧ c.types.data ty = .ok (.integer bits)

/-- An index leads from one type into another. -/
inductive Enters (c : Context) (ty : Ty) (i : Value) : Ty → Prop
  /-- Into a field of a struct with a body: the index is a constant that numbers the field. -/
  | field {d : TypeData} {body : StructBody} {k : IntConstant} {part : Ty}
    (data : c.types.data ty = .ok d) (struct : d.body? = some body)
    (constant : c.kindOf i = .ok (.constant (.int k))) (field : body.fields[k.zext]? = some part) :
    Enters c ty i part
  /-- Into the elements of an array. -/
  | array {elem : Ty} {len : Nat} (data : c.types.data ty = .ok (.array elem len)) :
    Enters c ty i elem
  /-- Into the elements of a vector. -/
  | vector {elem : Ty} {lanes : Nat} (data : c.types.data ty = .ok (.vector elem lanes)) :
    Enters c ty i elem

/-- Indices lead from one type into another, one step after the other. -/
inductive Walks (c : Context) : Ty → List Value → Ty → Prop
  | done {ty : Ty} : Walks c ty [] ty
  | step {ty part target : Ty} {i : Value} {is : List Value} (first : c.Enters ty i part)
    (rest : Walks c part is target) : Walks c ty (i :: is) target

/-- Index lists that have the same constants where they step into a struct. -/
inductive SameFields (c : Context) : Ty → List Value → List Value → Prop
  | nil {ty : Ty} : SameFields c ty [] []
  | cons {ty : Ty} {i j : Value} {is js : List Value}
    (constant : c.types.kind ty = .ok .struct → c.kindOf i = c.kindOf j)
    (rest : ∀ part, c.Enters ty i part → SameFields c part is js) :
    SameFields c ty (i :: is) (j :: js)

/-- An index of a structure is an integer constant, read as an unsigned number. -/
theorem fieldIndex_eq_ok_iff {index : Nat} :
    c.fieldIndex i = .ok index ↔ ∃ k, c.kindOf i = .ok (.constant (.int k)) ∧ k.zext = index := by
  simp only [fieldIndex, Question.bind_eq_ok_iff, Question.lift_eq_ok_iff]
  constructor
  · rintro ⟨kind, hk, h⟩
    split at h
    · exact ⟨_, hk, by simpa using h⟩
    · simp at h
  · rintro ⟨k, hk, rfl⟩
    exact ⟨_, hk, rfl⟩

/-- A struct is described by nothing else. -/
theorem kind_eq_struct_of_body {d : TypeData} {body : StructBody} (h : d.body? = some body) :
    d.kind = .struct := by
  cases d <;> first | rfl | cases h

/-- The field that a step looks at: the index tells it in structs, and elsewhere it does not matter.
-/
theorem enters_iff :
    c.Enters ty i part ↔ ∃ kind, c.types.kind ty = .ok kind ∧
      ∃ field, (kind = .struct → c.fieldIndex i = .ok field) ∧ (kind ≠ .struct → field = 0) ∧
        c.types.typeAtIndex ty field = .ok part := by
  -- One step of the walk reads a field number for a structure only; arrays and vectors ask for part
  -- 0, whatever the index.
  constructor
  · intro h
    cases h with
    | @field d body k _ data struct constant hf =>
      rw [TypeTable.data_eq_ok_iff] at data
      have hk := kind_eq_struct_of_body struct
      exact ⟨d.kind, TypeTable.kind_eq_ok_iff.2 ⟨d, data, rfl⟩, k.zext,
        fun _ => fieldIndex_eq_ok_iff.2 ⟨k, constant, rfl⟩, fun hne => absurd hk hne,
        TypeTable.typeAtIndex_eq_ok_iff.2 (.inr (.inr ⟨d, body, data, struct, hf⟩))⟩
    | @array _ len data =>
      rw [TypeTable.data_eq_ok_iff] at data
      exact ⟨.array, TypeTable.kind_eq_ok_iff.2 ⟨_, data, rfl⟩, 0, nofun, fun _ => rfl,
        TypeTable.typeAtIndex_eq_ok_iff.2 (.inl ⟨len, data⟩)⟩
    | @vector _ lanes data =>
      rw [TypeTable.data_eq_ok_iff] at data
      exact ⟨.vector, TypeTable.kind_eq_ok_iff.2 ⟨_, data, rfl⟩, 0, nofun, fun _ => rfl,
        TypeTable.typeAtIndex_eq_ok_iff.2 (.inr (.inl ⟨lanes, data⟩))⟩
  · rintro ⟨kind, hkind, field, hfield, -, hpart⟩
    obtain ⟨d, hd, rfl⟩ := TypeTable.kind_eq_ok_iff.1 hkind
    rcases TypeTable.typeAtIndex_eq_ok_iff.1 hpart with ⟨len, hd'⟩ | ⟨lanes, hd'⟩ |
      ⟨d', body, hd', struct, hf⟩
    · exact .array (TypeTable.data_eq_ok_iff.2 hd')
    · exact .vector (TypeTable.data_eq_ok_iff.2 hd')
    · rw [hd] at hd'
      cases hd'
      obtain ⟨k, hk, rfl⟩ := fieldIndex_eq_ok_iff.1 (hfield (kind_eq_struct_of_body struct))
      exact .field (TypeTable.data_eq_ok_iff.2 hd) struct hk hf

/-! ## Walks -/

/-- The walk over one more index is one step into a part and the walk inside that part. -/
theorem walk_cons_eq_ok_iff :
    c.walk ty (i :: is) = .ok target ↔ ∃ part, c.Enters ty i part ∧ c.walk part is = .ok target := by
  simp only [enters_iff, walk, Question.bind_eq_ok_iff, Question.lift_eq_ok_iff]
  -- The code asks for a field of a structure and not otherwise; `enters_iff` has both cases in one.
  constructor
  · rintro ⟨kind, hkind, h⟩
    split at h
    · rename_i struct
      obtain ⟨field, hfield, part, hpart, rest⟩ := by simpa only [Question.bind_eq_ok_iff] using h
      exact ⟨part, ⟨kind, hkind, field, fun _ => hfield, fun hne => absurd struct hne, hpart⟩, rest⟩
    · rename_i other
      obtain ⟨_, rfl, part, hpart, rest⟩ := by
        simpa only [Question.bind_eq_ok_iff, Question.pure_eq_ok_iff] using h
      exact ⟨part, ⟨kind, hkind, 0, fun struct => absurd struct other, fun _ => rfl, hpart⟩, rest⟩
  · -- Whether the kind is a structure is asked again, and decides which of the two facts is used.
    rintro ⟨part, ⟨kind, hkind, field, struct, other, hpart⟩, rest⟩
    refine ⟨kind, hkind, ?_⟩
    split
    · rename_i hk
      simp only [Question.bind_eq_ok_iff]
      exact ⟨field, struct hk, part, hpart, rest⟩
    · rename_i hk
      rw [other hk] at hpart
      simp only [Question.bind_eq_ok_iff]
      exact ⟨0, rfl, part, hpart, rest⟩

/-- The walk succeeds exactly when the relation `Walks` leads to its answer. -/
theorem walk_eq_ok_iff : c.walk ty is = .ok target ↔ c.Walks ty is target := by
  -- On the indices, with the type they are applied to left free.
  induction is generalizing ty with
  | nil =>
    constructor
    · intro h
      cases h
      exact .done
    · rintro ⟨⟩
      rfl
  | cons i is ih =>
    rw [walk_cons_eq_ok_iff]
    constructor
    · rintro ⟨part, first, rest⟩
      exact .step first (ih.1 rest)
    · rintro (_ | ⟨first, rest⟩)
      exact ⟨_, first, ih.2 rest⟩

/-- A walk leads to one type. -/
theorem Walks.unique {target' : Ty} (h : c.Walks ty is target) (h' : c.Walks ty is target') :
    target = target' := by
  have walked := walk_eq_ok_iff.2 h'
  rw [walk_eq_ok_iff.2 h] at walked
  exact Except.ok.inj walked

/-- What a step leads to is first-class. -/
theorem Enters.isFirstClass (hs : c.Sound) (h : c.Enters ty i part) :
    c.types.PartFits (·.isFirstClass) part := by
  -- Each part rule of the type table makes the part first-class, a lane by being a scalar.
  cases h with
  | @field d body k _ data struct constant hf =>
    have admits := hs.types.admits (TypeTable.data_eq_ok_iff.1 data)
    have mem := List.mem_of_getElem? hf
    cases d with
    | literal body' =>
      cases struct
      exact admits part mem
    | identified name body' =>
      cases struct
      exact admits part mem
    | _ => cases struct
  | array data => exact hs.types.admits (TypeTable.data_eq_ok_iff.1 data)
  | vector data =>
    obtain ⟨d, hd, hlane⟩ := (hs.types.admits (TypeTable.data_eq_ok_iff.1 data)).2
    exact ⟨d, hd, TypeKind.isFirstClass_of_canBeLane hlane⟩

/-- A walk from a type that can be pointed to leads to another. -/
theorem Walks.canBePointee (hs : c.Sound) (h : c.Walks ty is target)
    (start : c.types.PartFits (·.canBePointee) ty) : c.types.PartFits (·.canBePointee) target := by
  induction h with
  | done => exact start
  | step first _ ih =>
    obtain ⟨d, hd, hclass⟩ := first.isFirstClass hs
    exact ih ⟨d, hd, TypeKind.canBePointee_of_isFirstClass hclass⟩

/-- A step depends on the index in structs only. -/
theorem Enters.congr {j : Value} (h : c.Enters ty i part)
    (same : c.types.kind ty = .ok .struct → c.kindOf i = c.kindOf j) : c.Enters ty j part := by
  cases h with
  | @field d body k _ data struct constant hf =>
    have kind := TypeTable.kind_eq_ok_iff.2
      ⟨d, TypeTable.data_eq_ok_iff.1 data, kind_eq_struct_of_body struct⟩
    exact .field data struct ((same kind).symm.trans constant) hf
  | array data => exact .array data
  | vector data => exact .vector data

/-- A walk depends on the constants at structs only. -/
theorem Walks.congr {js : List Value} (h : c.Walks ty is target) (same : c.SameFields ty is js) :
    c.Walks ty js target := by
  induction same generalizing target with
  | nil => exact h
  | cons constant _ ih =>
    obtain _ | ⟨first, rest⟩ := h
    exact .step (first.congr constant) (ih _ first rest)

/-! ## The factory -/

/-- The parts of a pointer are read exactly when `PointsTo` relates them to it. -/
theorem pointerParts_eq_ok_iff {op : Opcode} {ptr : Value} {source : Ty} {space : Nat} :
    c.pointerParts op ptr = .ok (source, space) ↔ c.PointsTo ptr source space := by
  simp only [pointerParts, PointsTo, Question.bind_eq_ok_iff, Question.lift_eq_ok_iff]
  constructor
  · rintro ⟨ty, hty, d, hd, h⟩
    cases d with
    | pointer pointee space' =>
      cases h
      exact ⟨ty, hty, hd⟩
    | _ => simp at h
  · rintro ⟨ty, hty, hd⟩
    exact ⟨ty, hty, _, hd, rfl⟩

/-- The check of the indices passes exactly when each of them is an integer. -/
theorem checkIndices_eq_ok_iff {indices : List Value} {a : Unit} :
    c.checkIndices indices = .ok a ↔ ∀ i ∈ indices, c.IsInteger i := by
  simp only [checkIndices, List.forM_eq_forM, Question.forM_eq_ok_iff, checkIndex, IsInteger,
    Question.bind_eq_ok_iff, Question.lift_eq_ok_iff, Question.guard_last_eq_ok_iff,
    TypeTable.kind_eq_ok_iff, TypeTable.data_eq_ok_iff]
  refine forall₂_congr fun i _ => ⟨?_, ?_⟩
  · rintro ⟨ty, hty, _, ⟨d, hd, rfl⟩, hint, -⟩
    cases d with
    | integer bits => exact ⟨ty, bits, hty, hd⟩
    | _ => cases hint
  · rintro ⟨ty, bits, hty, hd⟩
    exact ⟨ty, hty, _, ⟨_, hd, rfl⟩, rfl, rfl⟩

/-- The check of several operands passes exactly when all of them are alive. -/
theorem checkAll_eq_ok_iff {vs : List Value} {a : Unit} :
    c.checkAll vs = .ok a ↔ ∀ v ∈ vs, v ∈ c.graph.live := by
  simp only [checkAll, List.forM_eq_forM, Question.forM_eq_ok_iff, check_eq_ok_iff,
    Graph.mem_live]

/-- What the factory does, from the checks to the instruction. -/
theorem buildElementPtr_eq_ok_iff {site : Site} {ptr : Value} {indices : List Value}
    {inbounds : Bool} {h : Handle .elementPtr} :
    buildElementPtr site ptr indices inbounds c = .ok h c' ↔
      (∀ v ∈ ptr :: indices, v ∈ c.graph.live) ∧ ∃ source space, c.PointsTo ptr source space ∧
        indices ≠ [] ∧ (∀ i ∈ indices, c.IsInteger i) ∧ ∃ target,
          c.Walks source indices.tail target ∧ c.checkPoint site.point = .ok () ∧ ∃ ty types,
            TypeTable.pointerType target space c.types = .ok ty types ∧
            emit site ty (.elementPtr source inbounds) ((ptr :: indices).map some)
              { c with types } = .ok h c' := by
  simp only [buildElementPtr, Run.bind_eq_ok_iff, Run.get_apply, Run.question_eq_ok_iff,
    checkAll_eq_ok_iff]
  -- The steps are read off in the order they are made; the empty list of indices is the one branch
  -- that rejects.
  constructor
  · rintro ⟨_, _, h₀, _, _, ⟨alive, rfl⟩, ⟨source, space⟩, _, ⟨parts, rfl⟩, run⟩
    cases h₀
    refine ⟨alive, source, space, pointerParts_eq_ok_iff.1 parts, ?_⟩
    dsimp only at run
    split at run
    · cases run
    · rename_i nonempty
      simp only [Run.bind_eq_ok_iff, Run.question_eq_ok_iff, checkIndices_eq_ok_iff,
        walk_eq_ok_iff] at run
      obtain ⟨_, _, ⟨integers, rfl⟩, target, _, ⟨walks, rfl⟩, _, _, ⟨point, rfl⟩, ty, _, asked,
        emitted⟩ := run
      obtain ⟨types, granted, rfl⟩ := onTypes_ok asked
      exact ⟨by simpa using nonempty, integers, target, walks, point, ty, types, granted, emitted⟩
  · rintro ⟨alive, source, space, points, nonempty, integers, target, walks, point, ty, types, asked,
      emitted⟩
    refine ⟨c, c, rfl, (), c, ⟨alive, rfl⟩, (source, space), c,
      ⟨pointerParts_eq_ok_iff.2 points, rfl⟩, ?_⟩
    dsimp only
    rw [if_neg (by simpa using nonempty)]
    simp only [Run.bind_eq_ok_iff, Run.question_eq_ok_iff, checkIndices_eq_ok_iff, walk_eq_ok_iff]
    exact ⟨(), c, ⟨integers, rfl⟩, target, c, ⟨walks, rfl⟩, (), c, ⟨point, rfl⟩, ty,
      { c with types }, Run.on_eq_ok_iff.2 ⟨types, asked, rfl⟩, emitted⟩

/-- What a pointer of a sound context points to can be pointed to. -/
theorem PointsTo.canBePointee (hs : c.Sound) {ptr : Value} {source : Ty} {space : Nat}
    (h : c.PointsTo ptr source space) : c.types.PartFits (·.canBePointee) source := by
  obtain ⟨ty, -, hd⟩ := h
  exact hs.types.admits (TypeTable.data_eq_ok_iff.1 hd)

/-- A value points to one type in one address space. -/
theorem PointsTo.unique {ptr : Value} {source source' : Ty} {space space' : Nat}
    (h : c.PointsTo ptr source space) (h' : c.PointsTo ptr source' space') :
    source = source' ∧ space = space' := by
  obtain ⟨ty, hty, hd⟩ := h
  obtain ⟨ty', hty', hd'⟩ := h'
  rw [hty] at hty'
  cases hty'
  rw [hd] at hd'
  cases hd'
  exact ⟨rfl, rfl⟩

/-- After a walk the pointer type that is asked for is granted. -/
theorem Walks.pointerType (hs : c.Sound) {ptr : Value} {source : Ty} {space : Nat}
    (points : c.PointsTo ptr source space) (walks : c.Walks source is target) :
    ∃ ty types, TypeTable.pointerType target space c.types = .ok ty types := by
  have admits := walks.canBePointee hs (points.canBePointee hs)
  exact ⟨_, _, (TypeTable.pointerType_gets target space).eq_ok_iff.2 ⟨admits, rfl⟩⟩

/-- The request succeeds exactly when the instruction is built, and answers with it. -/
theorem run_elementPtr_eq_ok_iff {site : Site} {ptr : Value} {indices : List Value}
    {inbounds : Bool} {a : Answer} :
    (Request.elementPtr site ptr indices inbounds).run c = .ok a c' ↔
      ∃ i, a = .value i.value ∧ buildElementPtr site ptr indices inbounds c = .ok i c' := by
  constructor
  · exact Request.valued_eq_ok
  · rintro ⟨i, rfl, built⟩
    exact Run.bind_eq_ok_iff.2 ⟨i, c', built, rfl⟩

/-- The request at a valid point, with live values. -/
theorem run_elementPtr_answered (hs : c.Sound) (ht : c.Tidy) {site : Site} {ptr : Value}
    {indices : List Value} {inbounds : Bool} {source : Ty} {space : Nat}
    (alive : ∀ v ∈ ptr :: indices, v ∈ c.graph.live) (valid : site.point.Valid c)
    (points : c.PointsTo ptr source space) (nonempty : indices ≠ [])
    (integers : ∀ i ∈ indices, c.IsInteger i) (walks : c.Walks source indices.tail target) :
    ∃ v c', (Request.elementPtr site ptr indices inbounds).run c = .ok (.value v) c' := by
  obtain ⟨ty, types, asked⟩ := walks.pointerType hs points
  -- The new type changes nothing about the place and the operands.
  have chain : Relation.ReflTransGen Supply c { c with types } :=
    pointerType_supply ty _ (Run.on_eq_ok_iff.2 ⟨types, asked, rfl⟩)
  have operands : ∀ o ∈ (ptr :: indices).map some, ∀ v ∈ o, ∃ d, c.graph.value? v = some d := by
    intro o ho v hv
    obtain ⟨w, hw, rfl⟩ := List.mem_map.1 ho
    cases hv
    exact Graph.mem_live.1 (alive v hw)
  obtain ⟨i, c', emitted⟩ : ∃ (i : Handle .elementPtr) (c' : Context),
      emit site ty (.elementPtr source inbounds) ((ptr :: indices).map some) { c with types } =
        .ok i c' :=
    emit_answered (hs.supplies chain) (ht.supplies chain) (valid_withTypes valid)
      (.inr (pointerType_ne_void hs asked).2.2) operands
  refine ⟨i.value, c', run_elementPtr_eq_ok_iff.2 ⟨i, rfl, buildElementPtr_eq_ok_iff.2 ?_⟩⟩
  exact ⟨alive, source, space, points, nonempty, integers, target, walks,
    checkPoint_of_valid hs valid, ty, types, asked, emitted⟩

/-- What the request answers with. -/
theorem run_elementPtr_built (hs : c.Sound) {site : Site} {ptr : Value} {indices : List Value}
    {inbounds : Bool} {a : Answer}
    (run : (Request.elementPtr site ptr indices inbounds).run c = .ok a c') :
    ∃ v source space target ty types, a = .value v ∧ c.PointsTo ptr source space ∧
      c.Walks source indices.tail target ∧
      TypeTable.pointerType target space c.types = .ok ty types ∧ c'.types = types ∧
      c'.typeOf v = .ok ty ∧ c'.kindOf v = .ok (.instruction (.elementPtr source inbounds)) ∧
      c'.operands v = .ok ((ptr :: indices).map some) := by
  have hs' : c'.Sound := hs.of_chain (Request.run_steps hs _ _ _ run)
  obtain ⟨i, rfl, built⟩ := run_elementPtr_eq_ok_iff.1 run
  obtain ⟨-, source, space, points, -, -, target, walks, -, ty, types, asked, emitted⟩ :=
    buildElementPtr_eq_ok_iff.1 built
  have chain : Relation.ReflTransGen Supply c { c with types } :=
    pointerType_supply ty _ (Run.on_eq_ok_iff.2 ⟨types, asked, rfl⟩)
  obtain ⟨same, typed, kind, operands⟩ := emit_data (hs.supplies chain) hs' emitted
  exact ⟨i.value, source, space, target, ty, types, rfl, points, walks, asked, same, typed, kind,
    operands⟩

/-! ## What can be relied on -/

/-- Address computations are typed by walks. -/
structure Addresses (c : Context) : Prop where
  /-- At a valid point the request succeeds exactly when the value is a pointer, there is an index,
all indices are integers, and those after the first walk from what the pointer points to. -/
  succeeds : ∀ {site : Site} {ptr : Value} {indices : List Value} {inbounds : Bool},
    ptr ∈ c.graph.live → (∀ i ∈ indices, i ∈ c.graph.live) → site.point.Valid c →
    ((∃ a c', (Request.elementPtr site ptr indices inbounds).run c = .ok a c') ↔
      ∃ source space target, c.PointsTo ptr source space ∧ indices ≠ [] ∧
        (∀ i ∈ indices, c.IsInteger i) ∧ c.Walks source indices.tail target)
  /-- The answer is an instruction whose type is the pointer type, in the same address space, to what
  the walk leads to: the one type that a request for it answers with. It records what the pointer
  points to and the mark it was given, and its operands are the pointer and the indices. -/
  built : ∀ {site : Site} {ptr : Value} {indices : List Value} {inbounds : Bool} {a : Answer}
    {c' : Context}, (Request.elementPtr site ptr indices inbounds).run c = .ok a c' →
    ∃ v source space target ty, a = .value v ∧ c.PointsTo ptr source space ∧
      c.Walks source indices.tail target ∧ c'.typeOf v = .ok ty ∧
      c'.types.data ty = .ok (.pointer target space) ∧
      (∃ c₁, (Request.pointerType target space).run c = .ok (.type ty) c₁) ∧
      (Request.pointerType target space).run c' = .ok (.type ty) c' ∧
      c'.isa .elementPtr v = .ok true ∧ c'.sourceType ⟨v⟩ = .ok source ∧
      c'.isInbounds ⟨v⟩ = .ok inbounds ∧ c'.operands v = .ok ((ptr :: indices).map some)
  /-- The pointer type to what a walk leads to is never refused. -/
  granted : ∀ {ptr source space is target}, c.PointsTo ptr source space →
    c.Walks source is target → ∃ ty c', (Request.pointerType target space).run c = .ok (.type ty) c'
  /-- The type of the answer depends only on the type of the pointer and on the constants at the
structs that are stepped into: with the same ones another request at a valid point, whose indices
are integers too, succeeds and answers with a value of the same type. -/
  determined : ∀ {site site' : Site} {ptr ptr' : Value} {indices indices' : List Value}
    {inbounds inbounds' : Bool} {v : Value} {c' : Context} {source : Ty} {space : Nat},
    (Request.elementPtr site ptr indices inbounds).run c = .ok (.value v) c' →
    c.PointsTo ptr source space → c.SameFields source indices.tail indices'.tail →
    c.typeOf ptr' = c.typeOf ptr → ptr' ∈ c.graph.live → indices' ≠ [] →
    (∀ i ∈ indices', i ∈ c.graph.live ∧ c.IsInteger i) → site'.point.Valid c →
    ∃ v' c'', (Request.elementPtr site' ptr' indices' inbounds').run c = .ok (.value v') c'' ∧
      c''.typeOf v' = c'.typeOf v

/-- In every context that a history leads to, address computations are typed by walks. -/
theorem Reachable.addresses_typed (hc : c.Reachable) : c.Addresses := by
  have hs := hc.sound
  have ht := hc.tidy
  have gets := fun target space => TypeTable.pointerType_gets target space
  constructor
  case succeeds =>
    -- What the instruction asks for and what the relation says are the same conditions, read in
    -- both directions.
    intro site ptr indices inbounds hptr hindices valid
    constructor
    · rintro ⟨a, c', run⟩
      obtain ⟨i, -, built⟩ := run_elementPtr_eq_ok_iff.1 run
      obtain ⟨-, source, space, points, nonempty, integers, target, walks, -⟩ :=
        buildElementPtr_eq_ok_iff.1 built
      exact ⟨source, space, target, points, nonempty, integers, walks⟩
    · rintro ⟨source, space, target, points, nonempty, integers, walks⟩
      have alive := List.forall_mem_cons.2 ⟨hptr, hindices⟩
      obtain ⟨v, c', run⟩ :=
        run_elementPtr_answered hs ht alive valid points nonempty integers walks
      exact ⟨_, c', run⟩
  case built =>
    intro site ptr indices inbounds a c' run
    have hc' : c'.Reachable := .answered hc trivial run
    obtain ⟨v, source, space, target, ty, types, rfl, points, walks, asked, rfl, typed, kind,
      operands⟩ := run_elementPtr_built hs run
    have data := (gets target space).data? hs.types asked
    -- The type is in the table by now, so asking for it again creates nothing.
    have again : TypeTable.pointerType target space c'.types = .ok ty c'.types :=
      (gets target space).eq_ok_iff.2
        ⟨hc'.sound.types.admits data, TypeTable.intern_of_mem hc'.sound.types rfl data⟩
    refine ⟨v, source, space, target, ty, rfl, points, walks, typed,
      TypeTable.data_eq_ok_iff.2 data, ⟨_, Request.typed_eq_ok_iff.2 ⟨ty, _, asked, rfl, rfl⟩⟩,
      Request.typed_eq_ok_iff.2 ⟨ty, _, again, rfl, rfl⟩, ?_, ?_, ?_, operands⟩
    · simp [isa, kind, Class.contains, ValueKind.hasOpcode, ValueKind.opcode?, Operation.opcode]
    · simp [sourceType, operation, Handle.toInstruction, kind]
    · simp [isInbounds, operation, Handle.toInstruction, kind]
  case granted =>
    intro ptr source space is target points walks
    obtain ⟨ty, types, asked⟩ := walks.pointerType hs points
    exact ⟨ty, _, Request.typed_eq_ok_iff.2 ⟨ty, types, asked, rfl, rfl⟩⟩
  case determined =>
    intro site site' ptr ptr' indices indices' inbounds inbounds' v c' source space run points same
      hty hptr' nonempty indices_ok valid
    -- The second request has the same constants where a structure is entered, so it walks to the
    -- same target.
    obtain ⟨_, source₁, space₁, target, ty, types, hv, points₁, walks, asked, -, typed, -⟩ :=
      run_elementPtr_built hs run
    cases hv
    obtain ⟨rfl, rfl⟩ := points.unique points₁
    have points' : c.PointsTo ptr' source space := by rwa [PointsTo, hty]
    have alive := List.forall_mem_cons.2 ⟨hptr', fun i hi => (indices_ok i hi).1⟩
    obtain ⟨v', c'', run'⟩ := run_elementPtr_answered hs ht alive valid points' nonempty
      (fun i hi => (indices_ok i hi).2) (walks.congr same)
    refine ⟨v', c'', run', ?_⟩
    -- Both ask the same table for the same pointer type.
    obtain ⟨_, source₂, space₂, target₂, ty', types', hv, points₂, walks', asked', -, typed', -⟩ :=
      run_elementPtr_built hs run'
    cases hv
    obtain ⟨rfl, rfl⟩ := points'.unique points₂
    obtain rfl := (walks.congr same).unique walks'
    rw [asked] at asked'
    cases asked'
    rw [typed, typed']

/-- For instance, when the second index numbers the field of a struct that contains pointers to
itself. -/
theorem addresses_typed_in_recursive_struct : ∃ c : Context,
    replay [.createStruct (some "node"), .pointerType ⟨⟨1⟩, 11⟩ 3,
      .setStructBody ⟨⟨1⟩, 11⟩ [⟨⟨1⟩, 9⟩, ⟨⟨1⟩, 12⟩] false,
      .functionType ⟨⟨1⟩, 0⟩ [⟨⟨1⟩, 12⟩] false, .newFunction "f" ⟨⟨1⟩, 13⟩,
      .constInt ⟨⟨1⟩, 9⟩ 1] (.initial ⟨1⟩) = some c ∧
    c.walk ⟨⟨1⟩, 11⟩ [⟨⟨1⟩, 2⟩] = .ok ⟨⟨1⟩, 12⟩ ∧ c.Addresses :=
  exists_replay _ _ (by decide +kernel) fun c hc _ =>
    Reachable.addresses_typed (hc.mono fun _ _ _ => trivial)

end Context

end SsaGraph
