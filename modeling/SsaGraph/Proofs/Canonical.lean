import SsaGraph.Proofs.History

/-!
# Types are canonical

A type that is not an identified struct is what its description says, and there is one for each
description. `Canonical` puts this in terms of the requests for types, at any time of any history:
the answer has the description that was asked for, the table grows if the description is new and
not otherwise, and two requests have the same answer exactly when they are the same, however much
happens between them.

The answer to the earlier request still has its description when the later one is made, because an
entry that is not nominal never changes (`GrowsTo.structural`); and then the table of that time, in
which descriptions are unique, has only one type that the later request can answer with.
-/

namespace SsaGraph

namespace TypeTable

/-- A description that is in the table is not entered again. -/
theorem size_intern_of_mem {t : TypeTable} (hw : t.WellFormed) {d : TypeData} {ty : Ty}
    (structural : d.isNominal = false) (h : t.data? ty = some d) :
    (t.intern d).2.size = t.size := by
  unfold intern
  cases hf : t.find? d with
  | some _ => rfl
  | none => exact absurd h ((hw.find?_eq_none_iff structural).1 hf ty)

/-- The type that has a description is the answer to a request for it. -/
theorem intern_of_mem {t : TypeTable} (hw : t.WellFormed) {d : TypeData} {ty : Ty}
    (structural : d.isNominal = false) (h : t.data? ty = some d) : t.intern d = (ty, t) := by
  rw [intern, find?, hw.known.2 ⟨h, structural⟩]

/-- A description that is not in the table is entered once. -/
theorem size_intern_of_new {t : TypeTable} (hw : t.WellFormed) {d : TypeData}
    (structural : d.isNominal = false) (h : ∀ ty, t.data? ty ≠ some d) :
    (t.intern d).2.size = t.size + 1 := by
  rw [intern, (hw.find?_eq_none_iff structural).2 h]
  exact (push_growsTo t d).2

end TypeTable

namespace Request

/-- The description that a request for a type asks for. -/
def description? : Request → Option TypeData
  | integerType bits => some (.integer bits)
  | functionType result params varArg => some (.function result params varArg)
  | pointerType pointee space => some (.pointer pointee space)
  | arrayType elem len => some (.array elem len)
  | vectorType elem lanes => some (.vector elem lanes)
  | literalStruct fields packed => some (.literal ⟨fields, packed⟩)
  | _ => none

variable {r r' : Request} {d : TypeData}

/-- A request for the type table changes nothing else. -/
theorem typed_eq_ok_iff {m : Run TypeTable Ty} {c c' : Context} {a : Answer} :
    typed m c = .ok a c' ↔
      ∃ ty types, m c.types = .ok ty types ∧ a = .type ty ∧ c' = { c with types } := by
  simp only [typed, Run.bind_eq_ok_iff]
  constructor
  · rintro ⟨ty, c₁, asked, h⟩
    obtain ⟨types, run, rfl⟩ := Context.onTypes_ok asked
    cases h
    exact ⟨ty, types, run, rfl, rfl⟩
  · rintro ⟨ty, types, run, rfl, rfl⟩
    exact ⟨ty, { c with types }, Run.on_eq_ok_iff.2 ⟨types, run, rfl⟩, rfl⟩

/-- A request with a description is one for the type that has it. -/
theorem run_gets (h : r.description? = some d) :
    ∃ m, r.run = typed m ∧ TypeTable.Gets m d ∧ d.isNominal = false := by
  -- The requests with a description are those for structural types, and each gets what it
  -- describes.
  cases r with
  | integerType bits =>
    cases h
    exact ⟨_, rfl, TypeTable.integerType_gets bits, rfl⟩
  | functionType result params varArg =>
    cases h
    exact ⟨_, rfl, TypeTable.functionType_gets result params varArg, rfl⟩
  | pointerType pointee space =>
    cases h
    exact ⟨_, rfl, TypeTable.pointerType_gets pointee space, rfl⟩
  | arrayType elem len =>
    cases h
    exact ⟨_, rfl, TypeTable.arrayType_gets elem len, rfl⟩
  | vectorType elem lanes =>
    cases h
    exact ⟨_, rfl, TypeTable.vectorType_gets elem lanes, rfl⟩
  | literalStruct fields packed =>
    cases h
    exact ⟨_, rfl, TypeTable.literalStruct_gets fields packed, rfl⟩
  | _ => cases h

/-- The description determines the request. -/
theorem eq_of_description? (h : r.description? = some d) (h' : r'.description? = some d) :
    r = r' := by
  cases r with
  | integerType | functionType | pointerType | arrayType | vectorType | literalStruct =>
    cases h
    cases r' <;> cases h'
    rfl
  | _ => cases h

/-- What an answered request for a type says and does. -/
theorem run_description {c c' : Context} {a : Answer} (hs : c.Sound) (h : r.description? = some d)
    (run : r.run c = .ok a c') :
    ∃ ty, a = .type ty ∧ d.isNominal = false ∧ c'.types.data? ty = some d ∧
      c'.types.size = (c.types.intern d).2.size := by
  obtain ⟨m, hm, gets, structural⟩ := run_gets h
  simp only [hm, typed, Run.bind_eq_ok_iff] at run
  obtain ⟨ty, c₁, ht, ha⟩ := run
  obtain ⟨types, hmt, rfl⟩ := Context.onTypes_ok ht
  cases ha
  exact ⟨ty, rfl, structural, gets.data? hs.types hmt, by rw [(gets.eq_ok_iff.1 hmt).2]⟩

end Request

namespace Context

variable {c c' : Context}

/-- The types of a context are canonical, now and from now on. -/
structure Canonical (c : Context) : Prop where
  /-- Different types have different descriptions, unless they are identified structs. -/
  unique : ∀ {ty ty' : Ty} {d : TypeData}, c.types.data ty = .ok d → c.types.data ty' = .ok d →
    d.isNominal = false → ty = ty'
  /-- The answer to a request has the description that was asked for. -/
  answer : ∀ {r : Request} {d : TypeData} {a : Answer} {c' : Context}, r.description? = some d →
    r.run c = .ok a c' → ∃ ty, a = .type ty ∧ c'.types.data ty = .ok d
  /-- A description that is in the table is not entered again. -/
  present : ∀ {r : Request} {d : TypeData} {a : Answer} {c' : Context} {ty : Ty},
    r.description? = some d → r.run c = .ok a c' → c.types.data ty = .ok d →
    c'.types.size = c.types.size
  /-- A description that is not in the table is entered once. -/
  absent : ∀ {r : Request} {d : TypeData} {a : Answer} {c' : Context}, r.description? = some d →
    r.run c = .ok a c' → (∀ ty, c.types.data ty ≠ .ok d) → c'.types.size = c.types.size + 1
  /-- Two requests have the same answer exactly when they are the same. -/
  same : ∀ {r s : Request} {d d' : TypeData} {a a' : Answer} {c₁ c₂ c₃ : Context},
    r.description? = some d → s.description? = some d' → r.run c = .ok a c₁ → c₁.Later c₂ →
    s.run c₂ = .ok a' c₃ → (a = a' ↔ r = s)

/-- In every context that a history leads to, types are canonical. -/
theorem Reachable.types_canonical (hc : c.Reachable) : c.Canonical := by
  -- In turn: uniqueness, the data of the answer, growth by nothing or by one, and equality at two
  -- times.
  constructor
  · intro ty ty' d h h'
    rw [TypeTable.data_eq_ok_iff] at h h'
    exact hc.sound.types.canonical h h'
  · intro r d a c' h run
    obtain ⟨ty, rfl, -, data, -⟩ := Request.run_description hc.sound h run
    exact ⟨ty, rfl, TypeTable.data_eq_ok_iff.2 data⟩
  · intro r d a c' ty h run hd
    obtain ⟨_, rfl, structural, -, size⟩ := Request.run_description hc.sound h run
    rw [size, TypeTable.size_intern_of_mem hc.sound.types structural (TypeTable.data_eq_ok_iff.1 hd)]
  · intro r d a c' h run hnew
    obtain ⟨_, rfl, structural, -, size⟩ := Request.run_description hc.sound h run
    rw [size, TypeTable.size_intern_of_new hc.sound.types structural fun ty hd =>
      hnew ty (TypeTable.data_eq_ok_iff.2 hd)]
  · intro r s d d' a a' c₁ c₂ c₃ h h' run later run'
    obtain ⟨ty, rfl, structural, data, -⟩ := Request.run_description hc.sound h run
    have hc₁ : c₁.Reachable := .answered hc trivial run
    -- Both answers are types of the last table, with the descriptions that were asked for.
    obtain ⟨ty', rfl, -, data', -⟩ := Request.run_description (later.reachable hc₁).sound h' run'
    have hc₃ : c₃.Reachable := .answered (later.reachable hc₁) trivial run'
    have grows : c₁.types.GrowsTo c₃.types := growsTo_of_chain ((later.answered run').chain hc₁)
    replace data := grows.structural data structural
    constructor
    · rintro ⟨⟩
      rw [data] at data'
      cases data'
      exact Request.eq_of_description? h h'
    · -- Equal descriptions have equal handles in the last table, where both are present.
      rintro rfl
      rw [h] at h'
      cases h'
      rw [hc₃.sound.types.canonical data data' structural]

/-- For instance, an integer type that is asked for before and after a block is created. -/
theorem same_integer_after_newBlock : ∃ (c₁ c₂ c₃ : Context) (a b a' : Answer),
    (Request.integerType 7).run (.initial ⟨1⟩) = .ok a c₁ ∧
    (Request.newBlock none).run c₁ = .ok b c₂ ∧
    (Request.integerType 7).run c₂ = .ok a' c₃ ∧ a = a' := by
  obtain ⟨a, c₁, run₁⟩ : ∃ a c₁, (Request.integerType 7).run (.initial ⟨1⟩) = .ok a c₁ :=
    ⟨_, _, rfl⟩
  obtain ⟨b, c₂, run₂⟩ : ∃ b c₂, (Request.newBlock none).run c₁ = .ok b c₂ := ⟨_, _, rfl⟩
  obtain ⟨a', c₃, run₃⟩ : ∃ a' c₃, (Request.integerType 7).run c₂ = .ok a' c₃ := ⟨_, _, rfl⟩
  have canonical := Reachable.types_canonical (.initial ⟨1⟩)
  have same := canonical.same rfl rfl run₁ (.answered .now run₂) run₃
  exact ⟨c₁, c₂, c₃, a, b, a', run₁, run₂, run₃, same.2 rfl⟩

end Context

end SsaGraph
