import Mathlib.Data.List.Nodup
import SsaGraph.Type.Identified
import SsaGraph.Proofs.Run

/-!
# Growth of the type table

A table changes in four ways: a description is entered unless it is there, or an identified struct
is created, gets its body, or is renamed (`Change`, and `Reforms` for the last three). Whatever the
order of the changes, the table grows (`GrowsTo`): an entry stays where it is and as it is, except
that an identified struct may change its name and may get a body it did not have. And the table
stays well-formed (`WellFormed`): the primitive types are at their places, each entry is one that
its request admits, and the indexes of the table agree with its entries. The index by description
has one type for each description, so no description other than that of an identified struct is
there twice.

The three changes of a struct overwrite one entry. They are treated together: `Mends.growsTo` and
`Mends.wellFormed` are about any table that differs from another in one identified struct.
-/

namespace SsaGraph

namespace TypeData

/-- Identified structs are things of their own; every other type is its description. -/
def isNominal : TypeData → Bool
  | identified _ _ => true
  | _ => false

/-- What an entry may turn into. -/
inductive Becomes : TypeData → TypeData → Prop
  | refl (d : TypeData) : Becomes d d
  /-- An identified struct may be renamed, and keeps a body once it has one. -/
  | struct (name name' : Option String) {body body' : Option StructBody}
    (keep : body = none ∨ body' = body) : Becomes (.identified name body) (.identified name' body')

namespace Becomes

variable {a b c : TypeData}

/-- What data becomes in two steps it becomes. -/
theorem trans (h : Becomes a b) (h' : Becomes b c) : Becomes a c := by
  cases h with
  | refl => exact h'
  | struct name name' keep =>
    cases h' with
    | refl => exact .struct _ _ keep
    | struct _ name'' keep' =>
      refine .struct _ _ ?_
      rcases keep with keep | rfl
      · exact .inl keep
      · exact keep'

/-- Data keeps its kind. -/
theorem kind_eq (h : Becomes a b) : b.kind = a.kind := by
  cases h <;> rfl

/-- Data stays as it is, unless it is that of an identified struct. -/
theorem eq_of_structural (h : Becomes a b) (ha : a.isNominal = false) : b = a := by
  cases h with
  | refl => rfl
  | struct => simp [isNominal] at ha

/-- Data keeps the width of its scalar. -/
theorem scalarBits_eq (h : Becomes a b) : b.scalarBits = a.scalarBits := by
  cases h <;> rfl

/-- Data keeps its address space. -/
theorem addressSpace?_eq (h : Becomes a b) : b.addressSpace? = a.addressSpace? := by
  cases h <;> rfl

end Becomes

end TypeData

namespace TypeTable

/-! ## Questions -/

/-- A type has the data that its entry holds. -/
@[simp] theorem data_eq_ok_iff {t : TypeTable} {ty : Ty} {d : TypeData} :
    t.data ty = .ok d ↔ t.data? ty = some d := by
  unfold data data?
  split
  · split <;> simp_all
  · simp

/-- A type passes the check exactly when it belongs to the table. -/
@[simp] theorem check_eq_ok_iff {t : TypeTable} {ty : Ty} {a : Unit} :
    t.check ty = .ok a ↔ ty.ctx = t.ctx := by
  unfold check
  split <;> simp_all

/-- A type has the kind of its data. -/
theorem kind_eq_ok_iff {t : TypeTable} {ty : Ty} {k : TypeKind} :
    t.kind ty = .ok k ↔ ∃ d, t.data? ty = some d ∧ d.kind = k := by
  simp [kind]

/-- A type with an entry belongs to the table. -/
theorem ctx_of_data? {t : TypeTable} {ty : Ty} {d : TypeData} (h : t.data? ty = some d) :
    ty.ctx = t.ctx := by
  by_contra hc
  simp [data?, hc] at h

/-- A type with an entry has an index below the size of the table. -/
theorem index_lt_of_data? {t : TypeTable} {ty : Ty} {d : TypeData} (h : t.data? ty = some d) :
    ty.index < t.size := by
  rw [data?, if_pos (ctx_of_data? h)] at h
  exact (Array.getElem?_eq_some_iff.1 h).1

/-- The type is in the table. -/
def Has (t : TypeTable) (ty : Ty) : Prop := ∃ d, t.data? ty = some d

/-- A type with a kind is in the table. -/
theorem has_of_kind {t : TypeTable} {ty : Ty} {k : TypeKind} (h : t.kind ty = .ok k) : t.Has ty := by
  obtain ⟨d, hd, -⟩ := kind_eq_ok_iff.1 h
  exact ⟨d, hd⟩

/-! ## Growth -/

/-- Every type stays, as itself or, if it is an identified struct, renamed or with a body. -/
structure GrowsTo (t t' : TypeTable) : Prop where
  /-- The table belongs to the same context. -/
  ctx : t'.ctx = t.ctx
  /-- No type goes. -/
  size : t.size ≤ t'.size
  /-- An entry is what it was, or has been mended. -/
  data : ∀ {ty d}, t.data? ty = some d → ∃ d', t'.data? ty = some d' ∧ d.Becomes d'

namespace GrowsTo

variable {t t' t'' : TypeTable}

/-- A table grows to itself. -/
theorem refl (t : TypeTable) : t.GrowsTo t :=
  ⟨rfl, Nat.le_refl _, fun {_ d} h => ⟨d, h, .refl d⟩⟩

/-- Growing twice is growing. -/
theorem trans (h : t.GrowsTo t') (h' : t'.GrowsTo t'') : t.GrowsTo t'' := by
  refine ⟨h'.ctx.trans h.ctx, Nat.le_trans h.size h'.size, fun hd => ?_⟩
  obtain ⟨d', hd', b⟩ := h.data hd
  obtain ⟨d'', hd'', b'⟩ := h'.data hd'
  exact ⟨d'', hd'', b.trans b'⟩

/-- A type that is its description keeps it. -/
theorem structural (h : t.GrowsTo t') {ty : Ty} {d : TypeData} (hd : t.data? ty = some d)
    (hs : d.isNominal = false) : t'.data? ty = some d := by
  obtain ⟨d', hd', b⟩ := h.data hd
  rwa [b.eq_of_structural hs] at hd'

/-- A type has the same kind in every later table. -/
theorem kind (h : t.GrowsTo t') {ty : Ty} {k : TypeKind} (hk : t.kind ty = .ok k) :
    t'.kind ty = .ok k := by
  rw [kind_eq_ok_iff] at hk ⊢
  obtain ⟨d, hd, rfl⟩ := hk
  obtain ⟨d', hd', b⟩ := h.data hd
  exact ⟨d', hd', b.kind_eq⟩

/-- A type is in every later table. -/
theorem has (h : t.GrowsTo t') {ty : Ty} (hty : t.Has ty) : t'.Has ty := by
  obtain ⟨d, hd⟩ := hty
  obtain ⟨d', hd', -⟩ := h.data hd
  exact ⟨d', hd'⟩

end GrowsTo

/-! ## Well-formed tables -/

/-- The type is in the table and of a fitting kind. -/
def PartFits (t : TypeTable) (fits : TypeKind → Bool) (ty : Ty) : Prop :=
  ∃ d, t.data? ty = some d ∧ fits d.kind = true

/-- A part that fits is in the table. -/
theorem PartFits.has {t : TypeTable} {fits : TypeKind → Bool} {ty : Ty} (h : t.PartFits fits ty) :
    t.Has ty := by
  obtain ⟨d, hd, -⟩ := h
  exact ⟨d, hd⟩

/-- The description is one that a request for it accepts. -/
def Admits (t : TypeTable) : TypeData → Prop
  | .integer bits => minIntBits ≤ bits ∧ bits ≤ maxIntBits
  | .function ret params _ =>
    t.PartFits (·.canBeReturned) ret ∧ ∀ p ∈ params, t.PartFits (·.canBeParameter) p
  | .pointer pointee _ => t.PartFits (·.canBePointee) pointee
  | .array elem _ => t.PartFits (·.canBeArrayElement) elem
  | .vector elem lanes => 0 < lanes ∧ t.PartFits (·.canBeLane) elem
  | .literal body => ∀ field ∈ body.fields, t.PartFits (·.canBeField) field
  | .identified _ (some body) => ∀ field ∈ body.fields, t.PartFits (·.canBeField) field
  | _ => True

/-- A part that fits does so in every later table. -/
theorem PartFits.mono {t t' : TypeTable} (h : t.GrowsTo t') {fits : TypeKind → Bool} {ty : Ty}
    (hp : t.PartFits fits ty) : t'.PartFits fits ty := by
  obtain ⟨d, hd, hk⟩ := hp
  obtain ⟨d', hd', b⟩ := h.data hd
  exact ⟨d', hd', by rwa [b.kind_eq]⟩

/-- Data that is admitted is so in every later table. -/
theorem Admits.mono {t t' : TypeTable} (h : t.GrowsTo t') {d : TypeData} (hd : t.Admits d) :
    t'.Admits d := by
  unfold Admits at hd ⊢
  split <;> simp only at hd ⊢
  · exact hd
  · exact ⟨hd.1.mono h, fun p hp => (hd.2 p hp).mono h⟩
  · exact hd.mono h
  · exact hd.mono h
  · exact ⟨hd.1, hd.2.mono h⟩
  · exact fun field hf => (hd field hf).mono h
  · exact fun field hf => (hd field hf).mono h

/-- What an admitted type is made of is in the table. -/
theorem Admits.has_contained {t : TypeTable} {d : TypeData} (h : t.Admits d) :
    ∀ part ∈ d.contained, t.Has part := by
  intro part hpart
  unfold Admits at h
  unfold TypeData.contained at hpart
  -- Each rule for the parts asks for more than that they are there.
  cases d with
  | function ret params varArg =>
    rcases List.mem_cons.1 hpart with rfl | hpart
    · exact h.1.has
    · exact (h.2 part hpart).has
  | literal body => exact (h part hpart).has
  | identified name body =>
    cases body with
    | none => cases hpart
    | some body => exact (h part hpart).has
  | array elem len =>
    obtain rfl := List.mem_singleton.1 hpart
    exact h.has
  | vector elem lanes =>
    obtain rfl := List.mem_singleton.1 hpart
    exact h.2.has
  | pointer pointee space =>
    obtain rfl := List.mem_singleton.1 hpart
    exact h.has
  | _ => cases hpart

/-- What every table has. -/
structure WellFormed (t : TypeTable) : Prop where
  /-- The primitive types come first. -/
  primitive : ∀ {i d}, primitives[i]? = some d → t.data? ⟨t.ctx, i⟩ = some d
  /-- Every type is one that a request for it accepts. -/
  admits : ∀ {ty d}, t.data? ty = some d → t.Admits d
  /-- The types are known by their descriptions, identified structs apart. -/
  known : ∀ {ty d}, t.known.get? d = some ty ↔ t.data? ty = some d ∧ d.isNominal = false
  /-- A name belongs to an identified struct that has it. -/
  named : ∀ {name ty}, t.names.get? name = some ty →
    ∃ body, t.data? ty = some (.identified (some name) body)

/-- The primitive types are in every well-formed table. -/
theorem WellFormed.has_primitive {t : TypeTable} (hw : t.WellFormed) {i : Nat}
    (hi : i < primitives.size) : t.Has ⟨t.ctx, i⟩ :=
  ⟨_, hw.primitive (Array.getElem?_eq_getElem hi)⟩

/-- A description that is not nominal belongs to one type. -/
theorem WellFormed.canonical {t : TypeTable} (hw : t.WellFormed) {a b : Ty} {d : TypeData}
    (ha : t.data? a = some d) (hb : t.data? b = some d) (hs : d.isNominal = false) : a = b := by
  have hka := hw.known.2 ⟨ha, hs⟩
  rw [hw.known.2 ⟨hb, hs⟩] at hka
  exact (Option.some.inj hka).symm

/-- A description that is not nominal is not found exactly when no type has it. -/
theorem WellFormed.find?_eq_none_iff {t : TypeTable} (hw : t.WellFormed) {d : TypeData}
    (hs : d.isNominal = false) : t.find? d = none ↔ ∀ ty, t.data? ty ≠ some d := by
  rw [find?, Option.eq_none_iff_forall_ne_some]
  simp [hw.known, hs]

/-- The handle that `intern` returns has the description it was given. -/
theorem WellFormed.data?_intern {t : TypeTable} (hw : t.WellFormed) (d : TypeData) :
    (t.intern d).2.data? (t.intern d).1 = some d := by
  unfold intern
  split
  · exact (hw.known.1 ‹_›).1
  · exact (data?_push t d _).trans (if_pos rfl)

/-- A new table is well-formed. -/
theorem wellFormed_initial (ctx : ContextId) : (initial ctx).WellFormed := by
  -- The entries of a new table are the primitive types, none of which is made of others.
  have entry : ∀ {ty d}, (initial ctx).data? ty = some d →
      ty.ctx = ctx ∧ primitives[ty.index]? = some d := by
    intro ty d h
    have hc : ty.ctx = ctx := ctx_of_data? h
    exact ⟨hc, by simpa [data?, initial, hc] using h⟩
  have nodup : primitives.toList.Nodup := by decide
  constructor
  · intro i d h
    simpa [data?, initial] using h
  · intro ty d h
    have hmem : d ∈ primitives := Array.mem_iff_getElem?.2 ⟨_, (entry h).2⟩
    simp only [primitives, List.mem_toArray, List.mem_cons, List.not_mem_nil, or_false] at hmem
    rcases hmem with rfl | rfl | rfl | rfl | rfl | rfl | rfl | rfl | rfl | rfl | rfl <;>
      simp [Admits, minIntBits, maxIntBits]
  · intro ty d
    have keys : ((initial ctx).known.entries.map Prod.fst).Nodup := by
      simpa [initial, Function.comp_def] using nodup
    have structural : ∀ d ∈ primitives, d.isNominal = false := by decide
    rw [Keyed.get?_mk_eq_some_iff keys]
    simp only [initial, List.mem_map, Prod.exists, Prod.mk.injEq, List.mem_zipIdx_iff_getElem?,
      Array.getElem?_toList]
    constructor
    · rintro ⟨_, i, hi, rfl, rfl⟩
      exact ⟨by simpa [data?] using hi, structural _ (Array.mem_iff_getElem?.2 ⟨i, hi⟩)⟩
    · rintro ⟨h, -⟩
      obtain ⟨rfl, hi⟩ := entry h
      exact ⟨d, ty.index, hi, rfl, rfl⟩
  · intro name ty h
    cases h

/-- The primitive types keep their places. -/
theorem WellFormed.primitive_of_growsTo {t t' : TypeTable} (hw : t.WellFormed) (h : t.GrowsTo t')
    {i : Nat} {d : TypeData} (hd : primitives[i]? = some d) : t'.data? ⟨t'.ctx, i⟩ = some d := by
  have structural : ∀ d ∈ primitives, d.isNominal = false := by decide
  rw [h.ctx]
  exact h.structural (hw.primitive hd) (structural d (Array.mem_iff_getElem?.2 ⟨i, hd⟩))

/-! ## The four changes -/

/-- What a request does to the identified structs of a table. -/
inductive Reforms (t : TypeTable) : TypeTable → Prop
  /-- An identified struct is created. -/
  | create (name : Option String) :
    Reforms t ((t.push (.identified none none)).2.assignName (t.push (.identified none none)).1
      name none)
  /-- An identified struct gets its body. -/
  | complete {ty : Ty} {name : Option String} {body : StructBody}
    (data : t.data? ty = some (.identified name none))
    (admits : t.Admits (.identified name (some body))) :
    Reforms t (t.setData ty (.identified name (some body)))
  /-- An identified struct is renamed. -/
  | rename {ty : Ty} {old : Option String} {body : Option StructBody} (name : Option String)
    (data : t.data? ty = some (.identified old body)) :
    Reforms t ((t.releaseName old).assignName ty name body)

/-- What a request does to a table if it changes it. -/
inductive Change (t : TypeTable) : TypeTable → Prop
  /-- A description is entered unless it is there. -/
  | enter {d : TypeData} (structural : d.isNominal = false) (admits : t.Admits d) :
    Change t (t.intern d).2
  /-- An identified struct is created or mended. -/
  | reform {t' : TypeTable} (h : t.Reforms t') : Change t t'

/-- Setting the data of a type changes that entry only. -/
theorem data?_setData {t : TypeTable} {ty : Ty} {d : TypeData} (h : t.data? ty = some d)
    (d' : TypeData) (w : Ty) :
    (t.setData ty d').data? w = if w = ty then some d' else t.data? w := by
  have hlt : ty.index < t.types.size := index_lt_of_data? h
  have hc := ctx_of_data? h
  obtain ⟨c, i⟩ := ty
  obtain ⟨c', j⟩ := w
  simp only [setData, data?, Ty.mk.injEq] at hlt hc ⊢
  by_cases hj : j = i
  · subst hj
    by_cases hc' : c' = t.ctx <;> simp [hc, hc', hlt]
  · simp [hj, Ne.symm hj]

/-- Naming a struct overwrites its entry, and no other; a name that is new in the index is its. -/
theorem data?_assignName {t : TypeTable} {ty : Ty} {d : TypeData} (h : t.data? ty = some d)
    (name : Option String) (body : Option StructBody) :
    ∃ name', (∀ w, (t.assignName ty name body).data? w =
      if w = ty then some (.identified name' body) else t.data? w) ∧
      ∀ n w, (t.assignName ty name body).names.get? n = some w →
        t.names.get? n = some w ∨ w = ty ∧ name' = some n := by
  unfold assignName
  split
  · exact ⟨none, data?_setData h _, fun n w hw => .inl hw⟩
  · refine ⟨_, data?_setData h _, fun n w hw => ?_⟩
    rw [Keyed.get?_insert] at hw
    split at hw
    · subst n
      exact .inr ⟨(Option.some.inj hw).symm, rfl⟩
    · exact .inl hw

/-- Assigning a name keeps the context. -/
@[simp] theorem ctx_assignName (t : TypeTable) (ty : Ty) (name : Option String)
    (body : Option StructBody) : (t.assignName ty name body).ctx = t.ctx := by
  unfold assignName
  split <;> rfl

/-- Assigning a name keeps the index of descriptions. -/
@[simp] theorem known_assignName (t : TypeTable) (ty : Ty) (name : Option String)
    (body : Option StructBody) : (t.assignName ty name body).known = t.known := by
  unfold assignName
  split <;> rfl

/-- Assigning a name keeps the number of types. -/
@[simp] theorem size_assignName (t : TypeTable) (ty : Ty) (name : Option String)
    (body : Option StructBody) : (t.assignName ty name body).size = t.size := by
  unfold assignName
  split <;> simp [size, setData]

/-- A new entry has its description, and the table is one longer. -/
theorem push_growsTo (t : TypeTable) (d : TypeData) :
    t.GrowsTo (t.push d).2 ∧ (t.push d).2.size = t.size + 1 := by
  have hsize : (t.push d).2.size = t.size + 1 := by simp [push, size]
  refine ⟨⟨rfl, by omega, fun {ty d'} hd => ⟨d', ?_, .refl d'⟩⟩, hsize⟩
  rw [data?_push, if_neg, hd]
  rintro rfl
  have := index_lt_of_data? hd
  simp [push, size] at this

/-- Interning a type grows the table. -/
theorem intern_growsTo (t : TypeTable) (d : TypeData) : t.GrowsTo (t.intern d).2 := by
  unfold intern
  split
  · exact .refl t
  · obtain ⟨grows, -⟩ := push_growsTo t d
    exact ⟨grows.ctx, grows.size, grows.data⟩

/-- No type has the handle that the next one gets. -/
theorem data?_next (t : TypeTable) : t.data? ⟨t.ctx, t.types.size⟩ = none := by
  simp [data?]

/-- Adding an entry that is admitted to the table, and to the index unless it is nominal. -/
theorem WellFormed.push {t : TypeTable} (hw : t.WellFormed) {d : TypeData} (hd : t.Admits d)
    {known : Keyed TypeData Ty}
    (hknown : ∀ d', known.get? d' =
      if d' = d ∧ d.isNominal = false then some (t.push d).1 else t.known.get? d')
    (new : d.isNominal = false → ∀ ty, t.data? ty ≠ some d) :
    WellFormed { (t.push d).2 with known } := by
  obtain ⟨grows, -⟩ := push_growsTo t d
  have grows : t.GrowsTo { (t.push d).2 with known } := ⟨grows.ctx, grows.size, grows.data⟩
  have hpush : ∀ ty, data? { (t.push d).2 with known } ty =
      if ty = (t.push d).1 then some d else t.data? ty := data?_push t d
  -- The old types keep what they have, and the new one is known unless it is an identified struct.
  constructor
  · exact hw.primitive_of_growsTo grows
  · intro ty d' h
    rw [hpush] at h
    split at h
    · cases h
      exact hd.mono grows
    · exact (hw.admits h).mono grows
  · intro ty d'
    rw [hknown, hpush]
    by_cases hty : ty = (t.push d).1
    · subst hty
      have hold : t.known.get? d' ≠ some (t.push d).1 := by
        intro h
        have := (hw.known.1 h).1
        rw [show t.data? (t.push d).1 = none from data?_next t] at this
        cases this
      by_cases hd' : d' = d
      · subst hd'
        by_cases hs : d'.isNominal = false
        · simp [hs]
        · simp [hs, hold]
      · simp [hd', Ne.symm hd', hold]
    · by_cases hd' : d' = d ∧ d.isNominal = false
      · obtain ⟨rfl, hs⟩ := hd'
        simp [hs, hty, Ne.symm hty, new hs ty]
      · rw [if_neg hd', if_neg hty, hw.known]
  · intro name ty h
    obtain ⟨body, hb⟩ := hw.named h
    refine ⟨body, ?_⟩
    rw [hpush, if_neg, hb]
    rintro rfl
    rw [show t.data? (t.push d).1 = none from data?_next t] at hb
    cases hb

/-- Freeing a name leaves the entries and the index by description alone. -/
theorem WellFormed.releaseName {t : TypeTable} (hw : t.WellFormed) (name : Option String) :
    (t.releaseName name).WellFormed := by
  cases name with
  | none => exact hw
  | some name =>
    have grows : t.GrowsTo (t.releaseName (some name)) :=
      ⟨rfl, Nat.le_refl _, fun {_ d} h => ⟨d, h, .refl d⟩⟩
    refine ⟨hw.primitive, fun h => (hw.admits h).mono grows, hw.known, fun {n ty} h => ?_⟩
    simp only [TypeTable.releaseName, Keyed.get?_erase] at h
    split at h
    · cases h
    · exact hw.named h

section Mend

variable {t t' : TypeTable} {ty : Ty} {name name' : Option String} {body body' : Option StructBody}

/-- A table that differs from another in one identified struct, which has been mended. -/
structure Mends (t t' : TypeTable) (ty : Ty) (name name' : Option String)
    (body body' : Option StructBody) : Prop where
  /-- What the struct was. -/
  before : t.data? ty = some (.identified name body)
  /-- What the struct is, and that nothing else is different. -/
  after : ∀ w, t'.data? w = if w = ty then some (.identified name' body') else t.data? w
  /-- A body is kept. -/
  keep : body = none ∨ body' = body
  /-- The context is the same. -/
  ctx : t'.ctx = t.ctx
  /-- The length is the same. -/
  size : t'.size = t.size
  /-- The index by description is the same. -/
  known : t'.known = t.known

/-- Mending a struct grows the table. -/
theorem Mends.growsTo (h : Mends t t' ty name name' body body') : t.GrowsTo t' := by
  refine ⟨h.ctx, Nat.le_of_eq h.size.symm, fun {w d} hd => ?_⟩
  rw [h.after]
  split
  · subst w
    rw [h.before] at hd
    cases hd
    exact ⟨_, rfl, .struct _ _ h.keep⟩
  · exact ⟨d, hd, .refl d⟩

/-- Mending a struct keeps the table well-formed. -/
theorem Mends.wellFormed (h : Mends t t' ty name name' body body') (hw : t.WellFormed)
    (admits : t.Admits (.identified name' body'))
    (named : ∀ {n w}, t'.names.get? n = some w →
      t.names.get? n = some w ∧ w ≠ ty ∨ w = ty ∧ name' = some n) : t'.WellFormed := by
  have grows := h.growsTo
  -- Only the entry of the struct and the index of names change; both are covered by the
  -- assumptions.
  constructor
  · exact hw.primitive_of_growsTo grows
  · intro w d hd
    rw [h.after] at hd
    split at hd
    · cases hd
      exact admits.mono grows
    · exact (hw.admits hd).mono grows
  · intro w d
    rw [h.known, hw.known, h.after]
    split
    · -- Neither before nor after is the struct known by its description.
      subst w
      rw [h.before]
      constructor
      · rintro ⟨⟨⟩, hs⟩
        cases hs
      · rintro ⟨⟨⟩, hs⟩
        cases hs
    · rfl
  · intro n w hn
    rw [h.after]
    rcases named hn with ⟨hold, hne⟩ | ⟨rfl, rfl⟩
    · obtain ⟨b, hb⟩ := hw.named hold
      exact ⟨b, by rw [if_neg hne, hb]⟩
    · exact ⟨body', if_pos rfl⟩

end Mend

/-- Setting the data of a struct mends it, if a body that is there is kept. -/
theorem setData_mends {t : TypeTable} {ty : Ty} {name : Option String} {body : Option StructBody}
    (data : t.data? ty = some (.identified name body)) (name' : Option String)
    {body' : Option StructBody} (keep : body = none ∨ body' = body) :
    Mends t (t.setData ty (.identified name' body')) ty name name' body body' :=
  ⟨data, data?_setData data _, keep, rfl, by simp [size, setData], rfl⟩

/-- Assigning a name to a struct mends it, and adds at most that name to the index. -/
theorem assignName_mends {t : TypeTable} {ty : Ty} {name : Option String} {body : Option StructBody}
    (data : t.data? ty = some (.identified name body)) (wanted : Option String) :
    ∃ name', Mends t (t.assignName ty wanted body) ty name name' body body ∧
      ∀ n w, (t.assignName ty wanted body).names.get? n = some w →
        t.names.get? n = some w ∨ w = ty ∧ name' = some n := by
  obtain ⟨name', h, names⟩ := data?_assignName data wanted body
  exact ⟨name', ⟨data, h, .inr rfl, by simp, by simp, by simp⟩, names⟩

/-- Naming a struct that the index by name does not have. -/
theorem WellFormed.assignName {t : TypeTable} {ty : Ty} {name : Option String}
    {body : Option StructBody} (hw : t.WellFormed) (data : t.data? ty = some (.identified name body))
    (wanted : Option String) (free : ∀ n, t.names.get? n ≠ some ty) :
    (t.assignName ty wanted body).WellFormed := by
  -- A name does not matter to what is admitted.
  have admits : ∀ name', t.Admits (.identified name' body) := by
    intro name'
    have := hw.admits data
    cases body <;> exact this
  obtain ⟨name', mends, names⟩ := assignName_mends data wanted
  refine mends.wellFormed hw (admits name') fun {n w} hn => ?_
  rcases names n w hn with hold | new
  · refine .inl ⟨hold, ?_⟩
    rintro rfl
    exact free n hold
  · exact .inr new

/-- Releasing a name keeps all data. -/
theorem data?_releaseName (t : TypeTable) (name : Option String) (ty : Ty) :
    (t.releaseName name).data? ty = t.data? ty := by
  cases name <;> rfl

/-- Releasing a name grows the table. -/
theorem releaseName_growsTo (t : TypeTable) (name : Option String) :
    t.GrowsTo (t.releaseName name) := by
  cases name with
  | none => exact .refl t
  | some name => exact ⟨rfl, Nat.le_refl _, fun {_ d} h => ⟨d, h, .refl d⟩⟩

/-- Making or reforming a struct grows the table. -/
theorem Reforms.growsTo {t t' : TypeTable} (h : t.Reforms t') : t.GrowsTo t' := by
  cases h with
  | create name =>
    obtain ⟨_, h, -⟩ := assignName_mends (t := (t.push (.identified none none)).2)
      (by rw [data?_push, if_pos rfl]) name
    exact (push_growsTo t _).1.trans h.growsTo
  | complete data admits => exact (setData_mends data _ (.inl rfl)).growsTo
  | @rename ty old body name data =>
    obtain ⟨_, h, -⟩ := assignName_mends ((data?_releaseName t old ty).trans data) name
    exact (releaseName_growsTo t old).trans h.growsTo

/-- Making or reforming a struct keeps the table well-formed. -/
theorem Reforms.wellFormed {t t' : TypeTable} (h : t.Reforms t') (hw : t.WellFormed) :
    t'.WellFormed := by
  -- What is indexed under the name of a struct is checked for each way to reform one.
  cases h with
  | create name =>
    have pushed : (t.push (.identified none none)).2.WellFormed :=
      hw.push (d := .identified none none) trivial (by simp [TypeData.isNominal])
        (by simp [TypeData.isNominal])
    refine pushed.assignName (by rw [data?_push, if_pos rfl]) name fun n hn => ?_
    -- The new struct has no name in the index, since it was not there.
    obtain ⟨body, hb⟩ := hw.named hn
    rw [show t.data? (t.push _).1 = none from data?_next t] at hb
    cases hb
  | @complete ty name body data admits =>
    refine (setData_mends data name (.inl rfl)).wellFormed hw admits fun {n w} hn => ?_
    by_cases hw' : w = ty
    · subst hw'
      obtain ⟨_, hb⟩ := hw.named hn
      rw [data] at hb
      cases hb
      exact .inr ⟨rfl, rfl⟩
    · exact .inl ⟨hn, hw'⟩
  | @rename ty old body name data =>
    refine (hw.releaseName old).assignName ((data?_releaseName t old ty).trans data) name
      fun n hn => ?_
    -- The one name that the struct had has been freed.
    cases old with
    | none =>
      obtain ⟨_, hb⟩ := hw.named hn
      rw [data] at hb
      cases hb
    | some old =>
      simp only [TypeTable.releaseName, Keyed.get?_erase] at hn
      split at hn
      · cases hn
      · rename_i hne
        obtain ⟨_, hb⟩ := hw.named hn
        rw [data] at hb
        cases hb
        exact hne rfl

namespace Change

variable {t t' : TypeTable}

/-- A change grows the table. -/
theorem growsTo (h : t.Change t') : t.GrowsTo t' := by
  cases h with
  | enter structural admits => exact intern_growsTo t _
  | reform h => exact h.growsTo

/-- A change keeps the table well-formed. -/
theorem wellFormed (h : t.Change t') (hw : t.WellFormed) : t'.WellFormed := by
  cases h with
  | @enter d structural admits =>
    unfold intern
    split
    · exact hw
    · rename_i hfind
      refine hw.push admits (fun d' => ?_) fun hs => (hw.find?_eq_none_iff hs).1 hfind
      rw [Keyed.get?_insert]
      simp [structural, push]
  | reform h => exact h.wellFormed hw

end Change

end TypeTable

end SsaGraph
