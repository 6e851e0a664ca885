import SsaGraph.Proofs.Naming

/-!
# Layout identity

`isLayoutIdentical` compares two structs by their bodies, and bodies by the handles of the fields.
That two structs have the same fields and packing is a symmetric and transitive relation as it
stands; it is reflexive because a struct, with a body or without, is compared with itself by handle.
For literal structs it is equality, since the table has one literal struct for each body.

The answers do not depend on names (`AlikeButNames.isLayoutIdentical`), and a body stays once it is
there. So the only answer that can ever change is the no for two structs of which one has no body
yet.
-/

namespace SsaGraph

namespace TypeData

variable {d d' : TypeData}

/-- A description without the name of the struct. -/
def unnamed : TypeData → TypeData
  | identified _ body => identified none body
  | d => d

/-- Without its name a type has the same kind. -/
theorem kind_unnamed (d : TypeData) : d.unnamed.kind = d.kind := by
  cases d <;> rfl

/-- Without its name a type has the same body. -/
theorem body?_unnamed (d : TypeData) : d.unnamed.body? = d.body? := by
  cases d <;> rfl

/-- What has a body is a struct. -/
theorem kind_of_body {body : StructBody} (h : d.body? = some body) : d.kind = .struct := by
  cases d with
  | literal _ | identified _ _ => rfl
  | _ => cases h

/-- A type that has a body keeps it. -/
theorem Becomes.body {body : StructBody} (h : d.Becomes d') (hd : d.body? = some body) :
    d'.body? = some body := by
  cases h with
  | refl => exact hd
  | struct name name' keep =>
    rcases keep with none | same
    · rw [body?, none] at hd
      cases hd
    · rw [body?, same]
      exact hd

end TypeData

namespace TypeTable

variable {t t' : TypeTable} {a b w : Ty} {body body' : StructBody}

/-- The type is a struct. -/
def IsStruct (t : TypeTable) (ty : Ty) : Prop := t.kind ty = .ok .struct

/-- The type is a struct that has the body. -/
def HasBody (t : TypeTable) (ty : Ty) (body : StructBody) : Prop :=
  ∃ d, t.data ty = .ok d ∧ d.body? = some body

/-- What has a body is a structure. -/
theorem HasBody.isStruct (h : t.HasBody a body) : t.IsStruct a := by
  obtain ⟨d, data, hbody⟩ := h
  exact kind_eq_ok_iff.2 ⟨d, data_eq_ok_iff.1 data, TypeData.kind_of_body hbody⟩

/-- A structure has one body. -/
theorem HasBody.unique (h : t.HasBody a body) (h' : t.HasBody a body') : body = body' := by
  obtain ⟨d, data, hbody⟩ := h
  obtain ⟨d', data', hbody'⟩ := h'
  rw [data] at data'
  cases data'
  rw [hbody] at hbody'
  exact Option.some.inj hbody'

/-- A structure has its body in a grown table. -/
theorem HasBody.mono (grows : t.GrowsTo t') (h : t.HasBody a body) : t'.HasBody a body := by
  obtain ⟨d, data, hbody⟩ := h
  obtain ⟨d', data', becomes⟩ := grows.data (data_eq_ok_iff.1 data)
  exact ⟨d', data_eq_ok_iff.2 data', becomes.body hbody⟩

/-- A structure is of the context of its table. -/
theorem IsStruct.ctx (h : t.IsStruct a) : a.ctx = t.ctx := by
  obtain ⟨d, data, -⟩ := kind_eq_ok_iff.1 h
  exact ctx_of_data? data

/-! ## The answers -/

/-- The two types are the same, or structs with the same body. -/
def SameLayout (t : TypeTable) (a b : Ty) : Prop :=
  a = b ∨ ∃ body, t.HasBody a body ∧ t.HasBody b body

namespace SameLayout

/-- Having the same layout is symmetric. -/
theorem symm (h : t.SameLayout a b) : t.SameLayout b a := by
  rcases h with rfl | ⟨body, ha, hb⟩
  · exact .inl rfl
  · exact .inr ⟨body, hb, ha⟩

/-- Having the same layout is transitive. -/
theorem trans (h : t.SameLayout a b) (h' : t.SameLayout b w) : t.SameLayout a w := by
  rcases h with rfl | ⟨body, ha, hb⟩
  · exact h'
  rcases h' with rfl | ⟨body', hb', hw⟩
  · exact .inr ⟨body, ha, hb⟩
  · cases hb.unique hb'
    exact .inr ⟨body, ha, hw⟩

/-- Structures of the same layout have it in a grown table. -/
theorem mono (grows : t.GrowsTo t') (h : t.SameLayout a b) : t'.SameLayout a b := by
  rcases h with rfl | ⟨body, ha, hb⟩
  · exact .inl rfl
  · exact .inr ⟨body, ha.mono grows, hb.mono grows⟩

/-- Structs with bodies are laid out alike if the bodies are the same. -/
theorem iff_of_bodies (ha : t.HasBody a body) (hb : t.HasBody b body') :
    t.SameLayout a b ↔ body = body' := by
  constructor
  · rintro (rfl | ⟨w, ha', hb'⟩)
    · exact ha.unique hb
    · rw [ha.unique ha', hb.unique hb']
  · rintro rfl
    exact .inr ⟨body, ha, hb⟩

/-- Literal structs are laid out alike if they are the same. -/
theorem iff_of_literals (hw : t.WellFormed) (ha : t.data a = .ok (.literal body))
    (hb : t.data b = .ok (.literal body')) : t.SameLayout a b ↔ a = b := by
  rw [iff_of_bodies ⟨_, ha, rfl⟩ ⟨_, hb, rfl⟩]
  rw [data_eq_ok_iff] at ha hb
  constructor
  · rintro rfl
    exact hw.canonical ha hb rfl
  · rintro rfl
    rw [ha] at hb
    cases hb
    rfl

/-- A struct without a body is laid out like itself only. -/
theorem iff_of_bodyless {name : Option String} (ha : t.data a = .ok (.identified name none)) :
    t.SameLayout a b ↔ a = b := by
  refine ⟨?_, .inl⟩
  rintro (same | ⟨body, ⟨d, data, hbody⟩, -⟩)
  · exact same
  · rw [ha] at data
    cases data
    cases hbody

end SameLayout

/-- Types that are answered yes are of the context, and the same or structs with the same body. -/
theorem isLayoutIdentical_eq_true_iff :
    t.isLayoutIdentical a b = .ok true ↔ a.ctx = t.ctx ∧ b.ctx = t.ctx ∧ t.SameLayout a b := by
  simp only [isLayoutIdentical, Question.bind_eq_ok_iff, check_eq_ok_iff, exists_const]
  refine and_congr_right fun _ => and_congr_right fun _ => ?_
  -- The two answers of the comparison: the same handle, or equal bodies.
  by_cases same : a = b
  · simp [same, SameLayout]
  rw [if_neg same]
  simp only [Question.bind_eq_ok_iff, Question.lift_eq_ok_iff, Question.guard_eq_ok_iff]
  constructor
  · rintro ⟨da, ha, db, hb, -, h⟩
    split at h
    · rename_i x y hx hy
      have hxy : x = y := of_decide_eq_true (Question.pure_eq_ok_iff.1 h)
      exact .inr ⟨x, ⟨da, ha, hx⟩, db, hb, hxy ▸ hy⟩
    · cases h
  · rintro (h | ⟨body, ⟨da, ha, hx⟩, db, hb, hy⟩)
    · exact absurd h same
    · refine ⟨da, ha, db, hb, ⟨TypeData.kind_of_body hx, TypeData.kind_of_body hy⟩, ?_⟩
      simp [hx, hy]

/-- The comparison of two types with known descriptions. -/
theorem isLayoutIdentical_eq {da db : TypeData} (ha : t.data a = .ok da) (hb : t.data b = .ok db) :
    t.isLayoutIdentical a b =
      if a = b then .ok true
      else if da.kind = .struct ∧ db.kind = .struct then
        .ok (decide (da.body?.isSome ∧ da.body? = db.body?))
      else .error (.rejected .layoutOfNonStruct) := by
  -- Handles with data pass the check, so that only the comparison is left.
  have checked : ∀ {ty d}, t.data ty = .ok d → t.check ty = .ok () := fun h =>
    check_eq_ok_iff.2 (ctx_of_data? (data_eq_ok_iff.1 h))
  rw [isLayoutIdentical, checked ha, checked hb]
  by_cases same : a = b
  · simp only [if_pos same]
    rfl
  simp only [if_neg same, ha, hb]
  by_cases structs : da.kind = .struct ∧ db.kind = .struct
  · rw [if_pos structs]
    refine (if_pos structs).trans ?_
    -- Bodies that are there are compared as a whole, with their fields and packing.
    cases da.body? <;> cases db.body? <;> simp [pure, Except.pure]
  · rw [if_neg structs]
    exact if_neg structs

/-- Two structs are compared, and the answer says whether their layouts are the same. -/
theorem isLayoutIdentical_of_structs (ha : t.IsStruct a) (hb : t.IsStruct b) :
    ∃ same, t.isLayoutIdentical a b = .ok same ∧ (same = true ↔ t.SameLayout a b) := by
  have yes := @isLayoutIdentical_eq_true_iff t a b
  rw [and_iff_right ha.ctx, and_iff_right hb.ctx] at yes
  obtain ⟨da, hda, ka⟩ := kind_eq_ok_iff.1 ha
  obtain ⟨db, hdb, kb⟩ := kind_eq_ok_iff.1 hb
  have answer := isLayoutIdentical_eq (data_eq_ok_iff.2 hda) (data_eq_ok_iff.2 hdb)
  rw [if_pos (And.intro ka kb), ← apply_ite Except.ok] at answer
  rw [answer, Except.ok.injEq] at yes
  exact ⟨_, answer, yes⟩

/-- The answer for two structs is determined by whether their layouts are the same. -/
theorem isLayoutIdentical_eq_ok_iff (ha : t.IsStruct a) (hb : t.IsStruct b) {same : Bool} :
    t.isLayoutIdentical a b = .ok same ↔ (same = true ↔ t.SameLayout a b) := by
  obtain ⟨answer, h, yes⟩ := isLayoutIdentical_of_structs ha hb
  rw [h, Except.ok.injEq, ← yes]
  cases answer <;> cases same <;> simp

/-! ## Names -/

/-- The tables are the same but for the names of structs. -/
structure AlikeButNames (t t' : TypeTable) : Prop where
  /-- The tables belong to the same context. -/
  ctx : t'.ctx = t.ctx
  /-- Without the names the descriptions are the same. -/
  data? : ∀ ty, (t'.data? ty).map (·.unnamed) = (t.data? ty).map (·.unnamed)

/-- Tables that differ by names only have the same data up to names, and the same errors. -/
theorem AlikeButNames.data (h : t.AlikeButNames t') (ty : Ty) :
    (∃ d d', t.data ty = .ok d ∧ t'.data ty = .ok d' ∧ d'.unnamed = d.unnamed) ∨
      ∃ e, t.data ty = .error e ∧ t'.data ty = .error e := by
  have same := h.data? ty
  unfold TypeTable.data? at same
  unfold TypeTable.data
  rw [h.ctx] at same ⊢
  -- A foreign handle is reported by its number, a missing one by its place; neither looks at a
  -- name.
  by_cases own : ty.ctx = t.ctx
  · simp only [if_pos own] at same ⊢
    cases hd : t.types[ty.index]? with
    | none =>
      rw [hd, Option.map_none, Option.map_eq_none_iff] at same
      exact .inr ⟨_, rfl, by rw [same]⟩
    | some d =>
      rw [hd, Option.map_some, Option.map_eq_some_iff] at same
      obtain ⟨d', hd', unnamed⟩ := same
      exact .inl ⟨d, d', rfl, by rw [hd'], unnamed⟩
  · simp only [if_neg own]
    exact .inr ⟨_, rfl, rfl⟩

/-- The outcome of a comparison does not depend on the names of structs. -/
theorem AlikeButNames.isLayoutIdentical (h : t.AlikeButNames t') :
    t'.isLayoutIdentical = t.isLayoutIdentical := by
  funext a b
  have check : t'.check = t.check := by
    funext ty
    rw [TypeTable.check, h.ctx, TypeTable.check]
  obtain ⟨da, da', ha, ha', ua⟩ | ⟨e, ha, ha'⟩ := h.data a
  · obtain ⟨db, db', hb, hb', ub⟩ | ⟨e, hb, hb'⟩ := h.data b
    · rw [isLayoutIdentical_eq ha hb, isLayoutIdentical_eq ha' hb']
      rw [← TypeData.kind_unnamed da', ← TypeData.kind_unnamed db', ← TypeData.body?_unnamed da',
        ← TypeData.body?_unnamed db', ua, ub]
      simp only [TypeData.kind_unnamed, TypeData.body?_unnamed]
    · simp only [TypeTable.isLayoutIdentical, check, ha, ha', hb, hb']
      rfl
  · simp only [TypeTable.isLayoutIdentical, check, ha, ha']
    rfl

/-- A struct that gets another name is what it was but for the name. -/
theorem setStructName_alike {ty : Ty} {name : Option String} {u : Unit}
    (run : setStructName ty name t = .ok u t') : t.AlikeButNames t' := by
  by_cases identified : ∃ old body, t.data ty = .ok (.identified old body)
  · obtain ⟨old, body, data⟩ := identified
    rw [data_eq_ok_iff] at data
    rw [setStructName_eq_ok data] at run
    cases run
    split
    · exact ⟨rfl, fun _ => rfl⟩
    -- The name is released and another one assigned; each changes names only.
    obtain ⟨name', mends, -⟩ := assignName_mends ((data?_releaseName t old ty).trans data) name
    refine ⟨mends.ctx.trans (by cases old <;> rfl), fun w => ?_⟩
    rw [mends.after]
    split
    · subst w
      rw [data]
      rfl
    · rw [data?_releaseName]
  · -- Any other type is not renamed at all.
    have other : ∀ old body, t.data ty ≠ .ok (.identified old body) := fun old body data =>
      identified ⟨old, body, data⟩
    obtain ⟨e, failed⟩ := setStructName_error other name
    rw [failed] at run
    cases run

/-! ## The laws -/

/-- The laws of the comparison of layouts. -/
structure ComparesLayouts (t : TypeTable) : Prop where
  /-- Any two structs are compared. -/
  answered : ∀ {a b}, t.IsStruct a → t.IsStruct b → ∃ same, t.isLayoutIdentical a b = .ok same
  /-- A struct is laid out like itself. -/
  refl : ∀ {a}, t.IsStruct a → t.isLayoutIdentical a a = .ok true
  /-- The order of two structs does not matter. -/
  symm : ∀ {a b}, t.IsStruct a → t.IsStruct b → t.isLayoutIdentical b a = t.isLayoutIdentical a b
  /-- What is laid out like a second type, and this like a third, is laid out like the third. -/
  trans : ∀ {a b w}, t.isLayoutIdentical a b = .ok true → t.isLayoutIdentical b w = .ok true →
    t.isLayoutIdentical a w = .ok true
  /-- Literal structs are laid out alike if they are the same. -/
  literal : ∀ {a b x y}, t.data a = .ok (.literal x) → t.data b = .ok (.literal y) →
    t.isLayoutIdentical a b = .ok (decide (a = b))
  /-- A struct without a body is laid out like itself only. -/
  bodyless : ∀ {a b name}, t.data a = .ok (.identified name none) → t.IsStruct b →
    t.isLayoutIdentical a b = .ok (decide (a = b))
  /-- With other names all answers are the same. -/
  nameless : ∀ {t'}, t.AlikeButNames t' → t'.isLayoutIdentical = t.isLayoutIdentical

/-- In a well-formed table the comparison of layouts has the properties of one. -/
theorem WellFormed.comparesLayouts (hw : t.WellFormed) : t.ComparesLayouts := by
  -- Each law is one of the relation `SameLayout`, which the answers are about.
  constructor
  case answered =>
    intro a b ha hb
    obtain ⟨same, answer, -⟩ := isLayoutIdentical_of_structs ha hb
    exact ⟨same, answer⟩
  case refl =>
    intro a ha
    exact isLayoutIdentical_eq_true_iff.2 ⟨ha.ctx, ha.ctx, .inl rfl⟩
  case symm =>
    intro a b ha hb
    obtain ⟨same, answer, yes⟩ := isLayoutIdentical_of_structs ha hb
    rw [answer, isLayoutIdentical_eq_ok_iff hb ha, yes]
    exact ⟨.symm, .symm⟩
  case trans =>
    intro a b w hab hbw
    rw [isLayoutIdentical_eq_true_iff] at hab hbw ⊢
    exact ⟨hab.1, hbw.2.1, hab.2.2.trans hbw.2.2⟩
  -- Literal structs with one body are one type, so comparing handles is enough.
  case literal =>
    intro a b x y ha hb
    have structA : t.IsStruct a := HasBody.isStruct ⟨_, ha, rfl⟩
    have structB : t.IsStruct b := HasBody.isStruct ⟨_, hb, rfl⟩
    rw [isLayoutIdentical_eq_ok_iff structA structB, SameLayout.iff_of_literals hw ha hb,
      decide_eq_true_iff]
  case bodyless =>
    intro a b name ha hb
    have structA : t.IsStruct a := kind_eq_ok_iff.2 ⟨_, data_eq_ok_iff.1 ha, rfl⟩
    rw [isLayoutIdentical_eq_ok_iff structA hb, SameLayout.iff_of_bodyless ha, decide_eq_true_iff]
  case nameless => exact AlikeButNames.isLayoutIdentical

/-- Types that are laid out alike stay so. -/
theorem GrowsTo.isLayoutIdentical (grows : t.GrowsTo t') (h : t.isLayoutIdentical a b = .ok true) :
    t'.isLayoutIdentical a b = .ok true := by
  rw [isLayoutIdentical_eq_true_iff] at h ⊢
  rw [grows.ctx]
  exact ⟨h.1, h.2.1, h.2.2.mono grows⟩

/-- Structs with bodies that are laid out differently stay so. -/
theorem GrowsTo.isLayoutIdentical_eq_false (grows : t.GrowsTo t') (ha : t.HasBody a body)
    (hb : t.HasBody b body') (h : t.isLayoutIdentical a b = .ok false) :
    t'.isLayoutIdentical a b = .ok false := by
  have ha' := ha.mono grows
  have hb' := hb.mono grows
  rw [isLayoutIdentical_eq_ok_iff ha.isStruct hb.isStruct, SameLayout.iff_of_bodies ha hb] at h
  rw [isLayoutIdentical_eq_ok_iff ha'.isStruct hb'.isStruct, SameLayout.iff_of_bodies ha' hb', h]

end TypeTable

namespace Context

variable {c : Context}

/-- The laws of the comparison of layouts, now and in all later contexts. -/
structure ComparesLayouts (c : Context) : Prop where
  /-- The types that there are obey the laws. -/
  laws : c.types.ComparesLayouts
  /-- Renaming a struct changes no answer. -/
  rename : ∀ {ty name a c'}, (Request.setStructName ty name).run c = .ok a c' →
    c'.types.isLayoutIdentical = c.types.isLayoutIdentical
  /-- Types that are laid out alike stay so, whatever requests follow. -/
  alike : ∀ {c' a b}, c.Later c' → c.types.isLayoutIdentical a b = .ok true →
    c'.types.isLayoutIdentical a b = .ok true
  /-- So do structs with bodies that are laid out differently. -/
  different : ∀ {c' a b x y}, c.Later c' → c.types.HasBody a x → c.types.HasBody b y →
    c.types.isLayoutIdentical a b = .ok false → c'.types.isLayoutIdentical a b = .ok false

/-- In every context, layouts are compared by the laws. -/
theorem Reachable.compares_layouts (hc : c.Reachable) : c.ComparesLayouts := by
  constructor
  case laws => exact hc.sound.types.comparesLayouts
  case rename =>
    intro ty name a c' run
    obtain ⟨types, renamed, rfl⟩ := onTypes_ok (Request.silent_eq_ok run)
    exact (TypeTable.setStructName_alike renamed).isLayoutIdentical
  case alike =>
    intro c' a b later
    exact (growsTo_of_chain (later.chain hc)).isLayoutIdentical
  case different =>
    intro c' a b x y later
    exact (growsTo_of_chain (later.chain hc)).isLayoutIdentical_eq_false

/-- For instance, when two identified structs and a literal one have the same fields, and a third
identified struct has no body. -/
theorem compares_layouts_of_pairs : ∃ c,
    replay [.createStructWithBody (some "pair") [⟨⟨1⟩, 9⟩, ⟨⟨1⟩, 7⟩] false,
      .createStructWithBody (some "pair") [⟨⟨1⟩, 9⟩, ⟨⟨1⟩, 7⟩] false,
      .literalStruct [⟨⟨1⟩, 9⟩, ⟨⟨1⟩, 7⟩] false, .literalStruct [⟨⟨1⟩, 9⟩, ⟨⟨1⟩, 7⟩] true,
      .createStruct (some "pair")] (.initial ⟨1⟩) = some c ∧
    (c.types.isLayoutIdentical ⟨⟨1⟩, 11⟩ ⟨⟨1⟩, 12⟩ = .ok true ∧
      c.types.isLayoutIdentical ⟨⟨1⟩, 11⟩ ⟨⟨1⟩, 13⟩ = .ok true ∧
      c.types.isLayoutIdentical ⟨⟨1⟩, 13⟩ ⟨⟨1⟩, 14⟩ = .ok false ∧
      c.types.isLayoutIdentical ⟨⟨1⟩, 15⟩ ⟨⟨1⟩, 11⟩ = .ok false ∧
      c.types.isLayoutIdentical ⟨⟨1⟩, 15⟩ ⟨⟨1⟩, 15⟩ = .ok true) ∧ c.ComparesLayouts :=
  exists_replay _ _ (by decide +kernel) fun _ hc _ =>
    Reachable.compares_layouts (hc.mono fun _ _ _ => trivial)

end Context

end SsaGraph
