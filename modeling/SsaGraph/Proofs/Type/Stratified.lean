import Mathlib.Algebra.Group.Nat.Defs
import Mathlib.Data.List.Chain
import SsaGraph.Proofs.Type.Calm

/-!
# The order of the types in a table

A type is entered after the types it is made of, and only identified structs are changed later. So
the index of a type is greater than the indexes of its parts, unless it is an identified struct,
whose body may point anywhere (`Ordered`). The proof is about one change at a time: an entry that is
its description is either old or has just been put at the end (`Change.structural_cases`).

Three things rest on the order. A cycle of types that contain each other passes through the body of
an identified struct (`Ordered.exists_identified_of_cycle`). The rules by which a type is shown,
which show an identified struct by its name, come to an end on every type (`Shows`), and `display`
is what they come to. And the sizes of types are bounded: an integer has less than 2^24 bits, and a
vector less than 2^32 lanes if it was asked for so (`LanesFit`).
-/

namespace SsaGraph

/-- The types that appear in the text of a described type. -/
def TypeData.shown : TypeData → List Ty
  | identified _ _ => []
  | d => d.contained

/-- A type that is not an identified struct shows all its parts. -/
theorem TypeData.shown_eq {d : TypeData} (h : d.isNominal = false) : d.shown = d.contained := by
  cases d with
  | identified _ _ => cases h
  | _ => rfl

/-- What a type shows is one of its parts. -/
theorem TypeData.mem_contained_of_shown {d : TypeData} {part : Ty} (h : part ∈ d.shown) :
    part ∈ d.contained := by
  cases d with
  | identified _ _ => cases h
  | _ => exact h

/-- An identified struct shows none of its parts. -/
theorem TypeData.shown_eq_nil {d : TypeData} (h : d.isNominal = true) : d.shown = [] := by
  cases d with
  | identified _ _ => rfl
  | _ => cases h

namespace TypeTable

variable {t t' : TypeTable} {ty : Ty} {d : TypeData}

/-! ## Where entries come from -/

/-- After a description was entered, an entry is old or it is the one at the end. -/
theorem intern_cases {new : TypeData} (h : (t.intern new).2.data? ty = some d) :
    t.data? ty = some d ∨ ty.index = t.size ∧ d = new := by
  unfold intern at h
  split at h
  · exact .inl h
  · have h : (t.push new).2.data? ty = some d := h
    rw [data?_push] at h
    split at h
    · rename_i hty
      cases h
      rw [hty]
      exact .inr ⟨rfl, rfl⟩
    · exact .inl h

/-- Mending a struct makes no entry that is its description. -/
theorem Mends.structural_cases {w : Ty} {name name' : Option String} {body body' : Option StructBody}
    (h : Mends t t' w name name' body body') (hd : t'.data? ty = some d)
    (hs : d.isNominal = false) : t.data? ty = some d := by
  rw [h.after] at hd
  split at hd
  · cases hd
    cases hs
  · exact hd

/-- Identified structs aside, a table has nothing new after they were changed. -/
theorem Reforms.structural_cases (h : t.Reforms t') (hd : t'.data? ty = some d)
    (hs : d.isNominal = false) : t.data? ty = some d := by
  -- Whatever is reformed is an identified struct, so the type at hand is another one.
  cases h with
  | create name =>
    obtain ⟨_, mends, -⟩ := assignName_mends (t := (t.push (.identified none none)).2)
      (by rw [data?_push, if_pos rfl]) name
    have pushed := mends.structural_cases hd hs
    rw [data?_push] at pushed
    split at pushed
    · cases pushed
      cases hs
    · exact pushed
  | complete data _ => exact (setData_mends data _ (.inl rfl)).structural_cases hd hs
  | @rename w old _ name data =>
    obtain ⟨_, mends, -⟩ := assignName_mends ((data?_releaseName t old w).trans data) name
    exact (data?_releaseName t old ty).symm.trans (mends.structural_cases hd hs)

/-- An entry that is its description is old, or it is at the end and was admitted. -/
theorem Change.structural_cases (h : t.Change t') (hd : t'.data? ty = some d)
    (hs : d.isNominal = false) : t.data? ty = some d ∨ ty.index = t.size ∧ t.Admits d := by
  cases h with
  | enter _ admits =>
    rcases intern_cases hd with old | ⟨index, rfl⟩
    · exact .inl old
    · exact .inr ⟨index, admits⟩
  | reform h => exact .inl (h.structural_cases hd hs)

/-! ## The order -/

/-- The order of the types in a table. -/
structure Ordered (t : TypeTable) : Prop where
  /-- A type other than an identified struct has a greater index than the types it is made of. -/
  lt : ∀ {ty d}, t.data? ty = some d → d.isNominal = false →
    ∀ part ∈ d.contained, part.index < ty.index

/-- The table starts in order. -/
theorem ordered_initial (ctx : ContextId) : (initial ctx).Ordered := by
  -- The types of a new table are not made of others.
  have simple : ∀ d ∈ primitives, d.contained = [] := by decide
  refine ⟨fun {ty d} hd _ part hpart => ?_⟩
  have hc : ty.ctx = ctx := ctx_of_data? hd
  have hmem : d ∈ primitives :=
    Array.mem_iff_getElem?.2 ⟨ty.index, by simpa [data?, initial, hc] using hd⟩
  rw [simple d hmem] at hpart
  cases hpart

/-- A change keeps the table in order. -/
theorem Change.ordered (h : t.Change t') (ho : t.Ordered) : t'.Ordered := by
  refine ⟨fun {ty d} hd hs part hpart => ?_⟩
  rcases h.structural_cases hd hs with old | ⟨index, admits⟩
  · exact ho.lt old hs part hpart
  · obtain ⟨_, hp⟩ := admits.has_contained part hpart
    rw [index]
    exact index_lt_of_data? hp

/-- The first type is made of the second, among others. -/
def Contains (t : TypeTable) (ty part : Ty) : Prop := ∃ d, t.data? ty = some d ∧ part ∈ d.contained

/-- A part is older than its type, unless it is in the body of an identified struct. -/
theorem Ordered.lt_or_identified (ho : t.Ordered) {part : Ty} (h : t.Contains ty part) :
    part.index < ty.index ∨ ∃ name body, t.data? ty = some (.identified name (some body)) := by
  obtain ⟨d, hd, hpart⟩ := h
  cases hs : d.isNominal with
  | false => exact .inl (ho.lt hd hs part hpart)
  | true =>
    cases d with
    | identified name body =>
      cases body with
      | none => cases hpart
      | some body => exact .inr ⟨name, body, hd⟩
    | _ => cases hs

/-- A cycle of types that contain each other has an identified struct with a body in it. -/
theorem Ordered.exists_identified_of_cycle (ho : t.Ordered) {path : List Ty}
    (cycle : List.IsChain t.Contains (ty :: path ++ [ty])) :
    ∃ w ∈ ty :: path, ∃ name body, t.data? w = some (.identified name (some body)) := by
  by_contra none
  push Not at none
  -- Without one the indexes would fall all the way round.
  have falls : List.IsChain (· > ·) ((ty :: path ++ [ty]).map Ty.index) := by
    rw [List.isChain_map]
    refine cycle.imp_of_mem_imp fun a b ha _ contains => ?_
    have ha : a ∈ ty :: path := by simpa [or_comm, or_left_comm] using ha
    refine (ho.lt_or_identified contains).resolve_right ?_
    rintro ⟨name, body, hd⟩
    exact none a ha name body hd
  have round := (List.pairwise_cons.1 (List.isChain_iff_pairwise.1 falls)).1 ty.index (by simp)
  exact Nat.lt_irrefl _ round

/-! ## Display -/

/-- The text of a type depends only on the texts of the parts that it shows. -/
theorem render_congr {f g : Ty → String} (h : ∀ part ∈ d.shown, f part = g part) :
    render f ty d = render g ty d := by
  -- An identified struct is shown by its name or its index, so its parts do not matter.
  cases d with
  | function ret params varArg =>
    have hparams : params.map f = params.map g :=
      List.map_congr_left fun p hp => h p (List.mem_cons_of_mem _ hp)
    simp only [render, hparams, h ret List.mem_cons_self]
  | literal body =>
    have hfields : body.fields.map f = body.fields.map g := List.map_congr_left h
    simp only [render, hfields]
  | array elem len => simp only [render, h elem List.mem_cons_self]
  | vector elem lanes => simp only [render, h elem List.mem_cons_self]
  | pointer pointee space =>
    have hpointee := h pointee List.mem_cons_self
    cases space <;> simp only [render, hpointee]
  | identified name body => cases name <;> rfl
  | _ => rfl

/-- What is shown of a type has a smaller index. -/
theorem Ordered.index_lt_of_shown (ho : t.Ordered) (hd : t.data? ty = some d) {part : Ty}
    (hpart : part ∈ d.shown) : part.index < ty.index := by
  cases hs : d.isNominal with
  | false =>
    rw [TypeData.shown_eq hs] at hpart
    exact ho.lt hd hs part hpart
  | true =>
    rw [TypeData.shown_eq_nil hs] at hpart
    cases hpart

/-- Any depth beyond the index of a type does. -/
theorem Ordered.displayWithin_eq (ho : t.Ordered) (hw : t.WellFormed) {m n : Nat}
    (has : t.Has ty) (hm : ty.index < m) (hn : ty.index < n) :
    t.displayWithin m ty = t.displayWithin n ty := by
  induction m generalizing n ty with
  | zero => omega
  | succ m ih =>
    obtain ⟨n, rfl⟩ : ∃ k, n = k + 1 := ⟨n - 1, by omega⟩
    obtain ⟨d, hd⟩ := has
    simp only [displayWithin, hd]
    refine render_congr fun part hpart => ?_
    have smaller := ho.index_lt_of_shown hd hpart
    have hpart : part ∈ d.contained := TypeData.mem_contained_of_shown hpart
    exact ih ((hw.admits hd).has_contained part hpart) (by omega) (by omega)

/-- The text of a type is made of the texts of the types in it. -/
theorem Ordered.display_eq (ho : t.Ordered) (hw : t.WellFormed) (hd : t.data? ty = some d) :
    t.display ty = render t.display ty d := by
  conv_lhs => rw [display, displayWithin, hd]
  refine render_congr fun part hpart => ?_
  have smaller := ho.index_lt_of_shown hd hpart
  have has := (hw.admits hd).has_contained part (TypeData.mem_contained_of_shown hpart)
  exact ho.displayWithin_eq hw has smaller (Nat.lt_succ_self _)

/-- The rules by which a type is shown: the types in its text are shown first. -/
inductive Shows (t : TypeTable) : Ty → String → Prop
  | type {ty : Ty} {d : TypeData} (text : Ty → String) (data : t.data? ty = some d)
    (parts : ∀ part ∈ d.shown, Shows t part (text part)) : Shows t ty (render text ty d)

/-- The rules lead to one text at most. -/
theorem Shows.unique {s s' : String} (h : t.Shows ty s) (h' : t.Shows ty s') : s = s' := by
  induction h generalizing s' with
  | type text data parts ih =>
    cases h' with
    | type text' data' parts' =>
      rw [data] at data'
      cases data'
      exact render_congr fun part hpart => ih part hpart (parts' part hpart)

/-- The rules come to an end on every type, with what `display` returns. -/
theorem Ordered.shows_display (ho : t.Ordered) (hw : t.WellFormed) (has : t.Has ty) :
    t.Shows ty (t.display ty) := by
  -- The induction is on the index, which falls from a type to the types in its text.
  generalize hn : ty.index = n
  induction n using Nat.strong_induction_on generalizing ty with
  | h n ih =>
    obtain ⟨d, hd⟩ := has
    rw [ho.display_eq hw hd]
    refine .type t.display hd fun part hpart => ?_
    have smaller := ho.index_lt_of_shown hd hpart
    have has := (hw.admits hd).has_contained part (TypeData.mem_contained_of_shown hpart)
    exact ih part.index (hn ▸ smaller) has rfl

/-- A type shows exactly its display. -/
theorem Ordered.shows_iff (ho : t.Ordered) (hw : t.WellFormed) (has : t.Has ty) {s : String} :
    t.Shows ty s ↔ s = t.display ty := by
  constructor
  · intro h
    exact h.unique (ho.shows_display hw has)
  · rintro rfl
    exact ho.shows_display hw has

/-! ## Sizes -/

/-- The lane counts of vectors are below their bound. -/
structure LanesFit (t : TypeTable) : Prop where
  lt : ∀ {ty elem lanes}, t.data? ty = some (.vector elem lanes) → lanes < laneLimit

/-- Admitted data has a width below the limit. -/
theorem Admits.scalarBits_lt (h : t.Admits d) : d.scalarBits < 2 ^ 24 := by
  cases d with
  | integer bits =>
    have : bits ≤ maxIntBits := h.2
    unfold maxIntBits at this
    simp only [TypeData.scalarBits]
    omega
  | _ =>
    simp only [TypeData.scalarBits]
    omega

/-- The size of a type that is no vector. -/
theorem primitiveBits_eq_ok (hd : t.data? ty = some d) (hk : d.kind ≠ .vector) :
    t.primitiveBits ty = .ok d.scalarBits := by
  simp only [primitiveBits, Question.bind_eq_ok_iff, data_eq_ok_iff]
  refine ⟨d, hd, ?_⟩
  cases d with
  | vector _ _ => exact absurd rfl hk
  | _ => rfl

/-- The size of a vector is that of its elements times its lanes, and the shape of the vector has
both. -/
theorem WellFormed.vectorShape_eq_ok (hw : t.WellFormed) {elem : Ty} {lanes : Nat}
    (hd : t.data? ty = some (.vector elem lanes)) :
    ∃ bits, t.vectorShape ty = .ok (elem, bits, lanes) ∧ t.primitiveBits elem = .ok bits ∧
      bits < 2 ^ 24 ∧ t.primitiveBits ty = .ok (bits * lanes) := by
  obtain ⟨-, e, he, hlane⟩ := hw.admits hd
  have hk : e.kind ≠ .vector := by
    intro hk
    rw [hk] at hlane
    cases hlane
  refine ⟨e.scalarBits, ?_, primitiveBits_eq_ok he hk, (hw.admits he).scalarBits_lt, ?_⟩
  · simp only [vectorShape, Question.bind_eq_ok_iff, check_eq_ok_iff, Question.lift_eq_ok_iff,
      data_eq_ok_iff]
    exact ⟨(), ctx_of_data? hd, _, hd, Question.bind_eq_ok_iff.2
      ⟨e, Question.lift_eq_ok_iff.2 (data_eq_ok_iff.2 he), rfl⟩⟩
  · simp only [primitiveBits, Question.bind_eq_ok_iff, data_eq_ok_iff]
    exact ⟨_, hd, Question.bind_eq_ok_iff.2 ⟨e, data_eq_ok_iff.2 he, rfl⟩⟩

/-- If the lanes fit, the bits of a type do not overflow. -/
theorem LanesFit.primitiveBits_lt (hl : t.LanesFit) (hw : t.WellFormed) (has : t.Has ty) :
    ∃ bits, t.primitiveBits ty = .ok bits ∧ bits < 2 ^ 56 := by
  obtain ⟨d, hd⟩ := has
  by_cases hk : d.kind = .vector
  · cases d with
    | vector elem lanes =>
      obtain ⟨bits, -, -, hbits, h⟩ := hw.vectorShape_eq_ok hd
      have hlanes : lanes < 2 ^ 32 := hl.lt hd
      refine ⟨_, h, ?_⟩
      calc bits * lanes < 2 ^ 24 * 2 ^ 32 := Nat.mul_lt_mul'' hbits hlanes
        _ = 2 ^ 56 := rfl
    | _ => cases hk
  · have hbits := (hw.admits hd).scalarBits_lt
    exact ⟨_, primitiveBits_eq_ok hd hk, by omega⟩

/-! ## Lane counts -/

/-- Vectors stay, so a table that has few enough lanes always had. -/
theorem LanesFit.of_growsTo (h : t'.LanesFit) (grows : t.GrowsTo t') : t.LanesFit :=
  ⟨fun hd => h.lt (grows.structural hd rfl)⟩

/-- A step after which the lane counts are below their bound if they were before. -/
def KeepsLanes (t t' : TypeTable) : Prop := t.LanesFit → t'.LanesFit

/-- A new table has no vectors. -/
theorem lanesFit_initial (ctx : ContextId) : (initial ctx).LanesFit := by
  have scalar : ∀ d ∈ primitives, d.kind ≠ .vector := by decide
  refine ⟨fun {ty elem lanes} hd => ?_⟩
  have hc : ty.ctx = ctx := ctx_of_data? hd
  have hmem : TypeData.vector elem lanes ∈ primitives :=
    Array.mem_iff_getElem?.2 ⟨ty.index, by simpa [data?, initial, hc] using hd⟩
  exact absurd rfl (scalar _ hmem)

/-- Making or reforming a struct keeps the lanes. -/
theorem Reforms.keepsLanes (h : t.Reforms t') : t.KeepsLanes t' :=
  fun fit => ⟨fun hd => fit.lt (h.structural_cases hd rfl)⟩

/-- A description is entered that is no vector, or one with few enough lanes. -/
theorem keepsLanes_intern
    (few : t.LanesFit → ∀ elem lanes, d = .vector elem lanes → lanes < laneLimit) :
    t.KeepsLanes (t.intern d).2 := by
  refine fun fit => ⟨fun {ty elem lanes} hd => ?_⟩
  rcases intern_cases hd with old | ⟨-, new⟩
  · exact fit.lt old
  · exact few fit elem lanes new.symm

/-- Getting a type keeps the lanes, if a new vector fits the limit. -/
theorem Gets.keepsLanes {m : Run TypeTable Ty} (hm : Gets m d)
    (few : t.LanesFit → ∀ elem lanes, d = .vector elem lanes → lanes < laneLimit)
    (run : m t = .ok ty t') : t.KeepsLanes t' := by
  obtain ⟨-, hi⟩ := hm.eq_ok_iff.1 run
  have step := keepsLanes_intern few
  rwa [hi] at step

/-- Getting a type is a step that keeps the lanes, if a new vector fits the limit. -/
theorem Gets.lanes_steps {m : Run TypeTable Ty} (hm : Gets m d)
    (few : t.LanesFit → ∀ elem lanes, d = .vector elem lanes → lanes < laneLimit) :
    Run.Steps KeepsLanes m t :=
  fun _ _ run => .single (hm.keepsLanes few run)

/-- A vector that is asked for with few enough lanes. -/
theorem vectorType_keepsLanes {elem : Ty} {lanes : Nat} (few : t.LanesFit → lanes < laneLimit) :
    Run.Steps KeepsLanes (vectorType elem lanes) t := by
  refine (vectorType_gets elem lanes).lanes_steps fun fit elem' lanes' heq => ?_
  cases heq
  exact few fit

/-- Asking for an integer type keeps the lanes. -/
theorem integerType_keepsLanes {bits : Nat} : Run.Steps KeepsLanes (integerType bits) t :=
  (integerType_gets bits).lanes_steps (by simp)

/-- What is derived from a vector has no more lanes than it, or twice as many if they are few
enough. -/
theorem deriveVector_keepsLanes (how : VectorDerivation) (ty : Ty) (t : TypeTable) :
    Run.Steps KeepsLanes (how.run ty) t := by
  have few : ∀ {elem bits lanes}, t.vectorShape ty = .ok (elem, bits, lanes) → t.LanesFit →
      lanes < laneLimit := fun shape fit => fit.lt (vectorShape_ok shape).1
  have widened : ∀ {bits lanes}, (t.LanesFit → lanes < laneLimit) →
      Run.Steps KeepsLanes (do vectorType (← integerType bits) lanes) t := by
    intro bits lanes few
    refine .bind integerType_keepsLanes fun int t' run => vectorType_keepsLanes fun fit => ?_
    exact few (fit.of_growsTo ((integerType_gets bits).growsTo run))
  -- The derivations keep the lanes or halve them, except for doubling, which checks the limit
  -- itself.
  cases how with
  | integer => exact .get_bind (.ask fun _ h => .guard fun _ => widened (few h))
  | extended => exact .get_bind (.ask fun _ h => widened (few h))
  | truncated => exact .get_bind (.ask fun _ h => .guard fun _ => widened (few h))
  | halved =>
    refine .get_bind (.ask fun _ h => .guard fun _ => vectorType_keepsLanes fun fit => ?_)
    exact Nat.lt_of_le_of_lt (Nat.div_le_self _ 2) (few h fit)
  | doubled => exact .get_bind (.ask fun _ h => .guard fun less => vectorType_keepsLanes fun _ => less)

end TypeTable

end SsaGraph
