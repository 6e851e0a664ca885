import SsaGraph.Proofs.Build.Emission
import SsaGraph.Proofs.Canonical

/-!
# The algebra of casts

`Accepts op a b` says that the cast `op` from the type `a` to the type `b` is valid. What matters
about a type is told by its description: `TypeData.scalarSide` is what a type is as a side of a cast
if it is not a vector, and `CastSide.lift` makes that of a vector from that of its elements
(`castSide_eq_ok_iff`). The laws are then laws of `CastSide.valid`.

Sizes are those of whole types. All lanes have the same size and there is at least one, so for the
same number of lanes the order of the sizes is that of the elements (`valid_lift`).
-/

namespace SsaGraph

/-- The type of a vector's lane is a single value. -/
theorem TypeKind.isSingleValue_of_canBeLane {k : TypeKind} (h : k.canBeLane = true) :
    k.isSingleValue = true := by
  cases k <;> first | rfl | cases h

/-! ## Sides -/

/-- What a type that is not a vector is, as a side of a cast. -/
def TypeData.scalarSide (d : TypeData) : CastSide where
  kind := d.kind
  scalar := d.kind
  lanes := none
  bits := d.scalarBits
  space := d.addressSpace?

namespace CastSide

variable {x y z : CastSide} {op : Opcode}

/-- The vector of `n` elements, as a side of a cast. -/
def lift (n : Nat) (s : CastSide) : CastSide :=
  { s with kind := .vector, lanes := some n, bits := s.bits * n }

/-- The casts that change the size of numbers. -/
def resizing : List Opcode := [.trunc, .zext, .sext, .fptrunc, .fpext]

/-- A valid cast has an opcode for it. -/
theorem isCast_of_valid (h : valid op x y = true) : op.isCast = true := by
  cases op <;> first | rfl | cases h

/-- The sides are numbers of the same sort, or vectors of as many of them, and the second is wider.
-/
def widens (sort : TypeKind → Bool) (x y : CastSide) : Bool :=
  x.lanes = y.lanes && (sort x.scalar && sort y.scalar) && x.bits < y.bits

/-- Nothing is wider than itself. -/
theorem widens_irrefl (sort : TypeKind → Bool) (x : CastSide) : widens sort x x = false := by
  simp [widens]

/-- Widening twice is widening. -/
theorem widens_trans {sort : TypeKind → Bool} (h : widens sort x y = true)
    (h' : widens sort y z = true) : widens sort x z = true := by
  simp only [widens, Bool.and_eq_true, decide_eq_true_eq] at h h' ⊢
  obtain ⟨⟨lanes, first, -⟩, less⟩ := h
  obtain ⟨⟨lanes', -, last⟩, less'⟩ := h'
  exact ⟨⟨lanes.trans lanes', first, last⟩, Nat.lt_trans less less'⟩

/-- To be narrower is to be less wide. -/
theorem narrows_eq (sort : TypeKind → Bool) (x y : CastSide) :
    (x.lanes = y.lanes && (sort x.scalar && sort y.scalar) && y.bits < x.bits) =
      widens sort y x := by
  rw [widens, Bool.and_comm (sort x.scalar), decide_eq_decide.2 eq_comm]

/-- A cast that changes the size goes from the narrower to the wider, or the other way. -/
theorem valid_resizing (hop : op ∈ resizing) : ∃ sort : TypeKind → Bool,
    (∀ x y, valid op x y = widens sort x y) ∨ ∀ x y, valid op x y = widens sort y x := by
  simp only [resizing, List.mem_cons, List.not_mem_nil, or_false] at hop
  obtain rfl | rfl | rfl | rfl | rfl := hop
  · exact ⟨(· = .integer), .inr (narrows_eq (· = .integer))⟩
  · exact ⟨(· = .integer), .inl fun _ _ => rfl⟩
  · exact ⟨(· = .integer), .inl fun _ _ => rfl⟩
  · exact ⟨TypeKind.isFloatingPoint, .inr (narrows_eq _)⟩
  · exact ⟨TypeKind.isFloatingPoint, .inl fun _ _ => rfl⟩

/-- A resizing cast changes the size. -/
theorem valid_irrefl (hop : op ∈ resizing) : valid op x x = false := by
  obtain ⟨sort, same | same⟩ := valid_resizing hop <;> rw [same, widens_irrefl]

/-- Two resizing casts of one opcode make one. -/
theorem valid_trans (hop : op ∈ resizing) (h : valid op x y = true) (h' : valid op y z = true) :
    valid op x z = true := by
  obtain ⟨sort, same | same⟩ := valid_resizing hop <;> rw [same] at h h' ⊢
  · exact widens_trans h h'
  · exact widens_trans h' h

/-- Casts that undo each other are valid in opposite directions. -/
theorem valid_trunc_eq (x y : CastSide) : valid .trunc x y = valid .zext y x :=
  narrows_eq (· = .integer) x y

/-- Truncating a float is the converse of extending one. -/
theorem valid_fptrunc_eq (x y : CastSide) : valid .fptrunc x y = valid .fpext y x :=
  narrows_eq _ x y

/-- What is asked of the two sides apart from the lanes is asked the other way around. -/
theorem swap_eq {i j : Option Nat} (p q : Bool) :
    (i = j && p && q) = (j = i && q && p) := by
  rw [Bool.and_right_comm, decide_eq_decide.2 eq_comm]

/-- From float to integer is the converse of from integer to float. -/
theorem valid_fptoui_eq (x y : CastSide) : valid .fptoui x y = valid .uitofp y x := swap_eq ..

/-- From pointer to integer is the converse of from integer to pointer. -/
theorem valid_ptrtoint_eq (x y : CastSide) : valid .ptrtoint x y = valid .inttoptr y x := swap_eq ..

/-- A bit cast goes between pointers to the same address space, or vectors of as many of them, or
between other values of the same size. -/
theorem bitcast_eq_true_iff :
    valid .bitcast x y = true ↔
      (x.scalar = .pointer ∧ y.scalar = .pointer ∧ x.lanes = y.lanes ∧ x.space = y.space) ∨
        (x.scalar ≠ .pointer ∧ y.scalar ≠ .pointer ∧ x.kind.isSingleValue = true ∧
          y.kind.isSingleValue = true ∧ x.bits = y.bits) := by
  change bitcast x y = true ↔ _
  by_cases hx : x.scalar = .pointer <;> by_cases hy : y.scalar = .pointer <;>
    simp [bitcast, hx, hy, and_assoc]

/-- A bitcast can be undone by one. -/
theorem bitcast_symm (h : valid .bitcast x y = true) : valid .bitcast y x = true := by
  rw [bitcast_eq_true_iff] at h ⊢
  rcases h with ⟨hx, hy, lanes, space⟩ | ⟨hx, hy, sx, sy, bits⟩
  · exact .inl ⟨hy, hx, lanes.symm, space.symm⟩
  · exact .inr ⟨hy, hx, sy, sx, bits.symm⟩

/-- A bitcast is valid in both directions or in none. -/
theorem bitcast_comm (x y : CastSide) : valid .bitcast x y = valid .bitcast y x :=
  Bool.eq_iff_iff.2 ⟨bitcast_symm, bitcast_symm⟩

/-- Two bitcasts make one. -/
theorem bitcast_trans (h : valid .bitcast x y = true) (h' : valid .bitcast y z = true) :
    valid .bitcast x z = true := by
  rw [bitcast_eq_true_iff] at h h' ⊢
  rcases h with ⟨hx, hy, lanes, space⟩ | ⟨hx, hy, sx, -, bits⟩
  · rcases h' with ⟨-, hz, lanes', space'⟩ | ⟨hy', -⟩
    · exact .inl ⟨hx, hz, lanes.trans lanes', space.trans space'⟩
    · exact absurd hy hy'
  · rcases h' with ⟨hy', -⟩ | ⟨-, hz, -, sz, bits'⟩
    · exact absurd hy' hy
    · exact .inr ⟨hx, hz, sx, sz, bits.trans bits'⟩

/-- No cast goes to the type without values. -/
theorem valid_void (op : Opcode) (x : CastSide) : valid op x TypeData.void.scalarSide = false := by
  cases op with
  | trunc | zext | sext | fptoui | fptosi | uitofp | sitofp | fptrunc | fpext | ptrtoint | inttoptr =>
    simp [valid, valid.ints, valid.floats, TypeData.scalarSide, TypeData.kind,
      TypeKind.isFloatingPoint]
  | bitcast =>
    rw [Bool.eq_false_iff, ne_eq, bitcast_eq_true_iff]
    rintro (⟨-, ⟨⟩, -⟩ | ⟨-, -, -, ⟨⟩, -⟩)
  | _ => rfl

/-- The number of lanes has no part in it, if both sides have the same. -/
theorem valid_lift {d e : TypeData} {n : Nat} (hn : 0 < n) (hd : d.kind.canBeLane = true)
    (he : e.kind.canBeLane = true) (op : Opcode) :
    valid op (d.scalarSide.lift n) (e.scalarSide.lift n) = valid op d.scalarSide e.scalarSide := by
  -- Lifting multiplies both sizes by the number of lanes, which is positive, so it keeps their
  -- order.
  have less : ∀ i j : Nat, i * n < j * n ↔ i < j := fun i j => Nat.mul_lt_mul_right hn
  have same : ∀ i j : Nat, i * n = j * n ↔ i = j := fun i j => Nat.mul_left_inj (by omega)
  have single : TypeKind.vector.isSingleValue = true := rfl
  have hd' := TypeKind.isSingleValue_of_canBeLane hd
  have he' := TypeKind.isSingleValue_of_canBeLane he
  rw [Bool.eq_iff_iff]
  cases op with
  | trunc | zext | sext =>
    simp only [valid, valid.ints, Bool.and_eq_true, decide_eq_true_eq]
    simp only [lift, TypeData.scalarSide, less]
  | fptrunc | fpext =>
    simp only [valid, valid.floats, Bool.and_eq_true, decide_eq_true_eq]
    simp only [lift, TypeData.scalarSide, less]
  | bitcast =>
    simp only [valid, bitcast, Bool.ite_eq_true_distrib, Bool.and_eq_true, decide_eq_true_eq]
    simp only [lift, TypeData.scalarSide, same, single, hd', he']
  | fptoui | fptosi | uitofp | sitofp | ptrtoint | inttoptr =>
    simp only [valid, Bool.and_eq_true, decide_eq_true_eq]
    simp only [lift, TypeData.scalarSide]
  | _ => simp only [valid]

end CastSide

/-! ## Types -/

namespace TypeTable

variable {t t' : TypeTable} {a b e ty : Ty} {op op' : Opcode} {s : CastSide}

/-- The cast `op` from `a` to `b` is accepted. -/
def Accepts (t : TypeTable) (op : Opcode) (a b : Ty) : Prop := t.isValidCast op a b = .ok true

/-- The shape of a type that is no vector. -/
theorem shape_scalar {d : TypeData} (hd : t.data? ty = some d) (scalar : d.kind ≠ .vector) :
    t.shape ty = .ok (ty, none) := by
  refine Question.bind_eq_ok_iff.2 ⟨d, data_eq_ok_iff.2 hd, ?_⟩
  cases d with
  | vector => exact absurd rfl scalar
  | _ => rfl

/-- The number of bits of a type that is no vector. -/
theorem primitiveBits_scalar {d : TypeData} (hd : t.data? ty = some d) (scalar : d.kind ≠ .vector) :
    t.primitiveBits ty = .ok d.scalarBits := by
  refine Question.bind_eq_ok_iff.2 ⟨d, data_eq_ok_iff.2 hd, ?_⟩
  cases d with
  | vector => exact absurd rfl scalar
  | _ => rfl

/-- What a cast looks at in a type that is no vector. -/
theorem castSide_scalar {d : TypeData} (hd : t.data? ty = some d) (scalar : d.kind ≠ .vector) :
    t.castSide ty = .ok d.scalarSide := by
  simp only [castSide, Question.bind_eq_ok_iff]
  exact ⟨_, shape_scalar hd scalar, d, data_eq_ok_iff.2 hd, _, kind_eq_ok_iff.2 ⟨d, hd, rfl⟩, _,
    primitiveBits_scalar hd scalar, rfl⟩

/-- What a cast looks at in a vector is what it looks at in the element, lifted. -/
theorem castSide_vector {elem : Ty} {n : Nat} {d : TypeData}
    (hv : t.data? ty = some (.vector elem n)) (hd : t.data? elem = some d) :
    t.castSide ty = .ok (d.scalarSide.lift n) := by
  have shape : t.shape ty = .ok (elem, some n) :=
    Question.bind_eq_ok_iff.2 ⟨_, data_eq_ok_iff.2 hv, rfl⟩
  have bits : t.primitiveBits ty = .ok (d.scalarBits * n) :=
    Question.bind_eq_ok_iff.2 ⟨_, data_eq_ok_iff.2 hv,
      Question.bind_eq_ok_iff.2 ⟨d, data_eq_ok_iff.2 hd, rfl⟩⟩
  simp only [castSide, Question.bind_eq_ok_iff]
  exact ⟨_, shape, d, data_eq_ok_iff.2 hd, _, kind_eq_ok_iff.2 ⟨_, hv, rfl⟩, _, bits, rfl⟩

/-- A type as a side of a cast comes from its description, or from that of its elements. -/
theorem castSide_cases (h : t.castSide ty = .ok s) :
    (∃ d, t.data? ty = some d ∧ d.kind ≠ .vector ∧ s = d.scalarSide) ∨
      ∃ elem n d, t.data? ty = some (.vector elem n) ∧ t.data? elem = some d ∧
        s = d.scalarSide.lift n := by
  have asked := h
  simp only [castSide, shape, Question.bind_eq_ok_iff, data_eq_ok_iff] at asked
  obtain ⟨⟨elem, lanes⟩, ⟨d, hd, hshape⟩, e, he, -⟩ := asked
  by_cases scalar : d.kind = .vector
  · cases d with
    | vector elem' n =>
      cases hshape
      rw [castSide_vector hd he] at h
      exact .inr ⟨elem, n, e, hd, he, (Except.ok.inj h).symm⟩
    | _ => cases scalar
  · rw [castSide_scalar hd scalar] at h
    exact .inl ⟨d, hd, scalar, (Except.ok.inj h).symm⟩

/-- What a cast looks at has the kind of the type. -/
theorem kind_of_castSide (h : t.castSide ty = .ok s) : t.kind ty = .ok s.kind := by
  rcases castSide_cases h with ⟨d, hd, -, rfl⟩ | ⟨elem, n, d, hd, -, rfl⟩
  · exact kind_eq_ok_iff.2 ⟨d, hd, rfl⟩
  · exact kind_eq_ok_iff.2 ⟨_, hd, rfl⟩

/-- A type whose scalars are pointers is a single value. -/
theorem isSingleValue_of_pointers (h : t.castSide ty = .ok s) (pointers : s.scalar = .pointer) :
    s.kind.isSingleValue = true := by
  rcases castSide_cases h with ⟨d, hd, -, rfl⟩ | ⟨elem, n, d, hd, -, rfl⟩
  · have kind : d.kind = .pointer := pointers
    rw [TypeData.scalarSide, kind]
    rfl
  · rfl

/-- A cast is accepted exactly when both sides can be looked at and are valid together. -/
theorem accepts_iff :
    t.Accepts op a b ↔
      ∃ x y, t.castSide a = .ok x ∧ t.castSide b = .ok y ∧ CastSide.valid op x y = true := by
  simp only [Accepts, isValidCast, Question.bind_eq_ok_iff, Question.pure_eq_ok_iff]
  constructor
  · rintro ⟨x, hx, y, hy, valid⟩
    exact ⟨x, y, hx, hy, valid⟩
  · rintro ⟨x, y, hx, hy, valid⟩
    exact ⟨x, hx, y, hy, valid⟩

/-- Opcodes that accept the same sides accept the same types. -/
theorem accepts_iff_of_eq (same : ∀ x y, CastSide.valid op x y = CastSide.valid op' x y) :
    t.Accepts op a b ↔ t.Accepts op' a b := by
  simp only [accepts_iff, same]

/-- Opcodes that are converse on sides are converse on types. -/
theorem accepts_iff_swap (swap : ∀ x y, CastSide.valid op x y = CastSide.valid op' y x) :
    t.Accepts op a b ↔ t.Accepts op' b a := by
  simp only [accepts_iff, swap]
  constructor
  · rintro ⟨x, y, hx, hy, valid⟩
    exact ⟨y, x, hy, hx, valid⟩
  · rintro ⟨y, x, hy, hx, valid⟩
    exact ⟨x, y, hx, hy, valid⟩

/-- What two casts in a row say about the sides, which are the same in the middle. -/
theorem Accepts.trans {c : Ty} (h : t.Accepts op a b) (h' : t.Accepts op b c)
    (trans : ∀ {x y z}, CastSide.valid op x y = true → CastSide.valid op y z = true →
      CastSide.valid op x z = true) : t.Accepts op a c := by
  obtain ⟨x, y, hx, hy, valid⟩ := accepts_iff.1 h
  obtain ⟨y', z, hy', hz, valid'⟩ := accepts_iff.1 h'
  rw [hy] at hy'
  cases hy'
  exact accepts_iff.2 ⟨x, z, hx, hz, trans valid valid'⟩

/-- What can be bitcast is a single value. -/
theorem Accepts.isSingleValue (h : t.Accepts .bitcast a b) :
    ∃ k, t.kind a = .ok k ∧ k.isSingleValue = true := by
  obtain ⟨x, y, hx, -, valid⟩ := accepts_iff.1 h
  refine ⟨x.kind, kind_of_castSide hx, ?_⟩
  rcases CastSide.bitcast_eq_true_iff.1 valid with ⟨pointers, -⟩ | ⟨-, -, single, -⟩
  · exact isSingleValue_of_pointers hx pointers
  · exact single

/-- A single value can be bitcast to its own type. -/
theorem WellFormed.accepts_self (hw : t.WellFormed) {k : TypeKind} (hk : t.kind a = .ok k)
    (single : k.isSingleValue = true) : t.Accepts .bitcast a a := by
  obtain ⟨x, hx⟩ := (has_of_kind hk).castSide hw
  have same := kind_of_castSide hx
  rw [hk] at same
  cases same
  exact accepts_iff.2 ⟨x, x, hx, hx, by simp [CastSide.valid, CastSide.bitcast, single]⟩

/-- A cast between vectors of as many elements is accepted if it is between the elements. -/
theorem WellFormed.accepts_vector (hw : t.WellFormed) {n : Nat} {va vb : Ty}
    (ha : t.data? va = some (.vector a n)) (hb : t.data? vb = some (.vector b n)) :
    t.Accepts op va vb ↔ t.Accepts op a b := by
  obtain ⟨hn, d, hd, lane⟩ := hw.admits ha
  obtain ⟨-, e, he, lane'⟩ := hw.admits hb
  have scalar : ∀ {d : TypeData}, d.kind.canBeLane = true → d.kind ≠ .vector := by
    intro d lane vector
    rw [vector] at lane
    cases lane
  simp only [accepts_iff, castSide_vector ha hd, castSide_vector hb he,
    castSide_scalar hd (scalar lane), castSide_scalar he (scalar lane'), Except.ok.injEq,
    exists_and_left, exists_eq_left', CastSide.valid_lift hn lane lane']

/-- The laws of the casts between the types of a table. -/
structure CastLaws (t : TypeTable) : Prop where
  /-- Integers are extended, in either way, exactly where they can be truncated back. -/
  zext : ∀ a b, t.Accepts .trunc a b ↔ t.Accepts .zext b a
  sext : ∀ a b, t.Accepts .trunc a b ↔ t.Accepts .sext b a
  /-- Floating point numbers are extended exactly where they can be truncated back. -/
  fpext : ∀ a b, t.Accepts .fptrunc a b ↔ t.Accepts .fpext b a
  /-- Signs have no part in the casts between integers and floating point numbers, and there are casts
  in both directions or in none. -/
  fptosi : ∀ a b, t.Accepts .fptoui a b ↔ t.Accepts .fptosi a b
  uitofp : ∀ a b, t.Accepts .fptoui a b ↔ t.Accepts .uitofp b a
  sitofp : ∀ a b, t.Accepts .fptoui a b ↔ t.Accepts .sitofp b a
  /-- A pointer can be made an integer exactly where the integer can be made the pointer. -/
  inttoptr : ∀ a b, t.Accepts .ptrtoint a b ↔ t.Accepts .inttoptr b a
  /-- A cast that changes the size does not go from a type to itself. -/
  irrefl : ∀ {op}, op ∈ CastSide.resizing → ∀ a, ¬ t.Accepts op a a
  /-- Two casts that change the size in the same way can be done at once. -/
  trans : ∀ {op a b c}, op ∈ CastSide.resizing → t.Accepts op a b → t.Accepts op b c →
    t.Accepts op a c
  /-- Bit casts go between types whose values fit in a register, and relate them by an equivalence. -/
  bitcast_single : ∀ {a b}, t.Accepts .bitcast a b →
    (∃ k, t.kind a = .ok k ∧ k.isSingleValue = true) ∧ ∃ k, t.kind b = .ok k ∧ k.isSingleValue = true
  bitcast_refl : ∀ {a k}, t.kind a = .ok k → k.isSingleValue = true → t.Accepts .bitcast a a
  bitcast_symm : ∀ {a b}, t.Accepts .bitcast a b → t.Accepts .bitcast b a
  bitcast_trans : ∀ {a b c}, t.Accepts .bitcast a b → t.Accepts .bitcast b c →
    t.Accepts .bitcast a c
  /-- Any cast goes between vectors exactly where it goes between their elements. -/
  vector : ∀ {op n a b va vb}, t.data va = .ok (.vector a n) → t.data vb = .ok (.vector b n) →
    (t.Accepts op va vb ↔ t.Accepts op a b)

/-- The laws of casts hold in each well-formed table. -/
theorem WellFormed.castLaws (hw : t.WellFormed) : t.CastLaws where
  zext _ _ := accepts_iff_swap CastSide.valid_trunc_eq
  sext _ _ := accepts_iff_swap CastSide.valid_trunc_eq
  fpext _ _ := accepts_iff_swap CastSide.valid_fptrunc_eq
  fptosi _ _ := accepts_iff_of_eq fun _ _ => rfl
  uitofp _ _ := accepts_iff_swap CastSide.valid_fptoui_eq
  sitofp _ _ := accepts_iff_swap CastSide.valid_fptoui_eq
  inttoptr _ _ := accepts_iff_swap CastSide.valid_ptrtoint_eq
  irrefl := by
    intro op hop a h
    obtain ⟨x, y, hx, hy, valid⟩ := accepts_iff.1 h
    rw [hx] at hy
    cases hy
    -- The two sides are the same side, and no resizing cast accepts that.
    rw [CastSide.valid_irrefl hop] at valid
    cases valid
  trans hop h h' := h.trans h' (CastSide.valid_trans hop)
  bitcast_single h :=
    ⟨h.isSingleValue, ((accepts_iff_swap CastSide.bitcast_comm).1 h).isSingleValue⟩
  bitcast_refl := hw.accepts_self
  bitcast_symm := (accepts_iff_swap CastSide.bitcast_comm).1
  bitcast_trans h h' := h.trans h' CastSide.bitcast_trans
  vector ha hb := hw.accepts_vector (data_eq_ok_iff.1 ha) (data_eq_ok_iff.1 hb)

/-- An accepted cast is still accepted in a table that has grown, and one that is not is not. -/
theorem GrowsTo.accepts_iff (grows : t.GrowsTo t') (hw : t.WellFormed) (ha : t.Has a)
    (hb : t.Has b) : t'.Accepts op a b ↔ t.Accepts op a b := by
  obtain ⟨r, hr⟩ := ha.isValidCast hw op hb
  rw [Accepts, Accepts, hr, grows.isValidCast hr]

end TypeTable

/-! ## Requests -/

namespace Context

variable {c c' : Context} {site : Site} {op : Opcode} {value : Value} {a b : Ty}

/-- A cast is built exactly when its operand is alive, its types are accepted and it can be
emitted. -/
theorem buildCast_eq_ok_iff {i : Handle .cast} :
    buildCast site op value b c = .ok i c' ↔
      ∃ hop : op.isCast = true, value ∈ c.graph.live ∧ b.ctx = c.types.ctx ∧
        ∃ a, c.typeOf value = .ok a ∧ c.types.Accepts op a b ∧
          emit site b (.cast ⟨op, hop⟩) [some value] c = .ok i c' := by
  unfold buildCast
  split
  · rename_i hop
    simp only [Run.bind_eq_ok_iff, Run.get_apply, Run.question_eq_ok_iff, Run.guard_eq_ok_iff,
      Run.faulting_eq_ok_iff, check_eq_ok_iff, Graph.mem_live, TypeTable.check_eq_ok_iff]
    -- The steps of the factory are the clauses of the statement, in this order.
    constructor
    · rintro ⟨_, _, h₀, _, _, ⟨alive, rfl⟩, _, _, ⟨known, rfl⟩, a, _, ⟨typed, rfl⟩, _, _,
        ⟨valid, rfl⟩, rfl, emitted⟩
      cases h₀
      exact ⟨hop, alive, known, a, typed, valid, emitted⟩
    · rintro ⟨_, alive, known, a, typed, valid, emitted⟩
      exact ⟨c, c, rfl, (), c, ⟨alive, rfl⟩, (), c, ⟨known, rfl⟩, a, c, ⟨typed, rfl⟩, true, c,
        ⟨valid, rfl⟩, rfl, emitted⟩
  · rename_i hop
    constructor
    · rintro ⟨⟩
    · rintro ⟨cast, -⟩
      exact absurd cast hop

/-- A cast is never to a type without values. -/
theorem ne_void_of_accepts (hs : c.Sound) (h : c.types.Accepts op a b) : b ≠ c.types.void := by
  rintro rfl
  obtain ⟨x, y, -, hy, valid⟩ := TypeTable.accepts_iff.1 h
  have void : c.types.castSide c.types.void = .ok TypeData.void.scalarSide :=
    TypeTable.castSide_scalar (hs.types.primitive rfl) nofun
  rw [void] at hy
  cases hy
  rw [CastSide.valid_void] at valid
  cases valid

/-- A request to cast a live value at a valid point. -/
theorem run_cast_eq_ok_iff (hs : c.Sound) (ht : c.Tidy) (alive : value ∈ c.graph.live)
    (typed : c.typeOf value = .ok a) (valid : site.point.Valid c) :
    (∃ v c', (Request.cast site op value b).run c = .ok (.value v) c') ↔
      c.types.Accepts op a b := by
  constructor
  · rintro ⟨v, c', run⟩
    obtain ⟨i, -, built⟩ := Request.valued_eq_ok run
    obtain ⟨-, -, -, a', typed', accepts, -⟩ := buildCast_eq_ok_iff.1 built
    rw [typed] at typed'
    cases typed'
    exact accepts
  · -- An accepted cast passes every check, and its result is never of type `void`.
    intro accepts
    obtain ⟨x, y, hx, hy, side⟩ := TypeTable.accepts_iff.1 accepts
    have hop := CastSide.isCast_of_valid side
    obtain ⟨d, hd⟩ := TypeTable.has_of_isValidCast accepts
    obtain ⟨i, c', emitted⟩ : ∃ (i : Handle .cast) (c' : Context),
        emit site b (.cast ⟨op, hop⟩) [some value] c = .ok i c' :=
      emit_answered hs ht valid (.inr (ne_void_of_accepts hs accepts))
        (by simpa using Graph.mem_live.1 alive)
    have built := buildCast_eq_ok_iff.2
      ⟨hop, alive, TypeTable.ctx_of_data? hd, a, typed, accepts, emitted⟩
    exact ⟨i.value, c', Run.bind_eq_ok_iff.2 ⟨i, c', built, rfl⟩⟩

/-- The vectors of two types, one asked for after the other. -/
theorem vectorTypes_answered (hc : c.Reachable) {n : Nat} (hn : 1 ≤ n)
    (ha : c.types.PartFits (·.canBeLane) a) (hb : c.types.PartFits (·.canBeLane) b) :
    ∃ va vb c₁ c₂, (Request.vectorType a n).run c = .ok (.type va) c₁ ∧
      (Request.vectorType b n).run c₁ = .ok (.type vb) c₂ ∧ c₂.types.WellFormed ∧
      c.types.GrowsTo c₂.types ∧ c₂.types.data? va = some (.vector a n) ∧
      c₂.types.data? vb = some (.vector b n) := by
  have gets := fun elem => TypeTable.vectorType_gets elem n
  obtain ⟨va, types₁, asked⟩ : ∃ va types₁, TypeTable.vectorType a n c.types = .ok va types₁ :=
    ⟨_, _, (gets a).eq_ok_iff.2 ⟨⟨hn, ha⟩, rfl⟩⟩
  have run : (Request.vectorType a n).run c = .ok (.type va) { c with types := types₁ } :=
    Request.typed_eq_ok_iff.2 ⟨va, types₁, asked, rfl, rfl⟩
  have hc₁ : Reachable { c with types := types₁ } := .answered hc trivial run
  have grows := (gets a).growsTo asked
  obtain ⟨vb, types₂, asked'⟩ : ∃ vb types₂, TypeTable.vectorType b n types₁ = .ok vb types₂ :=
    ⟨_, _, (gets b).eq_ok_iff.2 ⟨⟨hn, hb.mono grows⟩, rfl⟩⟩
  have run' : (Request.vectorType b n).run { c with types := types₁ } =
      .ok (.type vb) { c with types := types₂ } :=
    Request.typed_eq_ok_iff.2 ⟨vb, types₂, asked', rfl, rfl⟩
  have hc₂ : Reachable { c with types := types₂ } := .answered hc₁ trivial run'
  have grows' := (gets b).growsTo asked'
  -- The first vector is still in the table after the second one.
  exact ⟨va, vb, _, _, run, run', hc₂.sound.types, grows.trans grows',
    grows'.structural ((gets a).data? hc.sound.types asked) rfl,
    (gets b).data? hc₁.sound.types asked'⟩

/-- The laws of casts, and what they are about. -/
structure LawfulCasts (c : Context) : Prop where
  /-- At a valid point a request to cast a value succeeds exactly when the cast from its type is
  accepted. -/
  accepted : ∀ {site op value a b}, value ∈ c.graph.live → c.typeOf value = .ok a →
    site.point.Valid c → ((∃ v c', (Request.cast site op value b).run c = .ok (.value v) c') ↔
      c.types.Accepts op a b)
  /-- The types that there are obey the laws. -/
  laws : c.types.CastLaws
  /-- For all types that can be the elements of vectors, and every number of lanes, there are the
  vectors, and a cast goes between them exactly where it goes between the elements. -/
  lifted : ∀ {n a b ka kb}, 1 ≤ n → c.types.kind a = .ok ka → ka.canBeLane = true →
    c.types.kind b = .ok kb → kb.canBeLane = true →
    ∃ va vb c₁ c₂, (Request.vectorType a n).run c = .ok (.type va) c₁ ∧
      (Request.vectorType b n).run c₁ = .ok (.type vb) c₂ ∧
      ∀ op, c₂.types.Accepts op va vb ↔ c.types.Accepts op a b

/-- In every context that a history leads to, casts are lawful. -/
theorem Reachable.casts_lawful (hc : c.Reachable) : c.LawfulCasts := by
  have hs := hc.sound
  constructor
  case accepted =>
    intro site op value a b alive typed valid
    exact run_cast_eq_ok_iff hs hc.tidy alive typed valid
  case laws => exact hs.types.castLaws
  case lifted =>
    intro n a b ka kb hn hka la hkb lb
    have ha := TypeTable.partFits_of_kind hka la
    have hb := TypeTable.partFits_of_kind hkb lb
    obtain ⟨va, vb, c₁, c₂, run, run', hw, grows, hva, hvb⟩ := vectorTypes_answered hc hn ha hb
    refine ⟨va, vb, c₁, c₂, run, run', fun op => ?_⟩
    rw [hw.accepts_vector hva hvb, grows.accepts_iff hs.types ha.has hb.has]

/-- For instance, with vectors of three integers of 8 and of 16 bits, and pointers in two address
spaces. -/
theorem casts_lawful_of_vectors : ∃ c : Context,
    replay [.vectorType ⟨⟨1⟩, 7⟩ 3, .vectorType ⟨⟨1⟩, 8⟩ 3, .pointerType ⟨⟨1⟩, 7⟩ 0,
      .pointerType ⟨⟨1⟩, 8⟩ 1] (.initial ⟨1⟩) = some c ∧
    (c.types.isValidCast .zext ⟨⟨1⟩, 11⟩ ⟨⟨1⟩, 12⟩ = .ok true ∧
      c.types.isValidCast .bitcast ⟨⟨1⟩, 13⟩ ⟨⟨1⟩, 14⟩ = .ok false) ∧ c.LawfulCasts :=
  exists_replay _ _ (by decide +kernel) fun c hc _ =>
    Reachable.casts_lawful (hc.mono fun _ _ _ => trivial)

end Context

end SsaGraph
