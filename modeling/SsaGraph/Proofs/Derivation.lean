import SsaGraph.Proofs.Stratification

/-!
# Vectors derived from vectors

A vector is told by the description of its elements and by their number (`IsVector`): lanes are
numbers and pointers, whose descriptions are unique, and so the vector is. How wide they are is laid
down in `LaneWidth`, format by format. `Applies`, `elements` and `lanes` say in these terms when a
derivation leads somewhere and where it leads, and `derivation_makes` that this is what the request
for it does. The laws of the derivations are then laws of numbers.

Handles are compared across time. A vector stays what it is, so when the vector that a derivation
leads to is already there, at whatever time and for whatever reason, the request answers with it and
enters nothing (`leadsTo_of_isVector`).
-/

namespace SsaGraph

/-- How many bits wide the elements of a vector are. A pointer has no width. -/
inductive LaneWidth : TypeData → Nat → Prop
  | half : LaneWidth .half 16
  | float : LaneWidth .float 32
  | double : LaneWidth .double 64
  | integer (bits : Nat) : LaneWidth (.integer bits) bits
  | pointer (pointee : Ty) (space : Nat) : LaneWidth (.pointer pointee space) 0

namespace LaneWidth

variable {d : TypeData} {w : Nat}

/-- The width that is computed for a lane is its width. -/
theorem scalarBits_eq (h : LaneWidth d w) : d.scalarBits = w := by
  cases h <;> rfl

/-- What has such a width can be in a vector. -/
theorem canBeLane (h : LaneWidth d w) : d.kind.canBeLane = true := by
  cases h <;> rfl

/-- What can be in a vector has a width. -/
theorem of_canBeLane (h : d.kind.canBeLane = true) : ∃ w, LaneWidth d w := by
  cases d with
  | half => exact ⟨16, .half⟩
  | float => exact ⟨32, .float⟩
  | double => exact ⟨64, .double⟩
  | integer bits => exact ⟨bits, .integer bits⟩
  | pointer pointee space => exact ⟨0, .pointer pointee space⟩
  | _ => cases h

end LaneWidth

namespace VectorDerivation

/-- Something is derived from a vector of `n` elements that are `w` bits wide. -/
def Applies (w n : Nat) : VectorDerivation → Prop
  | integer => 0 < w
  | extended => 0 < w ∧ 2 * w ≤ 2 ^ 24 - 1
  | truncated => 0 < w ∧ w % 2 = 0
  | halved => n % 2 = 0
  | doubled => 2 * n < 2 ^ 32

/-- How wide the elements are of that which is derived. -/
def width (w : Nat) : VectorDerivation → Nat
  | extended => 2 * w
  | truncated => w / 2
  | _ => w

/-- What the elements are of that which is derived from elements `d` that are `w` bits wide. -/
def elements (w : Nat) (d : TypeData) : VectorDerivation → TypeData
  | integer => .integer w
  | extended => .integer (2 * w)
  | truncated => .integer (w / 2)
  | halved | doubled => d

/-- How many elements there are in that which is derived. -/
def lanes (n : Nat) : VectorDerivation → Nat
  | halved => n / 2
  | doubled => 2 * n
  | _ => n

/-- What has been widened can be narrowed, to the width it had. -/
theorem Applies.narrow {w n : Nat} (h : extended.Applies w n) :
    truncated.Applies (2 * w) n ∧ 2 * w / 2 = w := by
  obtain ⟨positive, -⟩ := h
  exact ⟨⟨by omega, by omega⟩, by omega⟩

/-- What has been narrowed can be widened, to the width it had. -/
theorem Applies.widen {w n : Nat} (h : truncated.Applies w n) (small : w ≤ 2 ^ 24 - 1) :
    extended.Applies (w / 2) n ∧ 2 * (w / 2) = w := by
  obtain ⟨positive, even⟩ := h
  exact ⟨⟨by omega, by omega⟩, by omega⟩

/-- What has been doubled can be halved, to as many lanes as before. -/
theorem applies_halved {w n : Nat} : halved.Applies w (2 * n) ∧ 2 * n / 2 = n :=
  ⟨Nat.mul_mod_right 2 n, Nat.mul_div_cancel_left n Nat.two_pos⟩

/-- What has been halved can be doubled, to as many lanes as before. -/
theorem Applies.double {w n : Nat} (h : halved.Applies w n) (few : n < 2 ^ 32) :
    doubled.Applies w (n / 2) ∧ 2 * (n / 2) = n := by
  have whole : 2 * (n / 2) = n := Nat.mul_div_cancel' (Nat.dvd_of_mod_eq_zero h)
  refine ⟨?_, whole⟩
  show 2 * (n / 2) < 2 ^ 32
  omega

end VectorDerivation

namespace TypeTable

variable {t t' : TypeTable} {v ty elem : Ty} {d : TypeData} {w n : Nat} {how : VectorDerivation}

/-! ## Vectors in a table -/

/-- The type is a vector of `n` elements with the description `d`, which are `w` bits wide. -/
def IsVector (t : TypeTable) (ty : Ty) (d : TypeData) (w n : Nat) : Prop :=
  LaneWidth d w ∧ ∃ elem, t.data? ty = some (.vector elem n) ∧ t.data? elem = some d

/-- Lanes are entered once. -/
theorem structural_of_canBeLane (h : d.kind.canBeLane = true) : d.isNominal = false := by
  cases d with
  | identified => cases h
  | _ => rfl

/-- There is no vector without elements. -/
theorem IsVector.positive (h : t.IsVector ty d w n) (hw : t.WellFormed) : 0 < n := by
  obtain ⟨-, elem, hv, -⟩ := h
  exact (hw.admits hv).1

/-- A vector stays what it is. -/
theorem IsVector.grow (h : t.IsVector ty d w n) (grows : t.GrowsTo t') : t'.IsVector ty d w n := by
  obtain ⟨width, elem, hv, he⟩ := h
  exact ⟨width, elem, grows.structural hv rfl,
    grows.structural he (structural_of_canBeLane width.canBeLane)⟩

/-- The elements of a vector are no wider than integers can be. -/
theorem IsVector.width_le (h : t.IsVector ty d w n) (hw : t.WellFormed) : w ≤ maxIntBits := by
  obtain ⟨width, elem, -, he⟩ := h
  have small := (hw.admits he).scalarBits_lt
  rw [width.scalarBits_eq] at small
  unfold maxIntBits
  omega

/-! ## Requests for vectors -/

/-- The request is granted, with the one vector of `n` elements with the description `d`; if the
table has it, the request changes nothing. -/
structure Makes (m : Run TypeTable Ty) (t : TypeTable) (d : TypeData) (w n : Nat) : Prop where
  /-- The request is granted. -/
  answered : ∃ ty t', m t = .ok ty t'
  /-- The answer is such a vector. -/
  isVector : ∀ {ty t'}, m t = .ok ty t' → t'.IsVector ty d w n
  /-- A vector that is there is the answer. -/
  present : ∀ {ty}, t.IsVector ty d w n → m t = .ok ty t

/-- Requests that run alike make the same. -/
theorem Makes.congr {m m' : Run TypeTable Ty} (h : Makes m t d w n) (same : m' t = m t) :
    Makes m' t d w n := by
  refine ⟨?_, fun run => ?_, fun there => same.trans (h.present there)⟩
  · rw [same]
    exact h.answered
  · exact h.isVector (same.symm.trans run)

/-- A vector of a type that is there is made by the request for it. -/
theorem vectorType_makes (hw : t.WellFormed) (hn : 0 < n) (he : t.data? elem = some d)
    (width : LaneWidth d w) : Makes (vectorType elem n) t d w n := by
  have gets := vectorType_gets elem n
  have structural := structural_of_canBeLane width.canBeLane
  refine ⟨⟨_, _, gets.eq_ok_iff.2 ⟨⟨hn, d, he, width.canBeLane⟩, rfl⟩⟩, fun run => ?_,
    fun {ty} h => ?_⟩
  · exact ⟨width, elem, gets.data? hw run, (gets.growsTo run).structural he structural⟩
  · -- The elements of the vector that is there are the same type, as lanes are entered once.
    obtain ⟨-, elem', hv, he'⟩ := h
    obtain rfl := hw.canonical he he' structural
    exact gets.eq_ok_iff.2 ⟨hw.admits hv, intern_of_mem hw rfl hv⟩

/-- The vector is asked for in a table that has got the integers. -/
theorem integers_make (hw : t.WellFormed) (hn : 0 < n) {bits : Nat} (least : minIntBits ≤ bits)
    (most : bits ≤ maxIntBits) :
    Makes (do vectorType (← integerType bits) n) t (.integer bits) bits n := by
  have gets := integerType_gets bits
  have next : ∀ {int t₁}, integerType bits t = .ok int t₁ →
      Makes (vectorType int n) t₁ (.integer bits) bits n := by
    intro int t₁ run
    obtain ⟨admits, entered⟩ := gets.eq_ok_iff.1 run
    have hw₁ : (t.intern (.integer bits)).2.WellFormed := (Change.enter rfl admits).wellFormed hw
    rw [entered] at hw₁
    exact vectorType_makes hw₁ hn (gets.data? hw run) (.integer bits)
  -- The request for the vector follows one for its element, and both are granted.
  refine ⟨?_, fun {ty t'} run => ?_, fun {ty} h => ?_⟩
  · obtain ⟨int, t₁, run⟩ : ∃ int t₁, integerType bits t = .ok int t₁ :=
      ⟨_, _, gets.eq_ok_iff.2 ⟨⟨least, most⟩, rfl⟩⟩
    obtain ⟨ty, t', run'⟩ := (next run).answered
    exact ⟨ty, t', Run.bind_eq_ok_iff.2 ⟨int, t₁, run, run'⟩⟩
  · obtain ⟨int, t₁, first, second⟩ := Run.bind_eq_ok_iff.1 run
    exact (next first).isVector second
  · -- With the vector its elements are there, so neither request enters anything.
    obtain ⟨width, elem, hv, he⟩ := h
    have asked : integerType bits t = .ok elem t :=
      gets.eq_ok_iff.2 ⟨⟨least, most⟩, intern_of_mem hw rfl he⟩
    exact Run.bind_eq_ok_iff.2 ⟨elem, t, asked, (next asked).present ⟨width, elem, hv, he⟩⟩

/-! ## Derivations -/

/-- The parts of a vector are answered as they are. -/
theorem vectorShape_eq (hv : t.data? v = some (.vector elem n)) (he : t.data? elem = some d)
    (width : LaneWidth d w) : t.vectorShape v = .ok (elem, w, n) := by
  simp only [vectorShape, Question.bind_eq_ok_iff, check_eq_ok_iff, Question.lift_eq_ok_iff,
    data_eq_ok_iff]
  refine ⟨(), ctx_of_data? hv, _, hv, Question.bind_eq_ok_iff.2
    ⟨d, Question.lift_eq_ok_iff.2 (data_eq_ok_iff.2 he), ?_⟩⟩
  rw [width.scalarBits_eq]
  rfl

/-- A request that starts by reading the parts of a vector goes on with them. -/
theorem shape_bind {f : Ty × Nat × Nat → Run TypeTable Ty}
    (shape : t.vectorShape v = .ok (elem, w, n)) :
    (do let parts ← (← get).vectorShape v; f parts : Run TypeTable Ty) t = f (elem, w, n) t := by
  simp only [Run.bind_apply, Run.get_apply, Run.question_apply, shape]

/-- A derivation that applies is a request for the vector that it leads to. -/
theorem derivation_makes (hw : t.WellFormed) (h : t.IsVector v d w n) (applies : how.Applies w n) :
    Makes (how.run v) t (how.elements w d) (how.width w) (how.lanes n) := by
  have hn := h.positive hw
  have small := h.width_le hw
  obtain ⟨width, elem, hv, he⟩ := h
  have shape := vectorShape_eq hv he width
  -- Each derivation asks for the parts, passes its own check, and asks for the vector.
  cases how with
  | integer =>
    have positive : 0 < w := applies
    refine (integers_make hw hn positive small).congr ((shape_bind shape).trans ?_)
    exact congrFun (if_pos (by omega)) t
  | extended =>
    obtain ⟨positive, most⟩ := applies
    refine (integers_make hw hn (by unfold minIntBits; omega) most).congr
      ((shape_bind shape).trans ?_)
    rw [Nat.mul_comm]
  | truncated =>
    obtain ⟨positive, even⟩ := applies
    refine (integers_make hw hn (by unfold minIntBits; omega) (by omega)).congr
      ((shape_bind shape).trans ?_)
    exact congrFun (if_pos even) t
  -- The lanes change while the elements stay, so the type of the elements is not asked for.
  | halved =>
    have even : n % 2 = 0 := applies
    have makes : Makes (vectorType elem (n / 2)) t d w (n / 2) :=
      vectorType_makes hw (by omega) he width
    refine makes.congr ((shape_bind shape).trans ?_)
    exact congrFun (if_pos even) t
  | doubled =>
    have less : n * 2 < laneLimit := Nat.mul_comm n 2 ▸ applies
    have makes : Makes (vectorType elem (n * 2)) t d w (n * 2) :=
      vectorType_makes hw (by omega) he width
    rw [VectorDerivation.lanes, Nat.mul_comm]
    refine makes.congr ((shape_bind shape).trans ?_)
    exact congrFun (if_pos less) t

/-- A request for a vector of integers is granted only for a width that integers have. -/
theorem width_of_integers {bits : Nat}
    (run : (do vectorType (← integerType bits) n : Run TypeTable Ty) t = .ok ty t') :
    0 < bits ∧ bits ≤ 2 ^ 24 - 1 := by
  obtain ⟨int, t₁, asked, -⟩ := Run.bind_eq_ok_iff.1 run
  exact ((integerType_gets _).eq_ok_iff.1 asked).1

/-- A request that is granted is for a derivation that applies. -/
theorem applies_of_run (h : t.IsVector v d w n) (run : how.run v t = .ok ty t') :
    how.Applies w n := by
  obtain ⟨width, elem, hv, he⟩ := h
  have shape := vectorShape_eq hv he width
  -- The check of the derivation, or that of the integer it asks for, is the condition.
  cases how with
  | integer =>
    obtain ⟨nonzero, -⟩ := Run.guard_eq_ok_iff.1 ((shape_bind shape).symm.trans run)
    exact Nat.pos_of_ne_zero nonzero
  | extended =>
    obtain ⟨least, most⟩ := width_of_integers ((shape_bind shape).symm.trans run)
    -- The width is an integer's, so it is positive and doubling it stays in range.
    exact ⟨by omega, by omega⟩
  | truncated =>
    obtain ⟨even, run⟩ := Run.guard_eq_ok_iff.1 ((shape_bind shape).symm.trans run)
    obtain ⟨least, -⟩ := width_of_integers run
    exact ⟨by omega, even⟩
  | halved =>
    obtain ⟨even, -⟩ := Run.guard_eq_ok_iff.1 ((shape_bind shape).symm.trans run)
    exact even
  | doubled =>
    obtain ⟨less, -⟩ := Run.guard_eq_ok_iff.1 ((shape_bind shape).symm.trans run)
    show 2 * n < laneLimit
    omega

end TypeTable

namespace Context

variable {c c₁ c₂ : Context} {v ty elem : Ty} {d : TypeData} {w n : Nat}
  {how first second whole : VectorDerivation}

/-! ## Derivations over time -/

/-- The vector `ty` is derived from `v`. -/
def LeadsTo (c : Context) (how : VectorDerivation) (v ty : Ty) (c' : Context) : Prop :=
  (Request.deriveVector how v).run c = .ok (.type ty) c'

/-- A derivation changes the type table only. -/
theorem leadsTo_iff : c.LeadsTo how v ty c₁ ↔
    ∃ types, how.run v c.types = .ok ty types ∧ c₁ = { c with types } := by
  refine Request.typed_eq_ok_iff.trans ⟨?_, ?_⟩
  · rintro ⟨_, types, run, ⟨⟩, rfl⟩
    exact ⟨types, run, rfl⟩
  · rintro ⟨types, run, rfl⟩
    exact ⟨ty, types, run, rfl, rfl⟩

/-- A vector is the same at all later times. -/
theorem Later.isVector (later : c.Later c₁) (hc : c.Reachable) (h : c.types.IsVector v d w n) :
    c₁.types.IsVector v d w n :=
  h.grow (growsTo_of_chain (later.chain hc))

/-- A derivation is granted where it applies. -/
theorem exists_leadsTo_iff (hc : c.Reachable) (h : c.types.IsVector v d w n) :
    (∃ ty c', c.LeadsTo how v ty c') ↔ how.Applies w n := by
  constructor
  · rintro ⟨ty, c', run⟩
    obtain ⟨types, run, -⟩ := leadsTo_iff.1 run
    exact TypeTable.applies_of_run h run
  · intro applies
    obtain ⟨ty, types, run⟩ := (TypeTable.derivation_makes hc.sound.types h applies).answered
    exact ⟨ty, _, leadsTo_iff.2 ⟨types, run, rfl⟩⟩

/-- What is derived is what the derivation leads to, then and later. -/
theorem LeadsTo.isVector (run : c.LeadsTo how v ty c₁) (hc : c.Reachable)
    (h : c.types.IsVector v d w n) (later : c₁.Later c₂) :
    how.Applies w n ∧ c₂.Reachable ∧ c₂.types.IsVector v d w n ∧
      c₂.types.IsVector ty (how.elements w d) (how.width w) (how.lanes n) := by
  have hc₁ : c₁.Reachable := .answered hc trivial run
  have stays := (Later.answered .now run).isVector hc h
  have applies := (exists_leadsTo_iff hc h).1 ⟨ty, c₁, run⟩
  obtain ⟨types, asked, rfl⟩ := leadsTo_iff.1 run
  have made := (TypeTable.derivation_makes hc.sound.types h applies).isVector asked
  exact ⟨applies, later.reachable hc₁, later.isVector hc₁ stays, later.isVector hc₁ made⟩

/-- A vector that is there is not derived anew. -/
theorem leadsTo_of_isVector (hc : c.Reachable) (h : c.types.IsVector v d w n)
    (applies : how.Applies w n)
    (there : c.types.IsVector ty (how.elements w d) (how.width w) (how.lanes n)) :
    c.LeadsTo how v ty c :=
  leadsTo_iff.2 ⟨c.types, (TypeTable.derivation_makes hc.sound.types h applies).present there, rfl⟩

/-- Two derivations, one after the other, lead to where a third leads at once, whatever is asked for
before, between and after them. -/
structure Composes (c : Context) (v : Ty) (first second whole : VectorDerivation) : Prop where
  /-- When the two have led somewhere, the third answers with that. -/
  last : ∀ {ty c₁ c₂}, c.LeadsTo first v ty c₁ → c₁.Later c₂ →
    ∃ ty' c₃, c₂.LeadsTo second ty ty' c₃ ∧ ∀ {c₄}, c₃.Later c₄ → c₄.LeadsTo whole v ty' c₄
  /-- When the third has led somewhere, the two answer with that. -/
  before : ∀ {ty ty' c₁ c₂ c₃ c₄}, c.LeadsTo whole v ty' c₁ → c₁.Later c₂ →
    c₂.LeadsTo first v ty c₃ → c₃.Later c₄ → c₄.LeadsTo second ty ty' c₄

/-- Two derivations lead to where a third leads if they lead to elements of the same description and
width, and to as many. -/
theorem composes_of_shapes (hc : c.Reachable) (h : c.types.IsVector v d w n)
    (same : first.Applies w n →
      second.Applies (first.width w) (first.lanes n) ∧ whole.Applies w n ∧
      second.elements (first.width w) (first.elements w d) = whole.elements w d ∧
      second.width (first.width w) = whole.width w ∧
      second.lanes (first.lanes n) = whole.lanes n) : c.Composes v first second whole := by
  -- One direction finds the second step and the other one is given it.
  constructor
  · intro ty c₁ c₂ run later
    obtain ⟨applies, hc₂, hv, hty⟩ := run.isVector hc h later
    -- What the two steps make has the same shape as what the one step makes.
    obtain ⟨applies', applies'', elements, width, lanes⟩ := same applies
    obtain ⟨ty', c₃, run'⟩ := (exists_leadsTo_iff hc₂ hty).2 applies'
    refine ⟨ty', c₃, run', fun {c₄} later' => ?_⟩
    obtain ⟨-, hc₄, -, hty'⟩ := run'.isVector hc₂ hty later'
    rw [elements, width, lanes] at hty'
    have hv' := ((Later.answered .now run').trans later').isVector hc₂ hv
    exact leadsTo_of_isVector hc₄ hv' applies'' hty'
  · intro ty ty' c₁ c₂ c₃ c₄ run later run' later'
    obtain ⟨-, hc₂, hv, hty'⟩ := run.isVector hc h later
    obtain ⟨applies, hc₄, -, hty⟩ := run'.isVector hc₂ hv later'
    obtain ⟨applies', -, elements, width, lanes⟩ := same applies
    refine leadsTo_of_isVector hc₄ hty applies' ?_
    rw [elements, width, lanes]
    exact ((Later.answered .now run').trans later').isVector hc₂ hty'

/-- Whenever one derivation has led somewhere, another leads back. -/
def Restores (c : Context) (v : Ty) (first second : VectorDerivation) : Prop :=
  ∀ {ty c₁ c₂}, c.LeadsTo first v ty c₁ → c₁.Later c₂ → c₂.LeadsTo second ty v c₂

/-- One derivation leads back from another if it restores the elements, their width and number. -/
theorem restores_of_shapes (hc : c.Reachable) (h : c.types.IsVector v d w n)
    (back : first.Applies w n →
      second.Applies (first.width w) (first.lanes n) ∧
      second.elements (first.width w) (first.elements w d) = d ∧
      second.width (first.width w) = w ∧ second.lanes (first.lanes n) = n) :
    c.Restores v first second := by
  intro ty c₁ c₂ run later
  obtain ⟨applies, hc₂, hv, hty⟩ := run.isVector hc h later
  obtain ⟨applies', elements, width, lanes⟩ := back applies
  refine leadsTo_of_isVector hc₂ hty applies' ?_
  rw [elements, width, lanes]
  exact hv

/-! ## The laws -/

/-- The laws of the derivations from `v`, a vector of `n` times `elem`, which has the description
`d` and is `w` bits wide. -/
structure VectorLaws (c : Context) (v elem : Ty) (d : TypeData) (w n : Nat) : Prop where
  /-- What is asked for is granted where it exists. -/
  answered : ∀ how : VectorDerivation, (∃ ty c', c.LeadsTo how v ty c') ↔ how.Applies w n
  /-- It is a vector with the scaled width or number of elements. -/
  scaled : ∀ {how : VectorDerivation} {ty c'}, c.LeadsTo how v ty c' →
    ∃ e, c'.types.data ty = .ok (.vector e (how.lanes n)) ∧
      c'.types.data e = .ok (how.elements w d) ∧ LaneWidth (how.elements w d) (how.width w) ∧
      (how.elements w d = d → e = elem)
  /-- The integers of a vector of integers are the vector. -/
  idempotent : ∀ {ty c₁ c₂}, c.LeadsTo .integer v ty c₁ → c₁.Later c₂ →
    c₂.LeadsTo .integer ty ty c₂
  /-- Extended and then truncated, the elements are integers of their own width. -/
  narrows_back : c.Composes v .extended .truncated .integer
  /-- Truncated and then extended, the elements are integers of their own width. -/
  widens_back : c.Composes v .truncated .extended .integer
  /-- Half of the doubled vector is the vector. -/
  halves_back : c.Restores v .doubled .halved
  /-- The doubled half of the vector is the vector. -/
  doubles_back : c.Restores v .halved .doubled
  /-- A vector of integers is its own vector of integers. -/
  integers : ∀ {bits}, d = .integer bits → c.LeadsTo .integer v v c ∧
    c.Restores v .extended .truncated ∧ c.Restores v .truncated .extended

/-- A derivation that was granted led to a vector with the scaled width or number of elements. -/
theorem LeadsTo.scaled {elem : Ty} (run : c.LeadsTo how v ty c₁) (hc : c.Reachable)
    (hv : c.types.data? v = some (.vector elem n)) (he : c.types.data? elem = some d)
    (width : LaneWidth d w) :
    ∃ e, c₁.types.data ty = .ok (.vector e (how.lanes n)) ∧
      c₁.types.data e = .ok (how.elements w d) ∧ LaneWidth (how.elements w d) (how.width w) ∧
      (how.elements w d = d → e = elem) := by
  have h : c.types.IsVector v d w n := ⟨width, elem, hv, he⟩
  have structural := TypeTable.structural_of_canBeLane width.canBeLane
  obtain ⟨-, hc₁, -, width', e, hty, hd⟩ := run.isVector hc h .now
  refine ⟨e, TypeTable.data_eq_ok_iff.2 hty, TypeTable.data_eq_ok_iff.2 hd, width',
    fun same => ?_⟩
  -- The old elements are still in the table, and lanes are entered once.
  have stays := (growsTo_of_chain ((Later.answered .now run).chain hc)).structural he structural
  rw [same] at hd
  exact hc₁.sound.types.canonical hd stays structural

/-- The laws hold of a vector whose elements have the given description and width. -/
theorem vectorLaws_of_data? (hc : c.Reachable) (few : n < laneLimit)
    (hv : c.types.data? v = some (.vector elem n)) (he : c.types.data? elem = some d)
    (width : LaneWidth d w) : c.VectorLaws v elem d w n := by
  have h : c.types.IsVector v d w n := ⟨width, elem, hv, he⟩
  have small : w ≤ 2 ^ 24 - 1 := h.width_le hc.sound.types
  constructor
  case answered => exact fun how => exists_leadsTo_iff hc h
  case scaled => exact fun run => run.scaled hc hv he width
  case idempotent =>
    intro ty c₁ c₂ run later
    -- The derived vector is itself a vector of this derivation's shape, so it leads to itself.
    obtain ⟨applies, hc₂, -, hty⟩ := run.isVector hc h later
    exact leadsTo_of_isVector hc₂ hty applies hty
  -- Narrowing what was widened, and the other way round, leads back to the integers of the old
  -- width.
  case narrows_back =>
    refine composes_of_shapes hc h fun applies => ?_
    obtain ⟨applies', same⟩ := applies.narrow
    exact ⟨applies', applies.1, congrArg TypeData.integer same, same, rfl⟩
  case widens_back =>
    refine composes_of_shapes hc h fun applies => ?_
    obtain ⟨applies', same⟩ := applies.widen small
    exact ⟨applies', applies.1, congrArg TypeData.integer same, same, rfl⟩
  case halves_back =>
    refine restores_of_shapes hc h fun _ => ?_
    obtain ⟨applies', same⟩ := VectorDerivation.applies_halved
    exact ⟨applies', rfl, rfl, same⟩
  case doubles_back =>
    refine restores_of_shapes hc h fun applies => ?_
    obtain ⟨applies', same⟩ := applies.double few
    exact ⟨applies', rfl, rfl, same⟩
  -- If the elements are integers already, what comes back is the vector itself.
  case integers =>
    rintro bits rfl
    cases width
    have positive : 0 < w := (hc.sound.types.admits he).1
    refine ⟨leadsTo_of_isVector hc h positive h, ?_, ?_⟩
    · refine restores_of_shapes hc h fun applies => ?_
      obtain ⟨applies', same⟩ := applies.narrow
      exact ⟨applies', congrArg TypeData.integer same, same, rfl⟩
    · refine restores_of_shapes hc h fun applies => ?_
      obtain ⟨applies', same⟩ := applies.widen small
      exact ⟨applies', congrArg TypeData.integer same, same, rfl⟩

/-- For every vector it is decided by the width of its elements and by their number which vectors
can be derived from it; these are as they should be, and steps there and back again lead to the same
handle. -/
theorem ReachedBy.vectors_lawful (hc : ReachedBy (fun _ r => r.LanesFit) c)
    (hv : c.types.data v = .ok (.vector elem n)) :
    ∃ d w, c.types.data elem = .ok d ∧ LaneWidth d w ∧ c.types.primitiveBits elem = .ok w ∧
      c.VectorLaws v elem d w n := by
  have hv := TypeTable.data_eq_ok_iff.1 hv
  obtain ⟨-, d, he, lane⟩ := hc.sound.types.admits hv
  obtain ⟨w, width⟩ := LaneWidth.of_canBeLane lane
  refine ⟨d, w, TypeTable.data_eq_ok_iff.2 he, width, ?_, ?_⟩
  · rw [← width.scalarBits_eq]
    refine TypeTable.primitiveBits_eq_ok he fun vector => ?_
    rw [vector] at lane
    cases lane
  · exact vectorLaws_of_data? (hc.mono fun _ _ _ => trivial) (hc.lanesFit.lt hv) hv he width

/-- For instance, from a vector of six pointers, and from one of four halves that was extended. -/
theorem vectors_lawful_of_pointers_and_halves : ∃ c,
    replay [.pointerType ⟨⟨1⟩, 6⟩ 0, .vectorType ⟨⟨1⟩, 11⟩ 6, .vectorType ⟨⟨1⟩, 1⟩ 4,
      .deriveVector .extended ⟨⟨1⟩, 13⟩] (.initial ⟨1⟩) = some c ∧
    (c.types.data ⟨⟨1⟩, 12⟩ = .ok (.vector ⟨⟨1⟩, 11⟩ 6) ∧
      c.types.data ⟨⟨1⟩, 13⟩ = .ok (.vector ⟨⟨1⟩, 1⟩ 4)) ∧
    (∃ d w, c.types.data ⟨⟨1⟩, 11⟩ = .ok d ∧ LaneWidth d w ∧
      c.types.primitiveBits ⟨⟨1⟩, 11⟩ = .ok w ∧ c.VectorLaws ⟨⟨1⟩, 12⟩ ⟨⟨1⟩, 11⟩ d w 6) ∧
    ∃ d w, c.types.data ⟨⟨1⟩, 1⟩ = .ok d ∧ LaneWidth d w ∧
      c.types.primitiveBits ⟨⟨1⟩, 1⟩ = .ok w ∧ c.VectorLaws ⟨⟨1⟩, 13⟩ ⟨⟨1⟩, 1⟩ d w 4 := by
  refine exists_reached (fun _ r => r.LanesFit) _ ⟨1⟩ (fun _ r hr _ => ?_) (by decide +kernel)
    fun c hc seen => ⟨ReachedBy.vectors_lawful hc seen.1, ReachedBy.vectors_lawful hc seen.2⟩
  revert r
  simp [Request.LanesFit, laneLimit]

end Context

end SsaGraph
