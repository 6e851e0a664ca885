import Mathlib.Data.List.Perm.Subperm
import SsaGraph.Proofs.Stratification

/-!
# Sized types

Which types are sized is given by rules (`Sized`): numbers, pointers and vectors are, an array is if
its elements are, and a struct with a body is if all its fields are. Nothing else is. A type inlines
another if values of the one hold values of the other in themselves, as array elements or fields. By
the rules, what is sized inlines sized types only, and does not inline itself, not even through
others (`Sized.not_cyclic`).

`isSized` searches through the inlined types and gives up at a struct that is on its path. This is
right because the types on the path all inline, through one another, the type that is searched
(`sizedIn_settles`). The search ends because a struct can be on the path once only, and because the
element type of an array comes before it in the table.
-/

namespace SsaGraph

namespace TypeData

variable {d : TypeData}

/-- The types that values of the described type hold in themselves. -/
def inlined : TypeData → List Ty
  | array elem _ => [elem]
  | literal body => body.fields
  | identified _ (some body) => body.fields
  | _ => []

/-- Numbers, pointers and vectors. -/
def IsSingle (d : TypeData) : Prop :=
  d.kind = .integer ∨ d.kind.isFloatingPoint = true ∨ d.kind = .pointer ∨ d.kind = .vector

/-- The fields of a struct are laid out in it. -/
theorem inlined_of_body {body : StructBody} (h : d.body? = some body) : d.inlined = body.fields := by
  cases d with
  | literal _ =>
    cases h
    rfl
  | identified _ _ =>
    cases h
    rfl
  | _ => cases h

/-- A type that is of one piece has nothing laid out in it. -/
theorem inlined_of_single (h : d.IsSingle) : d.inlined = [] := by
  cases d <;> simp_all [IsSingle, kind, TypeKind.isFloatingPoint, inlined]

/-- What is laid out in a type is one of its parts. -/
theorem mem_contained_of_inlined {part : Ty} (h : part ∈ d.inlined) : part ∈ d.contained := by
  unfold inlined at h
  split at h
  · exact h
  · exact h
  · exact h
  · cases h

end TypeData

namespace TypeTable

open Relation (TransGen ReflTransGen)

variable {t t' : TypeTable} {ty : Ty} {d : TypeData}

/-! ## The rules -/

/-- The types that are sized. -/
inductive Sized (t : TypeTable) : Ty → Prop
  /-- Integers, floating point numbers, pointers and vectors are sized. -/
  | single {ty : Ty} {d : TypeData} (data : t.data? ty = some d) (single : d.IsSingle) : Sized t ty
  /-- An array is sized if its elements are. -/
  | array {ty elem : Ty} {len : Nat} (data : t.data? ty = some (.array elem len))
    (sized : Sized t elem) : Sized t ty
  /-- A struct with a body is sized if its fields are. -/
  | struct {ty : Ty} {d : TypeData} {body : StructBody} (data : t.data? ty = some d)
    (hbody : d.body? = some body) (sized : ∀ field ∈ body.fields, Sized t field) : Sized t ty

/-- Values of type `a` hold values of type `b` in themselves. -/
def Inlines (t : TypeTable) (a b : Ty) : Prop := ∃ d, t.data? a = some d ∧ b ∈ d.inlined

namespace Sized

/-- Which rule a type is sized by depends on its description. -/
theorem cases_data (h : t.Sized ty) (data : t.data? ty = some d) :
    d.IsSingle ∨ (∃ elem len, d = .array elem len ∧ t.Sized elem) ∨
      ∃ body, d.body? = some body ∧ ∀ field ∈ body.fields, t.Sized field := by
  cases h with
  | single data' single =>
    obtain rfl := Option.some.inj (data'.symm.trans data)
    exact .inl single
  | array data' sized =>
    obtain rfl := Option.some.inj (data'.symm.trans data)
    exact .inr (.inl ⟨_, _, rfl, sized⟩)
  | struct data' hbody sized =>
    obtain rfl := Option.some.inj (data'.symm.trans data)
    exact .inr (.inr ⟨_, hbody, sized⟩)

/-- What a sized type inlines is sized. -/
theorem inlines (h : t.Sized ty) {part : Ty} (step : t.Inlines ty part) : t.Sized part := by
  obtain ⟨d, data, hpart⟩ := step
  rcases h.cases_data data with single | ⟨elem, len, rfl, sized⟩ | ⟨body, hbody, sized⟩
  · rw [TypeData.inlined_of_single single] at hpart
    cases hpart
  · obtain rfl := List.mem_singleton.1 hpart
    exact sized
  · rw [TypeData.inlined_of_body hbody] at hpart
    exact sized part hpart

/-- What is laid out in a sized type, at any depth, is sized. -/
theorem reaches (h : t.Sized ty) {w : Ty} (path : ReflTransGen t.Inlines ty w) : t.Sized w := by
  induction path with
  | refl => exact h
  | tail _ step ih => exact ih.inlines step

/-- A sized type does not hold itself. -/
theorem not_cyclic (h : t.Sized ty) : ¬ TransGen t.Inlines ty ty := by
  -- A cycle through a type is a cycle through the next type on it, and so on down the derivation.
  have turn : ∀ {a : Ty}, TransGen t.Inlines a a → ∃ b, t.Inlines a b ∧ TransGen t.Inlines b b := by
    intro a cycle
    obtain ⟨b, step, rest⟩ := TransGen.head'_iff.1 cycle
    exact ⟨b, step, TransGen.tail' rest step⟩
  intro cycle
  induction h with
  | single data single =>
    obtain ⟨b, ⟨d, hd, hb⟩, -⟩ := turn cycle
    obtain rfl : _ = d := Option.some.inj (data.symm.trans hd)
    rw [TypeData.inlined_of_single single] at hb
    cases hb
  | array data _ ih =>
    obtain ⟨b, ⟨d, hd, hb⟩, again⟩ := turn cycle
    obtain rfl : _ = d := Option.some.inj (data.symm.trans hd)
    obtain rfl := List.mem_singleton.1 hb
    exact ih again
  | struct data hbody _ ih =>
    obtain ⟨b, ⟨d, hd, hb⟩, again⟩ := turn cycle
    obtain rfl : _ = d := Option.some.inj (data.symm.trans hd)
    rw [TypeData.inlined_of_body hbody] at hb
    exact ih b hb again

/-- A struct without a body is not sized. -/
theorem ne_bodyless (h : t.Sized ty) (name : Option String) :
    t.data? ty ≠ some (.identified name none) := by
  intro data
  rcases h.cases_data data with single | ⟨_, _, heq, -⟩ | ⟨_, hbody, -⟩
  · simp [TypeData.IsSingle, TypeData.kind, TypeKind.isFloatingPoint] at single
  · cases heq
  · cases hbody

/-- A type stays sized when the table grows: only structs without a body change their fields. -/
theorem mono (grows : t.GrowsTo t') (h : t.Sized ty) : t'.Sized ty := by
  induction h with
  | single data single =>
    obtain ⟨d', data', becomes⟩ := grows.data data
    refine .single data' ?_
    rw [TypeData.IsSingle, becomes.kind_eq]
    exact single
  | array data _ ih => exact .array (grows.structural data rfl) ih
  | @struct ty d body data hbody _ ih =>
    obtain ⟨d', data', becomes⟩ := grows.data data
    refine .struct data' ?_ ih
    -- A struct may get its name changed, but a body that is there stays.
    cases becomes with
    | refl => exact hbody
    | struct _ _ keep =>
      rcases keep with rfl | rfl
      · cases hbody
      · exact hbody

end Sized

/-! ## The search -/

/-- From this path, the search comes to an end with the path as it was. It answers yes only if
`sound` is true, and does so if `enough` is. -/
def Settles (search : StateT (List Ty) Option Bool) (path : List Ty) (sound enough : Prop) : Prop :=
  ∃ b, search path = some (b, path) ∧ (b = true → sound) ∧ (enough → b = true)

/-- A search through all the types of a list, which stops at the first that is not sized. -/
theorem settles_allM {f : Ty → StateT (List Ty) Option Bool} {path : List Ty} {P Q : Ty → Prop}
    {tys : List Ty} (h : ∀ w ∈ tys, Settles (f w) path (P w) (Q w)) :
    Settles (tys.allM f) path (∀ w ∈ tys, P w) (∀ w ∈ tys, Q w) := by
  induction tys with
  | nil => exact ⟨true, rfl, fun _ _ => nofun, fun _ => rfl⟩
  | cons w tys ih =>
    obtain ⟨b, run, sound, enough⟩ := h w List.mem_cons_self
    -- The search stops at the first type that is not sized, with the path restored.
    have first : (w :: tys).allM f path = if b then tys.allM f path else some (false, path) := by
      show (f w path).bind _ = _
      rw [run]
      cases b <;> rfl
    rw [Settles, first]
    cases b with
    | false =>
      exact ⟨false, rfl, nofun, fun hq => enough (hq w List.mem_cons_self)⟩
    | true =>
      obtain ⟨b, run, sound', enough'⟩ := ih fun v hv => h v (List.mem_cons_of_mem _ hv)
      refine ⟨b, run, fun hb => ?_, fun hq => enough' fun v hv => hq v (List.mem_cons_of_mem _ hv)⟩
      exact List.forall_mem_cons.2 ⟨sound rfl, sound' hb⟩

section Step

variable {depth : Nat} {path : List Ty}

/-- A type that is of one piece is sized at once. -/
theorem sizedIn_single (data : t.data? ty = some d) (single : d.IsSingle) :
    t.sizedIn (depth + 1) ty path = some (true, path) := by
  simp only [sizedIn, data]
  cases d <;> simp [TypeData.IsSingle, TypeData.kind, TypeKind.isFloatingPoint] at single <;> rfl

/-- An array is searched in place of its elements. -/
theorem sizedIn_array {elem : Ty} {len : Nat} (data : t.data? ty = some (.array elem len)) :
    t.sizedIn (depth + 1) ty path = t.sizedIn depth elem path := by
  simp only [sizedIn, data]
  rfl

/-- A struct is on the path while its fields are searched. -/
theorem sizedIn_struct {body : StructBody} (data : t.data? ty = some d)
    (hbody : d.body? = some body) :
    t.sizedIn (depth + 1) ty path =
      if ty ∈ path then some (false, path)
      else (body.fields.allM (t.sizedIn depth) (ty :: path)).map fun (b, path') =>
        (b, path'.erase ty) := by
  -- Both sorts of structs are searched alike.
  have visit : t.sizedIn (depth + 1) ty path = (do
      if ty ∈ (← get) then return false
      modify (ty :: ·)
      let sized ← body.fields.allM (t.sizedIn depth)
      modify (·.erase ty)
      return sized : StateT (List Ty) Option Bool) path := by
    simp only [sizedIn, data]
    cases d with
    | literal _ =>
      cases hbody
      rfl
    | identified _ _ =>
      cases hbody
      rfl
    | _ => cases hbody
  rw [visit]
  show (if ty ∈ path then (pure false : StateT (List Ty) Option Bool) else _) path = _
  split
  · rfl
  · show (body.fields.allM (t.sizedIn depth) (ty :: path)).bind _ = _
    cases body.fields.allM (t.sizedIn depth) (ty :: path) <;> rfl

/-- Any other type is not sized. -/
theorem sizedIn_other (data : t.data? ty = some d) (single : ¬ d.IsSingle)
    (array : ∀ elem len, d ≠ .array elem len) (hbody : d.body? = none) :
    t.sizedIn (depth + 1) ty path = some (false, path) := by
  simp only [sizedIn, data]
  cases d with
  | array elem len => exact absurd rfl (array elem len)
  | literal _ => cases hbody
  | identified _ body =>
    cases hbody
    rfl
  | void | label | metadata | function => rfl
  | _ => simp [TypeData.IsSingle, TypeData.kind, TypeKind.isFloatingPoint] at single

end Step

/-- The structs on the path are types of the table, each there once. -/
structure IsPath (t : TypeTable) (path : List Ty) : Prop where
  nodup : path.Nodup
  has : ∀ w ∈ path, t.Has w

/-- A path is extended by a new type. -/
theorem IsPath.cons {path : List Ty} (h : t.IsPath path) (has : t.Has ty) (new : ty ∉ path) :
    t.IsPath (ty :: path) :=
  ⟨List.nodup_cons.2 ⟨new, h.nodup⟩, List.forall_mem_cons.2 ⟨has, h.has⟩⟩

/-- A path is not longer than the table. -/
theorem IsPath.length_le {path : List Ty} (h : t.IsPath path) : path.length ≤ t.size := by
  -- Handles of one table differ only by their indexes.
  have distinct : (path.map Ty.index).Nodup := by
    refine h.nodup.map_on fun a ha b hb heq => ?_
    obtain ⟨_, hda⟩ := h.has a ha
    obtain ⟨_, hdb⟩ := h.has b hb
    obtain ⟨ca, ia⟩ := a
    obtain ⟨cb, ib⟩ := b
    exact congrArg₂ Ty.mk ((ctx_of_data? hda).trans (ctx_of_data? hdb).symm) heq
  have below : path.map Ty.index ⊆ List.range t.size := by
    intro i hi
    obtain ⟨w, hw, rfl⟩ := List.mem_map.1 hi
    obtain ⟨_, hd⟩ := h.has w hw
    exact List.mem_range.2 (index_lt_of_data? hd)
  simpa using (List.subperm_of_subset distinct below).length_le

/-- How much further a search from this path can go. -/
def remaining (t : TypeTable) (path : List Ty) (ty : Ty) : Nat :=
  (t.size - path.length) * t.size + ty.index

/-- The search goes down when a struct is put on the path, whatever the fields are. -/
theorem remaining_cons {path : List Ty} {field : Ty} (h : t.IsPath (ty :: path))
    (has : t.Has field) : t.remaining (ty :: path) field < t.remaining path ty := by
  obtain ⟨_, hd⟩ := has
  have below : field.index < t.size := index_lt_of_data? hd
  have room : t.size - path.length = t.size - (ty :: path).length + 1 := by
    have := h.length_le
    rw [List.length_cons] at this ⊢
    omega
  unfold remaining
  rw [room, Nat.add_mul]
  omega

/-- A search that may go as deep as it has to ends with the path as it was. It finds sized only what
is sized; and it finds whatever is sized if the path leads to it. -/
theorem sizedIn_settles (hw : t.WellFormed) (ho : t.Ordered) {depth : Nat} {path : List Ty}
    (has : t.Has ty) (hpath : t.IsPath path) (deep : t.remaining path ty < depth) :
    Settles (t.sizedIn depth ty) path (t.Sized ty)
      ((∀ w ∈ path, TransGen t.Inlines w ty) ∧ t.Sized ty) := by
  -- On the way down arrays go to smaller indexes and structs make the path longer, so the depth
  -- suffices.
  induction depth generalizing ty path with
  | zero => omega
  | succ depth ih =>
    obtain ⟨d, data⟩ := has
    have parts : ∀ part ∈ d.inlined, t.Has part ∧ t.Inlines ty part := fun part hpart =>
      ⟨(hw.admits data).has_contained part (TypeData.mem_contained_of_inlined hpart),
        d, data, hpart⟩
    by_cases single : d.IsSingle
    · exact ⟨true, sizedIn_single data single, fun _ => .single data single, fun _ => rfl⟩
    by_cases array : ∃ elem len, d = .array elem len
    · obtain ⟨elem, len, rfl⟩ := array
      obtain ⟨has, step⟩ := parts elem List.mem_cons_self
      have lower : elem.index < ty.index := ho.lt data rfl elem List.mem_cons_self
      obtain ⟨b, run, sound, enough⟩ := ih has hpath (by unfold remaining at deep ⊢; omega)
      refine ⟨b, ?_, fun hb => .array data (sound hb), fun h => enough ⟨fun w hw => ?_, ?_⟩⟩
      · rw [sizedIn_array data, run]
      · exact (h.1 w hw).tail step
      · exact h.2.inlines step
    cases hbody : d.body? with
    | none =>
      refine ⟨false, sizedIn_other data single (by simpa using array) hbody, nofun, ?_⟩
      rintro ⟨-, sized⟩
      rcases sized.cases_data data with h | ⟨elem, len, rfl, -⟩ | ⟨_, h, -⟩
      · exact absurd h single
      · exact absurd ⟨elem, len, rfl⟩ array
      · rw [hbody] at h
        cases h
    | some body =>
      rw [TypeData.inlined_of_body hbody] at parts
      by_cases hmem : ty ∈ path
      · -- A struct that is met again is on a cycle, so it is not sized.
        refine ⟨false, by rw [sizedIn_struct data hbody, if_pos hmem], nofun, ?_⟩
        rintro ⟨leads, sized⟩
        exact absurd (leads ty hmem) sized.not_cyclic
      · have hpath' : t.IsPath (ty :: path) := hpath.cons ⟨d, data⟩ hmem
        obtain ⟨b, run, sound, enough⟩ := settles_allM fun field hfield =>
          ih (parts field hfield).1 hpath'
            (Nat.lt_of_lt_of_le (remaining_cons hpath' (parts field hfield).1) (Nat.le_of_lt_succ deep))
        refine ⟨b, ?_, fun hb => .struct data hbody (sound hb), fun h => enough ?_⟩
        · rw [sizedIn_struct data hbody, if_neg hmem, run]
          simp
        · intro field hfield
          obtain ⟨-, step⟩ := parts field hfield
          refine ⟨List.forall_mem_cons.2 ⟨.single step, fun w hw => ?_⟩, h.2.inlines step⟩
          exact (h.1 w hw).tail step

/-! ## The answer -/

/-- The question is answered, by whether the type is sized, and more depth does not change the
answer. -/
theorem isSized_eq (hw : t.WellFormed) (ho : t.Ordered) (has : t.Has ty) :
    ∃ b, t.isSized ty = .ok b ∧ (b = true ↔ t.Sized ty) ∧
      ∀ depth, t.sizedDepth ≤ depth → t.sizedIn depth ty [] = some (b, []) := by
  obtain ⟨d, data⟩ := has
  -- The given depth suffices for an empty path, and so does any greater one.
  have settles : ∀ depth, t.sizedDepth ≤ depth →
      ∃ b, t.sizedIn depth ty [] = some (b, []) ∧ (b = true ↔ t.Sized ty) := by
    intro depth le
    have below : ty.index < t.size := index_lt_of_data? data
    have deep : t.remaining [] ty < depth := by
      unfold remaining
      unfold sizedDepth at le
      rw [Nat.mul_succ] at le
      rw [List.length_nil, Nat.sub_zero]
      omega
    have start : t.IsPath [] := ⟨.nil, nofun⟩
    obtain ⟨b, run, sound, enough⟩ := sizedIn_settles hw ho ⟨d, data⟩ start deep
    exact ⟨b, run, sound, fun sized => enough ⟨nofun, sized⟩⟩
  -- The answer is the one at exactly that depth.
  obtain ⟨b, run, hb⟩ := settles _ (Nat.le_refl _)
  refine ⟨b, ?_, hb, fun depth le => ?_⟩
  · refine Question.bind_eq_ok_iff.2 ⟨d, data_eq_ok_iff.2 data, ?_⟩
    rw [run]
    rfl
  · obtain ⟨b', run', hb'⟩ := settles depth le
    rw [run', Bool.eq_iff_iff.2 (hb'.trans hb.symm)]

/-- `isSized` decides which types are sized. -/
structure DecidesSized (t : TypeTable) : Prop where
  /-- The search comes to an end, with the path empty again, and it would find nothing else if it
  could go deeper. -/
  ends : ∀ {ty d}, t.data ty = .ok d → ∃ b, t.isSized ty = .ok b ∧
    ∀ depth, t.sizedDepth ≤ depth → t.sizedIn depth ty [] = some (b, [])
  /-- The answer is yes for the types that the rules make sized. -/
  sized : ∀ {ty d}, t.data ty = .ok d → (t.isSized ty = .ok true ↔ t.Sized ty)
  /-- What is or holds a struct without a body is unsized, and so is what is or holds a type that
  holds itself. -/
  unsized : ∀ {ty d w}, t.data ty = .ok d → ReflTransGen t.Inlines ty w →
    (∃ name, t.data w = .ok (.identified name none)) ∨ TransGen t.Inlines w w →
    t.isSized ty = .ok false

/-- In a table in order the search decides which types are sized. -/
theorem WellFormed.decidesSized (hw : t.WellFormed) (ho : t.Ordered) : t.DecidesSized := by
  constructor
  · intro ty d data
    obtain ⟨b, answer, -, ends⟩ := isSized_eq hw ho ⟨d, data_eq_ok_iff.1 data⟩
    exact ⟨b, answer, ends⟩
  · intro ty d data
    obtain ⟨b, answer, hb, -⟩ := isSized_eq hw ho ⟨d, data_eq_ok_iff.1 data⟩
    rw [answer, Except.ok.injEq, hb]
  · intro ty d w data path reached
    obtain ⟨b, answer, hb, -⟩ := isSized_eq hw ho ⟨d, data_eq_ok_iff.1 data⟩
    have unsized : ¬ t.Sized ty := by
      intro sized
      rcases reached with ⟨name, bodyless⟩ | cycle
      · exact (sized.reaches path).ne_bodyless name (data_eq_ok_iff.1 bodyless)
      · exact (sized.reaches path).not_cyclic cycle
    rw [answer, Bool.eq_false_iff.2 fun h => unsized (hb.1 h)]

/-- A type that is found sized is found sized when the table has grown. -/
theorem GrowsTo.isSized (grows : t.GrowsTo t') (hw : t.WellFormed) (ho : t.Ordered)
    (hw' : t'.WellFormed) (ho' : t'.Ordered) (h : t.isSized ty = .ok true) :
    t'.isSized ty = .ok true := by
  obtain ⟨d, data, -⟩ := Question.bind_eq_ok_iff.1 h
  obtain ⟨d', data', -⟩ := grows.data (data_eq_ok_iff.1 data)
  have sized : t.Sized ty := ((hw.decidesSized ho).sized data).1 h
  exact ((hw'.decidesSized ho').sized (data_eq_ok_iff.2 data')).2 (sized.mono grows)

end TypeTable

namespace Context

variable {c : Context}

/-- In every context, however the bodies of its structs refer to each other, `isSized` decides which
types are sized; and a type that is sized stays so, whatever requests follow. -/
theorem Reachable.decides_sized (hc : c.Reachable) :
    c.types.DecidesSized ∧
      ∀ c', c.Later c' → ∀ ty, c.types.isSized ty = .ok true → c'.types.isSized ty = .ok true := by
  refine ⟨hc.sound.types.decidesSized hc.ordered, fun c' later ty sized => ?_⟩
  have hc' : c'.Reachable := later.reachable hc
  exact (growsTo_of_chain (later.chain hc)).isSized hc.sound.types hc.ordered hc'.sound.types
    hc'.ordered sized

/-- For instance, when two structs hold each other, the one in an array, and a third holds a struct
without a body. -/
theorem decides_sized_after_recursion : ∃ c,
    replay [.createStruct (some "a"), .createStruct (some "b"), .arrayType ⟨⟨1⟩, 11⟩ 4,
      .setStructBody ⟨⟨1⟩, 11⟩ [⟨⟨1⟩, 9⟩, ⟨⟨1⟩, 12⟩] false,
      .setStructBody ⟨⟨1⟩, 12⟩ [⟨⟨1⟩, 13⟩] false, .createStruct none,
      .literalStruct [⟨⟨1⟩, 14⟩] false, .literalStruct [⟨⟨1⟩, 9⟩] false]
      (.initial ⟨1⟩) = some c ∧
    (c.types.isSized ⟨⟨1⟩, 11⟩ = .ok false ∧ c.types.isSized ⟨⟨1⟩, 13⟩ = .ok false ∧
      c.types.isSized ⟨⟨1⟩, 15⟩ = .ok false ∧ c.types.isSized ⟨⟨1⟩, 16⟩ = .ok true) ∧
    c.types.DecidesSized ∧
      ∀ c', c.Later c' → ∀ ty, c.types.isSized ty = .ok true → c'.types.isSized ty = .ok true :=
  exists_replay _ _ (by decide +kernel) fun _ hc _ =>
    Reachable.decides_sized (hc.mono fun _ _ _ => trivial)

end Context

end SsaGraph
