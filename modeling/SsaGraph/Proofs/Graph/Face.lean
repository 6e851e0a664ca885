import SsaGraph.Proofs.Graph.Change

/-!
# Faces of values

The face of a value is what the rest of a context knows it by: its type, its name and its kind.
Operands and uses are not part of it, so the requests that only point operand slots elsewhere leave
all faces as they are (`Still`). The other changes of a graph are told in one line each: a value
comes (`Gains`), a value goes (`Loses`), or a face is exchanged for one that is alike (`Resembles`).
-/

namespace SsaGraph

/-- A value apart from its operands and its uses. -/
structure Face where
  /-- The type. -/
  ty : Ty
  /-- The name, if the value has one. -/
  name : Option String
  /-- What the value is. -/
  kind : ValueKind

/-- The faces differ at most in the name, unless the value is a function, or in the marks of a
call. -/
inductive Face.Alike : Face → Face → Prop
  | refl (x : Face) : Alike x x
  | rename {ty : Ty} {name name' : Option String} {kind : ValueKind}
    (other : Class.function.contains kind = false) : Alike ⟨ty, name, kind⟩ ⟨ty, name', kind⟩
  | remark {ty : Ty} {name : Option String} {fnType : Ty} {marker marker' : TailCall}
    {conv conv' : CallingConv} :
    Alike ⟨ty, name, .instruction (.call fnType marker conv)⟩
      ⟨ty, name, .instruction (.call fnType marker' conv')⟩

namespace Face.Alike

variable {x y : Face}

/-- Being alike is symmetric. -/
theorem symm (h : Alike x y) : Alike y x := by
  cases h with
  | refl => exact .refl x
  | rename other => exact .rename other
  | remark => exact .remark

/-- Alike faces are in the same classes. -/
theorem contains_eq (h : Alike x y) (cls : Class) : cls.contains y.kind = cls.contains x.kind := by
  cases h with
  | refl => rfl
  | rename => rfl
  | remark => cases cls <;> rfl

/-- Alike faces have the same type. -/
theorem ty_eq (h : Alike x y) : y.ty = x.ty := by
  cases h <;> rfl

/-- A function keeps all of its face. -/
theorem eq_of_function (h : Alike x y) (hx : Class.function.contains x.kind = true) : y = x := by
  cases h with
  | refl => rfl
  | rename other =>
    rw [show Class.function.contains _ = true from hx] at other
    cases other
  | remark => cases hx

/-- What is no instruction keeps its kind. -/
theorem kind_eq (h : Alike x y) (hx : x.kind.isUser = false) : y.kind = x.kind := by
  cases h with
  | refl => rfl
  | rename => rfl
  | remark => cases hx

end Face.Alike

/-- The classes of which each value belongs to one. -/
def Class.sorts : List Class := [.argument, .block, .function, .constant, .instruction]

/-- The one of them that values of a kind belong to. -/
def ValueKind.sort : ValueKind → Class
  | argument _ _ => .argument
  | block => .block
  | function _ _ => .function
  | constant _ => .constant
  | instruction _ => .instruction

/-- A kind is of one sort only. -/
theorem Class.sort_eq_of_contains {cls : Class} {k : ValueKind} (sort : cls ∈ sorts)
    (h : cls.contains k = true) : k.sort = cls := by
  simp only [sorts, List.mem_cons, List.not_mem_nil, or_false] at sort
  rcases sort with rfl | rfl | rfl | rfl | rfl <;> cases k <;> first | rfl | cases h

/-- Of the sorts only that of instructions has users. -/
theorem Class.isUser_of_contains {cls : Class} {k : ValueKind} (sort : cls ∈ sorts)
    (other : cls ≠ .instruction) (h : cls.contains k = true) : k.isUser = false := by
  have hk := sort_eq_of_contains sort h
  cases k with
  | instruction op => exact absurd hk.symm other
  | _ => rfl

namespace Graph

variable {g g' g'' : Graph} {v w : Value}

/-- The face of a live value. -/
def face? (g : Graph) (v : Value) : Option Face := (g.value? v).map fun d => ⟨d.ty, d.name, d.kind⟩

/-- The value is alive and of the class. -/
def Has (g : Graph) (cls : Class) (v : Value) : Prop :=
  ∃ x, g.face? v = some x ∧ cls.contains x.kind = true

/-- The face of a live value. -/
theorem face?_of_value? {d : ValueData} (h : g.value? v = some d) :
    g.face? v = some ⟨d.ty, d.name, d.kind⟩ := by
  rw [face?, h]
  rfl

/-- What has a face is alive. -/
theorem value?_of_face? {x : Face} (h : g.face? v = some x) :
    ∃ d, g.value? v = some d ∧ x = ⟨d.ty, d.name, d.kind⟩ := by
  obtain ⟨d, hd, rfl⟩ := Option.map_eq_some_iff.1 h
  exact ⟨d, hd, rfl⟩

/-- What is not alive has no face, and the converse. -/
theorem face?_eq_none_iff : g.face? v = none ↔ g.value? v = none := Option.map_eq_none_iff

/-- The face is what the node shows apart from the operands. -/
theorem face?_eq_node? (g : Graph) (v : Value) :
    g.face? v = (g.node? v).map fun n => ⟨n.ty, n.name, n.kind⟩ := by
  unfold face? node? bare?
  cases g.value? v <;> rfl

/-- A value has a class exactly when it is alive with a kind of the class. -/
theorem has_iff {cls : Class} :
    g.Has cls v ↔ ∃ d, g.value? v = some d ∧ cls.contains d.kind = true := by
  constructor
  · rintro ⟨x, hx, hcls⟩
    obtain ⟨d, hd, rfl⟩ := value?_of_face? hx
    exact ⟨d, hd, hcls⟩
  · rintro ⟨d, hd, hcls⟩
    exact ⟨_, face?_of_value? hd, hcls⟩

/-- A value of a class is alive. -/
theorem Has.value? {cls : Class} (h : g.Has cls v) : ∃ d, g.value? v = some d := by
  obtain ⟨d, hd, -⟩ := has_iff.1 h
  exact ⟨d, hd⟩

/-- A value has one sort only. -/
theorem Has.sort_eq {a b : Class} (ha : g.Has a v) (hb : g.Has b v) (sa : a ∈ Class.sorts)
    (sb : b ∈ Class.sorts) : a = b := by
  obtain ⟨x, hx, hax⟩ := ha
  obtain ⟨y, hy, hby⟩ := hb
  rw [hx] at hy
  cases hy
  exact (Class.sort_eq_of_contains sa hax).symm.trans (Class.sort_eq_of_contains sb hby)

/-- What is of one sort is not of another. -/
theorem Has.apart {a b : Class} (ha : g.Has a v)
    (other : a ∈ Class.sorts ∧ b ∈ Class.sorts ∧ a ≠ b) : ¬ g.Has b v :=
  fun hb => other.2.2 (ha.sort_eq hb other.1 other.2.1)

/-! ## Changes -/

/-- All values keep their faces. -/
structure Still (g g' : Graph) : Prop where
  /-- The graph belongs to the same context. -/
  ctx : g'.ctx = g.ctx
  /-- The faces are the same. -/
  face : ∀ v, g'.face? v = g.face? v

/-- All values keep their faces or get similar ones. -/
def Resembles (g g' : Graph) : Prop := ∀ v, Option.Rel Face.Alike (g.face? v) (g'.face? v)

/-- Values come, and the others keep their faces: `P v x` says that `v` comes with the face `x`. -/
structure Gains (g g' : Graph) (P : Value → Face → Prop) : Prop where
  /-- What comes was not there. -/
  new : ∀ {v x}, P v x → g.face? v = none
  /-- What is there then was there or comes. -/
  face : ∀ {v x}, g'.face? v = some x ↔ g.face? v = some x ∨ P v x

/-- One value comes. -/
abbrev GainsOne (g g' : Graph) (v : Value) (x : Face) : Prop :=
  g.Gains g' fun w y => w = v ∧ y = x

/-- Values go, and the others keep their faces. -/
def Loses (g g' : Graph) (gone : List Value) : Prop :=
  ∀ v, g'.face? v = if v ∈ gone then none else g.face? v

namespace Resembles

/-- Resembling is symmetric. -/
theorem symm (h : g.Resembles g') : g'.Resembles g := by
  intro v
  have hv := h v
  cases hx : g.face? v <;> cases hy : g'.face? v <;> rw [hx, hy] at hv
  · exact .none
  · cases hv
  · cases hv
  · obtain ⟨hv⟩ := hv
    exact .some hv.symm

/-- A value keeps its face or gets a similar one. -/
theorem face (h : g.Resembles g') {x : Face} (hx : g.face? v = some x) :
    ∃ y, g'.face? v = some y ∧ x.Alike y := by
  have hv := h v
  rw [hx] at hv
  cases hy : g'.face? v <;> rw [hy] at hv
  · cases hv
  · obtain ⟨hv⟩ := hv
    exact ⟨_, rfl, hv⟩

/-- A value keeps its classes. -/
theorem has {cls : Class} (h : g.Resembles g') (hv : g.Has cls v) : g'.Has cls v := by
  obtain ⟨x, hx, hcls⟩ := hv
  obtain ⟨y, hy, alike⟩ := h.face hx
  exact ⟨y, hy, (alike.contains_eq cls).trans hcls⟩

end Resembles

/-- A graph whose faces stay resembles itself. -/
theorem Still.resembles (h : g.Still g') : g.Resembles g' := by
  intro v
  rw [h.face]
  cases g.face? v with
  | none => exact .none
  | some x => exact .some (.refl x)

namespace Gains

variable {P : Value → Face → Prop}

/-- A value that was there keeps its face. -/
theorem keep (h : g.Gains g' P) {x : Face} (hx : g.face? v = some x) : g'.face? v = some x :=
  h.face.2 (.inl hx)

/-- A value has a class if it had it or has come with it. -/
theorem has_iff {cls : Class} (h : g.Gains g' P) :
    g'.Has cls v ↔ g.Has cls v ∨ ∃ x, P v x ∧ cls.contains x.kind = true := by
  simp only [Has, h.face, or_and_right, exists_or]

/-- What comes in two steps comes in both together. -/
theorem trans {Q : Value → Face → Prop} (h : g.Gains g' P) (h' : g'.Gains g'' Q) :
    g.Gains g'' fun w x => P w x ∨ Q w x := by
  refine ⟨?_, by simp only [h'.face, h.face, or_assoc, implies_true]⟩
  rintro w x (hp | hq)
  · exact h.new hp
  · cases hw : g.face? w with
    | none => rfl
    | some y =>
      have hy := h.keep hw
      rw [h'.new hq] at hy
      cases hy

/-- What comes depends on which values come with which faces. -/
theorem congr {Q : Value → Face → Prop} (h : g.Gains g' P) (same : ∀ {w x}, Q w x ↔ P w x) :
    g.Gains g' Q :=
  ⟨fun hq => h.new (same.1 hq), by simp only [h.face, same, implies_true]⟩

/-- One of the values that come is given another face. -/
theorem amend {x y : Face} (h : g.Gains g' fun w z => w = v ∧ z = x ∨ P w z)
    (other : ∀ z, ¬ P v z) (face : ∀ w, g''.face? w = if w = v then some y else g'.face? w) :
    g.Gains g'' fun w z => w = v ∧ z = y ∨ P w z := by
  have new : g.face? v = none := h.new (.inl ⟨rfl, rfl⟩)
  refine ⟨?_, fun {w z} => ?_⟩
  · rintro w z (⟨rfl, rfl⟩ | hp)
    · exact new
    · exact h.new (.inr hp)
  · rw [face]
    by_cases hw : w = v
    · subst hw
      simp [new, other, eq_comm]
    · simp [hw, h.face]

end Gains

/-- While nothing happens, nothing comes. -/
theorem gains_nothing (g : Graph) : g.Gains g fun _ _ => False := ⟨nofun, by simp⟩

/-- One value comes in a place that was free. -/
theorem gainsOne_of_face {x : Face} (new : g.face? v = none)
    (face : ∀ w, g'.face? w = if w = v then some x else g.face? w) : g.GainsOne g' v x := by
  refine ⟨?_, fun {w y} => ?_⟩
  · rintro w y ⟨rfl, rfl⟩
    exact new
  · rw [face]
    by_cases hw : w = v
    · simp [hw, new, eq_comm]
    · simp [hw]

namespace Loses

variable {gone : List Value}

/-- A value has a face if it had it and has not gone. -/
theorem face?_eq_some_iff (h : g.Loses g' gone) {x : Face} :
    g'.face? v = some x ↔ v ∉ gone ∧ g.face? v = some x := by
  rw [h v]
  by_cases hv : v ∈ gone <;> simp [hv]

/-- A value has a class if it had it and has not gone. -/
theorem has_iff {cls : Class} (h : g.Loses g' gone) :
    g'.Has cls v ↔ v ∉ gone ∧ g.Has cls v := by
  simp only [Has, h.face?_eq_some_iff, and_assoc, exists_and_left]

end Loses

/-! ## Operands and uses -/

/-- The face is part of the data that are not about uses. -/
theorem face?_eq_bare? (g : Graph) (v : Value) :
    g.face? v = (g.bare? v).map fun d => ⟨d.ty, d.name, d.kind⟩ := by
  unfold face? bare?
  cases g.value? v <;> rfl

/-- The faces stay if the data apart from the uses do. -/
theorem still_of_bare? (hctx : g'.ctx = g.ctx) (hb : ∀ v, g'.bare? v = g.bare? v) :
    g.Still g' := by
  refine ⟨hctx, fun v => ?_⟩
  rw [face?_eq_bare?, face?_eq_bare?, hb]

/-- A reduction loses the values it removes. -/
theorem Reduced.loses {emptied : List Use} {gone : List Value} (h : g.Reduced g' emptied gone) :
    g.Loses g' gone := by
  intro v
  rw [face?_eq_bare?, face?_eq_bare?, h.bare]
  split <;> rfl

/-- The faces stay while nothing happens. -/
theorem Still.refl (g : Graph) : g.Still g := ⟨rfl, fun _ => rfl⟩

/-- If the faces stay twice, they stay. -/
theorem Still.trans (h : g.Still g') (h' : g'.Still g'') : g.Still g'' :=
  ⟨h'.ctx.trans h.ctx, fun v => (h'.face v).trans (h.face v)⟩

/-- The faces stay over a chain of such steps. -/
theorem still_of_chain (h : Relation.ReflTransGen Still g g') : g.Still g' := by
  induction h with
  | refl => exact .refl g
  | tail _ h ih => exact ih.trans h

/-- The faces stay if a value is changed elsewhere. -/
theorem still_modifyValue (v : Value) {f : ValueData → ValueData}
    (keep : ∀ d, (f d).ty = d.ty ∧ (f d).name = d.name ∧ (f d).kind = d.kind) :
    g.Still (g.modifyValue v f) := by
  refine ⟨ctx_modifyValue .., fun w => ?_⟩
  unfold face?
  rw [value?_modifyValue]
  split
  · subst w
    cases g.value? v <;> simp [keep]
  · rfl

/-- Detaching an edge keeps the faces. -/
theorem detach_still (u : Use) (g : Graph) : Run.Steps Still (detach u) g := by
  intro a g' h
  obtain ⟨-, rfl⟩ := detach_ok h
  exact .single (still_of_bare? (ctx_clear ..) (bare?_clear g u))

/-- Attaching an edge keeps the faces. -/
theorem attach_still (u : Use) (v : Value) (g : Graph) : Run.Steps Still (attach u v) g := by
  intro a g' h
  obtain ⟨-, -, rfl⟩ := attach_ok h
  exact .single (still_of_bare? (ctx_link ..) (bare?_link g u v))

/-- A walk over the uses keeps the faces if each round does. -/
theorem whileUsed_still {v : Value} {round : Use → Run Graph Unit}
    (hround : ∀ u g, Run.Steps Still (round u) g) (bound : Nat) (g : Graph) :
    Run.Steps Still (whileUsed v round bound) g := by
  induction bound generalizing g with
  | zero => exact .pure
  | succ bound ih =>
    refine .get_bind (.ask_fault fun d _ => ?_)
    split
    · exact .pure
    · exact .bind (hround _ g) fun _ g' _ => ih g'

/-- Dropping all uses keeps the faces. -/
theorem dropAllUses_still (v : Value) (g : Graph) : Run.Steps Still (dropAllUses v) g :=
  .get_bind (.ask_fault fun _ _ => whileUsed_still (fun u g => detach_still u g) _ g)

/-- Dropping the operands keeps the faces. -/
theorem dropAllReferences_still (v : Value) (g : Graph) :
    Run.Steps Still (dropAllReferences v) g :=
  .get_bind (.ask_fault fun d _ => .forM d.operands (fun u _ g => detach_still u g) g)

/-- Replacing all uses keeps the faces. -/
theorem replaceAllUses_still (old new : Value) (g : Graph) :
    Run.Steps Still (replaceAllUses old new) g := by
  unfold replaceAllUses
  split
  · exact .pure
  · refine .get_bind (.ask_fault fun d _ => .get_bind (.ask_fault fun _ _ => .guard fun _ => ?_))
    exact whileUsed_still (fun u g => .bind (detach_still u g) fun _ g' _ => attach_still u new g') _ g

/-- Setting an operand keeps the faces. -/
theorem setOperand_still (user : Value) (index : Nat) (target : Option Value) (g : Graph) :
    Run.Steps Still (setOperand user index target) g := by
  refine .get_bind (.ask_fault fun d _ => .guard fun _ => ?_)
  split
  · exact .reject
  · refine .bind (detach_still _ g) fun _ g' _ => ?_
    split
    · exact attach_still _ _ g'
    · exact .pure

/-- Adding an operand keeps the faces. -/
theorem pushOperand_still (user target : Value) (g : Graph) :
    Run.Steps Still (pushOperand user target) g := by
  refine .get_bind (.ask_fault fun d _ => .guard fun _ => ?_)
  refine .bind (fun u g₁ h => ?_) fun u g₁ _ => .bind (fun _ g₂ h => ?_) fun _ g₂ _ =>
    attach_still u target g₂
  · cases h
    exact .single (still_of_bare? (ctx_allocate ..) (bare?_allocate g user _))
  · cases h
    exact .single (still_modifyValue user fun _ => ⟨rfl, rfl, rfl⟩)

/-! ## Values that come and go -/

/-- A new value comes with its face. -/
theorem gains_push (g : Graph) (ty : Ty) (name : Option String) (kind : ValueKind) :
    g.GainsOne (g.push ⟨ty, name, kind, [], none, 0⟩).2 ⟨g.ctx, g.values.size⟩
      ⟨ty, name, kind⟩ := by
  refine gainsOne_of_face (face?_eq_none_iff.2 (value?_next g)) fun w => ?_
  rw [face?_eq_node?, face?_eq_node?, node?_create]
  split <;> rfl

/-- A new user comes with the face of its instruction. -/
theorem newUser_gains {ty : Ty} {op : Operation} {name : Option String}
    {operands : List (Option Value)} (hc : g.Coherent)
    (h : newUser ty op name operands g = .ok v g') :
    g.GainsOne g' v ⟨ty, name, .instruction op⟩ := by
  obtain ⟨-, -, rfl, node⟩ := newUser_ok hc h
  refine gainsOne_of_face (face?_eq_none_iff.2 (value?_next g)) fun w => ?_
  rw [face?_eq_node?, face?_eq_node?, node]
  split <;> rfl

/-- A change of one value's face. -/
theorem face?_modifyValue (g : Graph) (v w : Value) (f : ValueData → ValueData) :
    (g.modifyValue v f).face? w =
      if w = v then (g.value? v).map fun d => ⟨(f d).ty, (f d).name, (f d).kind⟩
      else g.face? w := by
  unfold face?
  rw [value?_modifyValue]
  split
  · rw [Option.map_map]
    rfl
  · rfl

/-- The face of one value is exchanged for one that is alike. -/
theorem resembles_modifyValue {f : ValueData → ValueData}
    (alike : ∀ d, g.value? v = some d →
      Face.Alike ⟨d.ty, d.name, d.kind⟩ ⟨(f d).ty, (f d).name, (f d).kind⟩) :
    g.Resembles (g.modifyValue v f) := by
  intro w
  rw [face?_modifyValue]
  split
  · subst w
    cases hd : g.value? v with
    | none =>
      rw [face?_eq_none_iff.2 hd]
      exact .none
    | some d =>
      rw [face?_of_value? hd]
      exact .some (alike d hd)
  · exact (Still.refl g).resembles w

end Graph

end SsaGraph
