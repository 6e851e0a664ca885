import Mathlib.Algebra.Group.Nat.Defs
import SsaGraph.Proofs.Constant.Integer
import SsaGraph.Proofs.Course
import SsaGraph.Proofs.Mirror

/-!
# The pool of constants

A context makes each constant once. Over a whole course with handles of live values, two requests
for constants have the same answer exactly when they are for the same constant (`Wanted.Same`), the
first of them creates one value and the others none, and no request takes a constant away again.

The keys of the pool tell what has been wanted so far, by a request for a constant or by an `alloca`
without a size (`Course.asked`), since each request adds the key of what it wants and keeps the
other entries (`Request.run_fills`). The entries of the pool are the live constants (`Intact.pool`).
-/

namespace SsaGraph

/-! ## What is wanted -/

namespace TypeTable

/-- The width of an integer type. -/
def width (t : TypeTable) (ty : Ty) : Nat := ((t.data? ty).bind (·.intWidth?)).getD 0

/-- The width of an integer type is the one that it was asked for with. -/
theorem width_eq {t : TypeTable} {ty : Ty} {n : Nat} (h : t.data? ty = some (.integer n)) :
    t.width ty = n := by
  rw [width, h]
  rfl

/-- The pattern that is stored for a number of a floating point type. -/
def stored (t : TypeTable) (ty : Ty) (bits : BitVec 64) : BitVec 64 :=
  if t.data? ty = some .float then Single.round bits else bits

end TypeTable

/-- What a request for a constant asks for. -/
inductive Wanted where
  | int (ty : Ty) (x : Nat)
  | float (ty : Ty) (bits : BitVec 64)
  | null (ty : Ty)
  | undef (ty : Ty)
deriving DecidableEq

namespace Wanted

variable {t t' : TypeTable} {w w' : Wanted}

/-- The type of the constant. -/
def ty : Wanted → Ty
  | int ty _ | float ty _ | null ty | undef ty => ty

/-- What the constant is, besides its type. -/
def content (t : TypeTable) : Wanted → Constant
  | int ty x => .int (.ofNat (t.width ty) x)
  | float ty bits => .float (t.stored ty bits)
  | undef _ => .undef
  | null _ => .null

/-- The key of the constant in the pool. -/
def key (t : TypeTable) (w : Wanted) : Ty × Constant := (w.ty, w.content t)

/-- The same constant is asked for. -/
def Same (t : TypeTable) : Wanted → Wanted → Prop
  | int ty x, int ty' y => ty = ty' ∧ x % 2 ^ t.width ty = y % 2 ^ t.width ty
  | float ty x, float ty' y => ty = ty' ∧ t.stored ty x = t.stored ty y
  | null ty, null ty' => ty = ty'
  | undef ty, undef ty' => ty = ty'
  | _, _ => False

/-- A constant of its sort can have its type. -/
def Fits (t : TypeTable) : Wanted → Prop
  | int ty _ => ∃ width ≤ 64, t.data? ty = some (.integer width)
  | float ty _ => t.data? ty = some .float ∨ t.data? ty = some .double
  | _ => True

/-- A constant that fits the table fits every later table. -/
theorem Fits.grow (h : w.Fits t) (grows : t.GrowsTo t') : w.Fits t' := by
  cases w with
  | int ty x =>
    obtain ⟨width, small, hd⟩ := h
    exact ⟨width, small, grows.structural hd rfl⟩
  | float ty bits => exact h.imp (grows.structural · rfl) (grows.structural · rfl)
  | null ty => trivial
  | undef ty => trivial

/-- What is wanted is the same constant at all later times. -/
theorem Fits.key_eq (h : w.Fits t) (grows : t.GrowsTo t') : w.key t' = w.key t := by
  cases w with
  | int ty x =>
    obtain ⟨width, -, hd⟩ := h
    rw [key, key, content, content, TypeTable.width_eq hd,
      TypeTable.width_eq (grows.structural hd rfl)]
  | float ty bits =>
    rcases h with hd | hd <;>
      simp [key, Wanted.ty, content, TypeTable.stored, hd, grows.structural hd rfl]
  | null ty => rfl
  | undef ty => rfl

/-- The same constant has the same key. -/
theorem same_iff_key_eq (h : w.Fits t) : w.Same t w' ↔ w.key t = w'.key t := by
  cases w <;> cases w' <;> simp only [Same, key, ty, content, Prod.mk.injEq, reduceCtorEq, and_false]
  case int.int ty x ty' y =>
    obtain ⟨width, small, hd⟩ := h
    refine and_congr_right fun hty => ?_
    rw [← hty, Constant.int.injEq, TypeTable.width_eq hd, IntConstant.ofNat_eq_iff small]
  case float.float ty x ty' y =>
    refine and_congr_right fun hty => ?_
    rw [← hty, Constant.float.injEq]
  case null.null => rw [and_true]
  case undef.undef => rw [and_true]

end Wanted

namespace Request

/-- What a request for a constant asks for. -/
def constant? (t : TypeTable) : Request → Option Wanted
  | constInt ty x => some (.int ty x)
  | constBool b => some (.int t.int1 b.toNat)
  | constFloat ty bits => some (.float ty bits)
  | constNull ty => some (.null ty)
  | undef ty => some (.undef ty)
  | _ => none

/-- The constant that a request needs: the one it asks for, or the size of an `alloca` that was
given none. -/
def wanted? (t : TypeTable) : Request → Option Wanted
  | alloca _ _ none => some (.int t.int32 1)
  | r => r.constant? t

/-- What a request for a constant asks for is what the request wants. -/
theorem wanted?_of_constant? {t : TypeTable} {r : Request} {w : Wanted}
    (h : r.constant? t = some w) : r.wanted? t = some w := by
  cases r with
  | alloca _ _ _ => cases h
  | _ => exact h

/-- A request that wants a constant asks for it, or allocates without a size and wants the size
one. -/
theorem wanted?_cases {t : TypeTable} {r : Request} {w : Wanted} (h : r.wanted? t = some w) :
    r.constant? t = some w ∨ ∃ site ty, r = .alloca site ty none ∧ w = .int t.int32 1 := by
  unfold wanted? at h
  split at h
  · cases h
    exact .inr ⟨_, _, rfl, rfl⟩
  · exact .inl h

end Request

/-- A value that is created is the last that is alive. -/
theorem Graph.live_push (g : Graph) (d : ValueData) :
    (g.push d).2.live = g.live ++ [⟨g.ctx, g.values.size⟩] := by
  have old : ∀ v ∈ (List.range g.values.size).map (⟨g.ctx, ·⟩),
      (g.push d).2.contains v = g.contains v := by
    intro v hv
    obtain ⟨i, hi, rfl⟩ := List.mem_map.1 hv
    rw [contains, value?_push, if_neg, contains]
    intro h
    cases h
    simp at hi
  have new : (g.push d).2.contains ⟨g.ctx, g.values.size⟩ = true := by
    rw [contains, value?_push]
    exact congrArg Option.isSome (if_pos rfl)
  have size : (g.push d).2.values.size = g.values.size + 1 := Array.size_push _
  -- The live values are listed by index, and the new one has the greatest index.
  calc (g.push d).2.live
      = ((List.range (g.values.size + 1)).map (⟨g.ctx, ·⟩)).filter (g.push d).2.contains := by
        rw [live, size]
        rfl
    _ = ((List.range g.values.size).map (⟨g.ctx, ·⟩)).filter (g.push d).2.contains ++
          [⟨g.ctx, g.values.size⟩] := by
        rw [List.range_succ, List.map_append, List.filter_append, List.map_singleton,
          List.filter_singleton, new]
        rfl
    _ = g.live ++ [⟨g.ctx, g.values.size⟩] := by rw [List.filter_congr old, live]

namespace Context

variable {c c' : Context}

/-! ## Requests for constants -/

/-- A boolean constant is the constant one or zero of the type of one bit. -/
theorem constBool_ok (hs : c.Sound) {b : Bool} {h : Handle .intConstant}
    (run : constBool b c = .ok h c') :
    c.types.data? c.types.int1 = some (.integer 1) ∧
      constant c.types.int1 (.int (.ofNat 1 b.toNat)) c = .ok h.value c' := by
  simp only [constBool, Run.bind_eq_ok_iff, Run.get_apply] at run
  obtain ⟨_, _, h₀, v, c₁, made, run⟩ := run
  cases h₀
  cases run
  exact ⟨hs.types.primitive rfl, made⟩

/-- A floating-point constant is pooled under the bits that are stored for its type. -/
theorem constFloat_ok {ty : Ty} {bits : BitVec 64} {h : Handle .floatConstant}
    (run : constFloat ty bits c = .ok h c') :
    (c.types.data? ty = some .float ∨ c.types.data? ty = some .double) ∧
      constant ty (.float (c.types.stored ty bits)) c = .ok h.value c' := by
  simp only [constFloat, Run.bind_eq_ok_iff, Run.get_apply, Run.question_eq_ok_iff,
    Run.faulting_eq_ok_iff] at run
  obtain ⟨_, _, h₀, _, _, ⟨-, rfl⟩, k, _, ⟨hk, rfl⟩, run⟩ := run
  cases h₀
  obtain ⟨d, hd, rfl⟩ := TypeTable.kind_eq_ok_iff.1 hk
  -- The two floating-point kinds differ in what they store; for any other type the request is
  -- rejected.
  cases d with
  | float =>
    simp only [TypeData.kind, Run.bind_eq_ok_iff] at run
    obtain ⟨v, c₁, made, run⟩ := run
    cases run
    refine ⟨.inl hd, ?_⟩
    rwa [TypeTable.stored, if_pos hd]
  | double =>
    simp only [TypeData.kind, Run.bind_eq_ok_iff] at run
    obtain ⟨v, c₁, made, run⟩ := run
    cases run
    refine ⟨.inr hd, ?_⟩
    rwa [TypeTable.stored, if_neg (by simp [hd])]
  | _ => cases run

/-- A null constant is the null constant of its type. -/
theorem constNull_ok {ty : Ty} {h : Handle .nullConstant} (run : constNull ty c = .ok h c') :
    constant ty .null c = .ok h.value c' := by
  simp only [constNull, Run.bind_eq_ok_iff, Run.get_apply, Run.question_eq_ok_iff,
    Run.faulting_eq_ok_iff, Run.guard_eq_ok_iff] at run
  obtain ⟨_, _, h₀, _, _, ⟨-, rfl⟩, _, _, ⟨-, rfl⟩, -, v, c₁, made, run⟩ := run
  cases h₀
  cases run
  exact made

/-- An undefined value is the undefined constant of its type. -/
theorem undef_ok {ty : Ty} {h : Handle .undef} (run : undef ty c = .ok h c') :
    constant ty .undef c = .ok h.value c' := by
  simp only [undef, Run.bind_eq_ok_iff, Run.get_apply, Run.question_eq_ok_iff,
    Run.faulting_eq_ok_iff, Run.guard_eq_ok_iff] at run
  obtain ⟨_, _, h₀, _, _, ⟨-, rfl⟩, _, _, ⟨-, rfl⟩, -, v, c₁, made, run⟩ := run
  cases h₀
  cases run
  exact made

/-- An emitted instruction leaves the pool as it is. -/
theorem emit_pool {cls : Class} {site : Site} {ty : Ty} {op : Operation}
    {operands : List (Option Value)} {h : Handle cls} (run : emit site ty op operands c = .ok h c') :
    c'.pool = c.pool := by
  obtain ⟨g, _, -, rfl, placed⟩ := emit_ok run
  obtain ⟨layout, rfl⟩ := place_ok placed
  rfl

/-- Without a size, `alloca` wants the constant one of type `i32`. -/
theorem buildAlloca_ok (hs : c.Sound) {site : Site} {ty : Ty} {h : Handle .alloca}
    (run : buildAlloca site ty none c = .ok h c') :
    ∃ types c₁ v, constant c.types.int32 (.int (.ofNat 32 1)) { c with types } = .ok v c₁ ∧
      c'.pool = c₁.pool := by
  simp only [buildAlloca, Run.bind_eq_ok_iff, Run.get_apply, Run.question_eq_ok_iff,
    Run.faulting_eq_ok_iff, Run.guard_eq_ok_iff] at run
  obtain ⟨_, _, h₀, _, _, ⟨-, rfl⟩, _, _, ⟨-, rfl⟩, -, _, _, ⟨-, rfl⟩, ptr, c₁, pointer, size,
    c₂, one, _, _, hsize, emitted⟩ := run
  cases h₀
  cases hsize
  obtain ⟨types, ht, rfl⟩ := onTypes_ok pointer
  -- The size is a constant of the type of 32 bits, which every table has from the start.
  obtain ⟨width, hd, -, made⟩ := constInt_ok one
  have grows : c.types.GrowsTo types := (TypeTable.pointerType_gets _ _).growsTo ht
  have int32 : types.data? c.types.int32 = some (.integer 32) :=
    grows.structural (hs.types.primitive rfl) rfl
  rw [int32] at hd
  cases hd
  exact ⟨types, c₂, _, made, emit_pool emitted⟩

/-! ## What a request does to the pool -/

/-- The entries are still there, and there is one at the given key, if one is given; there are no
others. -/
structure Fills (key? : Option (Ty × Constant)) (pool pool' : Keyed (Ty × Constant) Value) :
    Prop where
  keeps : ∀ {key v}, pool.get? key = some v → pool'.get? key = some v
  contains : ∀ {key}, pool'.contains key = true ↔ pool.contains key = true ∨ key? = some key

/-- A constant is afterwards pooled under its key, and no other key is added. -/
theorem constant_fills {ty : Ty} {k : Constant} {v : Value} (h : constant ty k c = .ok v c') :
    Fills (some (ty, k)) c.pool c'.pool ∧ c'.pool.get? (ty, k) = some v := by
  -- The constant is found, and the pool stays; or it is made and put under its key.
  rcases constant_cases h with ⟨found, rfl⟩ | ⟨new, -, rfl⟩
  · refine ⟨⟨fun h => h, ?_⟩, found⟩
    intro key
    refine ⟨.inl, ?_⟩
    rintro (h | ⟨⟨⟩⟩)
    · exact h
    · exact Keyed.contains_iff.2 ⟨v, found⟩
  · refine ⟨⟨?_, ?_⟩, ?_⟩
    · intro key w hw
      rw [Keyed.get?_insert, if_neg]
      · exact hw
      · rintro rfl
        rw [new] at hw
        cases hw
    · intro key
      rw [Keyed.contains_insert]
      split
      · rename_i hkey
        simp [hkey]
      · rename_i hkey
        simp [Ne.symm hkey]
    · rw [Keyed.get?_insert, if_pos rfl]

/-- Asking for types leaves the pool. -/
theorem derives_pool (h : Relation.ReflTransGen Derives c c') : c'.pool = c.pool := by
  induction h with
  | refl => rfl
  | tail _ step ih =>
    cases step with
    | pointer admits => exact ih
    | bools vector admits => exact ih

/-- Small changes of a context leave the pool. -/
theorem quiets_pool (h : Relation.ReflTransGen Quiet c c') : c'.pool = c.pool := by
  induction h with
  | refl => rfl
  | tail _ step ih =>
    cases step with
    | graph h => exact ih
    | create _ _ pool => exact pool.trans ih
    | aside _ _ pool => exact pool.trans ih

end Context

namespace Request

open Context

variable {c c' : Context} {r : Request} {a : Answer}

/-- A request that wants no constant supplies nothing but types. -/
theorem supplies_eq_derives (h : r.wantsConstant = false) : r.Supplies = Derives := by
  cases r with
  | alloca site ty size =>
    cases size with
    | none => cases h
    | some size => rfl
  | _ => rfl

/-- A request that wants no constant leaves the pool as it is. -/
theorem run_pool (hs : c.Sound) (hw : r.wantsConstant = false) (run : r.run c = .ok a c') :
    c'.pool = c.pool := by
  -- The sorts of requests are told apart; in each of them the effect is known and leaves the pool.
  cases hf : r.isFactory with
  | true =>
    obtain ⟨i, site, c₁, ty, op, operands, -, -, chain, -, -, emitted⟩ := run_emits hs hf run
    rw [supplies_eq_derives hw] at chain
    exact (emit_pool emitted).trans (derives_pool chain)
  | false =>
    cases hg : r.isAttaching || r.isReplacing with
    | true =>
      obtain ⟨graph, rfl⟩ := run_graph hg run
      rfl
    | false =>
      obtain ⟨ha, hr⟩ := Bool.or_eq_false_iff.1 hg
      exact quiets_pool (run_quiet hs hf ha hr hw _ _ run)

/-- A request for a constant is answered with the constant of its key. -/
theorem run_constant (hs : c.Sound) {w : Wanted} (h : r.constant? c.types = some w)
    (run : r.run c = .ok a c') :
    w.Fits c.types ∧ ∃ v, a = .value v ∧ constant w.ty (w.content c.types) c = .ok v c' := by
  -- Each request for a constant comes down to the pool, with the content that it wants.
  cases r with
  | constInt ty x =>
    cases h
    obtain ⟨i, rfl, asked⟩ := valued_eq_ok run
    obtain ⟨width, hd, small, made⟩ := constInt_ok asked
    refine ⟨⟨width, small, hd⟩, i.value, rfl, ?_⟩
    rwa [Wanted.content, TypeTable.width_eq hd]
  | constBool b =>
    cases h
    obtain ⟨i, rfl, asked⟩ := valued_eq_ok run
    obtain ⟨hd, made⟩ := constBool_ok hs asked
    refine ⟨⟨1, by decide, hd⟩, i.value, rfl, ?_⟩
    rwa [Wanted.content, TypeTable.width_eq hd]
  | constFloat ty bits =>
    cases h
    obtain ⟨i, rfl, asked⟩ := valued_eq_ok run
    obtain ⟨hd, made⟩ := constFloat_ok asked
    exact ⟨hd, i.value, rfl, made⟩
  | constNull ty =>
    cases h
    obtain ⟨i, rfl, asked⟩ := valued_eq_ok run
    exact ⟨trivial, i.value, rfl, constNull_ok asked⟩
  | undef ty =>
    cases h
    obtain ⟨i, rfl, asked⟩ := valued_eq_ok run
    exact ⟨trivial, i.value, rfl, undef_ok asked⟩
  | _ => cases h

/-- What an answered request wants is of a type that it can have. -/
theorem wanted_fits (hs : c.Sound) {w : Wanted} (h : r.wanted? c.types = some w)
    (run : r.run c = .ok a c') : w.Fits c.types := by
  rcases wanted?_cases h with h | ⟨site, ty, rfl, rfl⟩
  · exact (run_constant hs h run).1
  · exact ⟨32, by decide, hs.types.primitive rfl⟩

/-- A request that wants nothing in particular wants no constant. -/
theorem wantsConstant_of_wanted? {t : TypeTable} (h : r.wanted? t = none) :
    r.wantsConstant = false := by
  cases r with
  | alloca site ty size =>
    cases size with
    | none => cases h
    | some size => rfl
  | constInt _ _ | constBool _ | constFloat _ _ | constNull _ | undef _ => cases h
  | _ => rfl

/-- A request adds the key of what it wants to the pool. -/
theorem run_fills (hs : c.Sound) (run : r.run c = .ok a c') :
    Fills ((r.wanted? c.types).map (·.key c.types)) c.pool c'.pool := by
  cases hw : r.wanted? c.types with
  | none =>
    have none : r.wantsConstant = false := wantsConstant_of_wanted? hw
    rw [run_pool hs none run]
    exact ⟨fun h => h, by simp⟩
  | some w =>
    -- The size of an allocation is pooled like a constant that is asked for.
    rcases wanted?_cases hw with h | ⟨site, ty, rfl, rfl⟩
    · obtain ⟨-, v, rfl, made⟩ := run_constant hs h run
      exact (constant_fills made).1
    · obtain ⟨i, rfl, asked⟩ := valued_eq_ok run
      obtain ⟨types, c₁, v, made, same⟩ := buildAlloca_ok hs asked
      have width : c.types.width c.types.int32 = 32 := TypeTable.width_eq (hs.types.primitive rfl)
      simpa [Wanted.key, Wanted.ty, Wanted.content, width, same] using (constant_fills made).1

end Request

/-! ## Along a course -/

namespace Turn

/-- The constant that a turn wants. -/
def Wants (t : Turn) (w : Wanted) : Prop := t.request.wanted? t.before.types = some w

/-- A turn is a request for a constant. -/
def AsksFor (t : Turn) (w : Wanted) : Prop := t.request.constant? t.before.types = some w

/-- A turn is a request for a constant, and a value is the answer. -/
def Gives (t : Turn) (w : Wanted) (v : Value) : Prop := t.AsksFor w ∧ t.answer = .value v

/-- A turn that asks for a constant wants it. -/
theorem AsksFor.wants {t : Turn} {w : Wanted} (h : t.AsksFor w) : t.Wants w :=
  Request.wanted?_of_constant? h

end Turn

namespace Context

variable {allowed : Context → Request → Prop} {c c' : Context} {ts : List Turn}

/-- What is pooled stays pooled. -/
theorem Course.keeps (course : Course allowed c ts c') (hc : ReachedBy allowed c)
    {key : Ty × Constant} {v : Value} (h : c.pool.get? key = some v) :
    c'.pool.get? key = some v :=
  course.invariant (P := fun _ c' => c'.pool.get? key = some v) hc h
    fun _ reached kept _ run => (Request.run_fills reached.sound run).keeps kept

/-- The pool has the keys that have been wanted. -/
theorem Course.asked {id : ContextId} (course : Course allowed (.initial id) ts c)
    {key : Ty × Constant} :
    c.pool.contains key = true ↔ ∃ t ∈ ts, ∃ w, t.Wants w ∧ w.key t.before.types = key := by
  refine course.invariant (P := fun ts c => c.pool.contains key = true ↔
    ∃ t ∈ ts, ∃ w, t.Wants w ∧ w.key t.before.types = key) (.initial id) ?_ ?_
  · simp [initial, Keyed.contains, Keyed.get?]
  · intro ts c₁ c₂ r a _ reached asked _ run
    rw [(Request.run_fills reached.sound run).contains, asked]
    simp only [List.mem_append, List.mem_singleton, or_and_right, exists_or, exists_eq_left,
      Option.map_eq_some_iff]
    rfl

/-- What a turn wants fits its type, and the table grows from there to the end of the course. -/
theorem Course.fits {id : ContextId} (course : Course allowed (.initial id) ts c) {t : Turn}
    {w : Wanted} (ht : t ∈ ts) (h : t.Wants w) :
    w.Fits t.before.types ∧ t.before.types.GrowsTo c.types := by
  obtain ⟨before, after, first, asked, run, rest⟩ := course.split_of_mem ht
  have reached := first.reachedBy (.initial id)
  exact ⟨Request.wanted_fits reached.sound h run, (Course.cons asked run rest).growsTo reached⟩

/-- What a turn wants is the same constant at the end of the course. -/
theorem Course.key_eq {id : ContextId} (course : Course allowed (.initial id) ts c) {t : Turn}
    {w : Wanted} (ht : t ∈ ts) (h : t.Wants w) : w.key c.types = w.key t.before.types := by
  obtain ⟨fits, grows⟩ := course.fits ht h
  exact fits.key_eq grows

/-- For what a turn wants, the same constant has the same key at the end of the course. -/
theorem Course.same_iff {id : ContextId} (course : Course allowed (.initial id) ts c) {t : Turn}
    {w w' : Wanted} (ht : t ∈ ts) (h : t.Wants w) :
    w.Same c.types w' ↔ w.key c.types = w'.key c.types := by
  obtain ⟨fits, grows⟩ := course.fits ht h
  exact Wanted.same_iff_key_eq (fits.grow grows)

/-- The answer to a request for a constant is pooled under the key of the constant from then on. -/
theorem Course.pooled {id : ContextId} (course : Course allowed (.initial id) ts c) {t : Turn}
    {w : Wanted} (ht : t ∈ ts) (h : t.AsksFor w) :
    ∃ v, t.answer = .value v ∧ c.pool.get? (w.key c.types) = some v := by
  rw [course.key_eq ht h.wants]
  obtain ⟨before, after, first, asked, run, rest⟩ := course.split_of_mem ht
  have reached := first.reachedBy (.initial id)
  obtain ⟨-, v, answer, made⟩ := Request.run_constant reached.sound h run
  exact ⟨v, answer, rest.keeps (.answered reached asked run) (constant_fills made).2⟩

/-- What a context has pooled is alive, and is the constant of its key; and so are all constants
that are alive. -/
theorem pool_eq_some_iff (hs : c.Sound) (hi : c.Intact) {ty : Ty} {k : Constant} {v : Value} :
    c.pool.get? (ty, k) = some v ↔
      v ∈ c.graph.live ∧ c.typeOf v = .ok ty ∧ c.kindOf v = .ok (.constant k) := by
  rw [hi.pool.entry, Graph.mem_live]
  simp only [typeOf, kindOf, Question.bind_eq_ok_iff, valueData_eq_ok_iff hs,
    Question.pure_eq_ok_iff]
  constructor
  · rintro ⟨name, hface⟩
    obtain ⟨d, hd, hx⟩ := Graph.value?_of_face? hface
    rw [Face.mk.injEq] at hx
    exact ⟨⟨d, hd⟩, ⟨d, hd, hx.1.symm⟩, d, hd, hx.2.2.symm⟩
  · rintro ⟨-, ⟨d, hd, rfl⟩, d', hd', hk⟩
    rw [hd] at hd'
    cases hd'
    refine ⟨d.name, ?_⟩
    rw [Graph.face?_of_value? hd, hk]

/-- The constants of a context, and the requests for them in the course that led to it. -/
structure Pooling (ts : List Turn) (c : Context) : Prop where
  /-- Two requests have the same answer exactly when they are for the same constant. -/
  same : ∀ {t t' w w' v v'}, t ∈ ts → t' ∈ ts → t.Gives w v → t'.Gives w' v' →
    (v = v' ↔ w.Same c.types w')
  /-- A request for a constant that was wanted before changes nothing. -/
  found : ∀ {before t after w}, ts = before ++ t :: after → t.AsksFor w →
    (∃ t' ∈ before, ∃ w', t'.Wants w' ∧ w'.Same c.types w) → t.after = t.before
  /-- A request for another constant creates one value, which is the answer. -/
  created : ∀ {before t after w v}, ts = before ++ t :: after → t.Gives w v →
    (¬ ∃ t' ∈ before, ∃ w', t'.Wants w' ∧ w'.Same c.types w) →
    t.after.graph.live = t.before.graph.live ++ [v]
  /-- The answer is a value that is alive since then, and has the type and is what was asked for. -/
  answer : ∀ {t w}, t ∈ ts → t.AsksFor w → ∃ v, t.answer = .value v ∧ v ∈ c.graph.live ∧
    c.typeOf v = .ok w.ty ∧ c.kindOf v = .ok (.constant (w.content c.types))
  /-- What is pooled at some time is pooled and alive from then on. -/
  lasting : ∀ {t key v}, t ∈ ts → t.after.pool.get? key = some v →
    c.pool.get? key = some v ∧ v ∈ c.graph.live
  /-- Every constant that is alive is pooled under its type and content, and nowhere else. -/
  entry : ∀ {v k}, v ∈ c.graph.live → c.kindOf v = .ok (.constant k) →
    ∃ ty, c.typeOf v = .ok ty ∧ ∀ key, c.pool.get? key = some v ↔ key = (ty, k)

/-- Different keys have different entries. -/
theorem key_eq_of_pool (hs : c.Sound) (hi : c.Intact) {key key' : Ty × Constant} {v : Value}
    (h : c.pool.get? key = some v) (h' : c.pool.get? key' = some v) : key = key' := by
  obtain ⟨-, hty, hk⟩ := (pool_eq_some_iff hs hi).1 h
  obtain ⟨-, hty', hk'⟩ := (pool_eq_some_iff hs hi).1 h'
  rw [hty, Except.ok.injEq] at hty'
  rw [hk, Except.ok.injEq, ValueKind.constant.injEq] at hk'
  exact Prod.ext hty' hk'

/-- Up to a request for a constant, the constant has been wanted if the pool has its key. -/
theorem Course.contains_iff {id : ContextId} {before after : List Turn} {t : Turn} {w : Wanted}
    (course : Course allowed (.initial id) (before ++ t :: after) c) (h : t.AsksFor w) :
    t.before.pool.contains (w.key t.before.types) = true ↔
      ∃ t' ∈ before, ∃ w', t'.Wants w' ∧ w'.Same c.types w := by
  obtain ⟨first, -, -, -⟩ := course.split
  have last : t ∈ before ++ t :: after := List.mem_append_right _ (List.mem_cons_self ..)
  rw [first.asked]
  refine exists_congr fun t' => and_congr_right fun ht' => exists_congr fun w' =>
    and_congr_right fun wants => ?_
  have earlier : t' ∈ before ++ t :: after := List.mem_append_left _ ht'
  rw [course.same_iff earlier wants, course.key_eq last h.wants, course.key_eq earlier wants]

/-- Constants are pooled over whole courses. -/
theorem Course.pooling {id : ContextId} (course : Course Request.ClassChecked (.initial id) ts c) :
    c.Pooling ts := by
  have reached : c.ClassChecked := course.reachedBy (.initial id)
  have hs := reached.sound
  have hi := reached.intact
  constructor
  case same =>
    intro t t' w w' v v' ht ht' gives gives'
    obtain ⟨_, answer, pooled⟩ := course.pooled ht gives.1
    obtain ⟨_, answer', pooled'⟩ := course.pooled ht' gives'.1
    cases gives.2.symm.trans answer
    cases gives'.2.symm.trans answer'
    rw [course.same_iff ht gives.1.wants]
    constructor
    · rintro rfl
      exact key_eq_of_pool hs hi pooled pooled'
    · intro key
      rw [key, pooled'] at pooled
      exact (Option.some.inj pooled).symm
  -- A constant that an earlier turn wanted is pooled at the start of this one.
  case found =>
    rintro before t after w rfl asks wanted
    obtain ⟨first, -, run, -⟩ := course.split
    obtain ⟨-, v, -, made⟩ :=
      Request.run_constant (first.reachedBy (.initial id)).sound asks run
    obtain ⟨v', found⟩ := Keyed.contains_iff.1 ((course.contains_iff asks).2 wanted)
    rcases constant_cases made with ⟨-, same⟩ | ⟨new, -, -⟩
    · exact same
    · cases new.symm.trans found
  -- A constant that no earlier turn wanted is not pooled, so a value is made for it.
  case created =>
    rintro before t after w v rfl gives unwanted
    obtain ⟨first, -, run, -⟩ := course.split
    obtain ⟨-, _, answer, made⟩ :=
      Request.run_constant (first.reachedBy (.initial id)).sound gives.1 run
    cases gives.2.symm.trans answer
    rw [← course.contains_iff gives.1] at unwanted
    rcases constant_cases made with ⟨found, -⟩ | ⟨-, rfl, left⟩
    · exact absurd (Keyed.contains_iff.2 ⟨v, found⟩) unwanted
    · rw [left]
      exact Graph.live_push _ _
  case answer =>
    intro t w ht asks
    obtain ⟨v, answer, pooled⟩ := course.pooled ht asks
    exact ⟨v, answer, (pool_eq_some_iff hs hi).1 pooled⟩
  case lasting =>
    intro t key v ht pooled
    obtain ⟨before, after, rfl⟩ := List.append_of_mem ht
    obtain ⟨first, asked, run, rest⟩ := course.split
    have kept := rest.keeps (.answered (first.reachedBy (.initial id)) asked run) pooled
    exact ⟨kept, ((pool_eq_some_iff hs hi).1 kept).1⟩
  -- Conversely a live constant value is pooled, under its own type and content.
  case entry =>
    intro v k alive kind
    obtain ⟨d, hd⟩ := Graph.mem_live.1 alive
    have type : c.typeOf v = .ok d.ty := by
      simp only [typeOf, Question.bind_eq_ok_iff, valueData_eq_ok_iff hs]
      exact ⟨d, hd, rfl⟩
    have pooled := (pool_eq_some_iff hs hi).2 ⟨alive, type, kind⟩
    refine ⟨d.ty, type, fun key => ⟨fun h => key_eq_of_pool hs hi h pooled, ?_⟩⟩
    rintro rfl
    exact pooled

/-- For instance, after an `alloca` has made the constant one of type `i32`, with numbers that agree
with others on the bits of their types. -/
theorem pooling_after_alloca : ∃ ts c,
    record [.alloca {} ⟨⟨1⟩, 9⟩ none, .constInt ⟨⟨1⟩, 9⟩ 4294967297, .constBool true,
      .constInt ⟨⟨1⟩, 6⟩ 3, .undef ⟨⟨1⟩, 9⟩] (.initial ⟨1⟩) = some (ts, c) ∧
    ts.map Turn.answer = [.value ⟨⟨1⟩, 1⟩, .value ⟨⟨1⟩, 0⟩, .value ⟨⟨1⟩, 2⟩, .value ⟨⟨1⟩, 2⟩,
      .value ⟨⟨1⟩, 3⟩] ∧
    c.Pooling ts := by
  refine exists_record _ _ (by decide +kernel) fun ts c course _ => ?_
  exact course.pooling

end Context

end SsaGraph
