import SsaGraph.Proofs.Build.Factory
import SsaGraph.Proofs.Context.Laid

/-!
# The indexes of a context

Besides its graph and its type table a context keeps lists and maps of values: the layout, the
registry of functions, the argument lists of functions, and the pool of constants. `Intact` says
that each of them has the live values it is about, and no others, that the types of values are in
the table, and that functions and their arguments have the types that the function type asks for. It
speaks about the faces of values only.

The parts are kept apart. Each has a lemma for changes of the graph that leave the values it is
about alone, and lemmas for the changes that concern it. A context stays intact through the changes
in the last section, which are what the requests are made of.
-/

namespace SsaGraph

/-- The type is a function type with these parameters. -/
def TypeTable.Takes (t : TypeTable) (fnType : Ty) (params : List Ty) : Prop :=
  ∃ ret varArg, t.data? fnType = some (.function ret params varArg)

/-- A function type takes the same parameters in a grown table. -/
theorem TypeTable.Takes.grow {t t' : TypeTable} {fnType : Ty} {params : List Ty}
    (h : t.Takes fnType params) (grows : t.GrowsTo t') : t'.Takes fnType params := by
  obtain ⟨ret, varArg, hd⟩ := h
  exact ⟨ret, varArg, grows.structural hd rfl⟩

/-- The types that are recorded in the kind of a value. -/
def ValueKind.types : ValueKind → List Ty
  | function fnType _ => [fnType]
  | instruction op => op.types
  | _ => []

/-- Alike faces mention the same types. -/
theorem Face.Alike.types_eq {x y : Face} (h : x.Alike y) : y.kind.types = x.kind.types := by
  cases h <;> rfl

namespace Graph

variable {g g' : Graph} {v : Value}

/-! ## The registry of functions -/

/-- The functions are listed, and known by their names. -/
structure Registered (g : Graph) (functions : List Func) (names : Keyed String Func) : Prop where
  /-- The live functions are listed. -/
  mem : ∀ {f}, f ∈ functions ↔ g.Has .function f.value
  /-- They are listed in the order of their creation. -/
  ordered : functions.Pairwise (·.value.index < ·.value.index)
  /-- Every function has a name. -/
  named : ∀ {v x}, g.face? v = some x → Class.function.contains x.kind = true →
    ∃ name, x.name = some name
  /-- What is known by a name is the function of that name. -/
  entry : ∀ {name f}, names.get? name = some f ↔
    ∃ x, g.face? f.value = some x ∧ Class.function.contains x.kind = true ∧ x.name = some name

namespace Registered

variable {functions : List Func} {names : Keyed String Func}

/-- The registry fits a graph with the same functions. -/
theorem fixed (h : g.Registered functions names) (same : Fixed .function g g') :
    g'.Registered functions names := by
  refine ⟨h.mem.trans same.same.has_iff.symm, h.ordered,
    fun hv hx => h.named ((same _ _ hx).1 hv) hx, h.entry.trans (exists_congr fun x => ?_)⟩
  constructor
  · rintro ⟨hf, hx, hname⟩
    exact ⟨(same _ _ hx).2 hf, hx, hname⟩
  · rintro ⟨hf, hx, hname⟩
    exact ⟨(same _ _ hx).1 hf, hx, hname⟩

/-- Of the names, the one a function has leads to it. -/
theorem name_iff {f f' : Func} {x : Face} {name n : String} (h : g.Registered functions names)
    (hf : g.face? f.value = some x) (hx : Class.function.contains x.kind = true)
    (hname : x.name = some name) (hn : names.get? n = some f') : n = name ↔ f' = f := by
  constructor
  · rintro rfl
    have entry := h.entry.2 ⟨x, hf, hx, hname⟩
    rw [hn] at entry
    exact Option.some.inj entry
  · rintro rfl
    obtain ⟨y, hy, -, hyname⟩ := h.entry.1 hn
    rw [hf] at hy
    cases hy
    rw [hname] at hyname
    exact (Option.some.inj hyname).symm

/-- A function comes with a name that was free. -/
theorem add {P : Value → Face → Prop} {f : Func} {name : String} {x : Face}
    (h : g.Registered functions names) (gains : g.Gains g' P) (come : P f.value x)
    (function : ∀ {v y}, P v y → Class.function.contains y.kind = true → v = f.value ∧ y = x)
    (hx : Class.function.contains x.kind = true) (hname : x.name = some name)
    (free : names.get? name = none) (last : g.values.size ≤ f.value.index) :
    g'.Registered (functions ++ [f]) (names.insert name f) := by
  refine ⟨fun {f'} => ?_, ?_, fun {v y} hv hy => ?_, fun {name' f'} => ?_⟩
  · -- The new value is the one function that has come, so it is the one that is listed more.
    rw [List.mem_append, List.mem_singleton, h.mem, gains.has_iff]
    refine or_congr Iff.rfl ⟨?_, ?_⟩
    · rintro rfl
      exact ⟨x, come, hx⟩
    · rintro ⟨y, hy, hkind⟩
      exact Handle.ext (function hy hkind).1
  · refine List.pairwise_append.2 ⟨h.ordered, List.pairwise_singleton .., fun f' hf' f'' hf'' => ?_⟩
    obtain ⟨d, hd⟩ := (h.mem.1 hf').value?
    rw [List.mem_singleton.1 hf'']
    exact Nat.lt_of_lt_of_le (index_lt_of_value? hd) last
  · -- An old function has the name it had, and the new one the name it came with.
    rcases gains.face.1 hv with hv | hp
    · exact h.named hv hy
    · rw [(function hp hy).2]
      exact ⟨name, hname⟩
  · rw [Keyed.get?_insert]
    split
    · -- The name is that of the new function and of no other.
      subst name'
      rw [Option.some.injEq]
      constructor
      · rintro rfl
        exact ⟨x, gains.face.2 (.inr come), hx, hname⟩
      · rintro ⟨y, hy, hkind, hyname⟩
        rcases gains.face.1 hy with hy | hp
        · rw [h.entry.2 ⟨y, hy, hkind, hyname⟩] at free
          cases free
        · exact (Handle.ext (function hp hkind).1).symm
    · rename_i hne
      rw [h.entry]
      refine exists_congr fun y => ⟨And.imp_left gains.keep, ?_⟩
      rintro ⟨hy, hkind, hyname⟩
      rcases gains.face.1 hy with hy | hp
      · exact ⟨hy, hkind, hyname⟩
      · rw [(function hp hkind).2, hname] at hyname
        exact absurd (Option.some.inj hyname).symm hne

/-- Functions go, and with them their names. -/
theorem lose {gone : List Value} {functions' : List Func} {names' : Keyed String Func}
    (h : g.Registered functions names) (loses : g.Loses g' gone)
    (hf : functions' = functions.filter (·.value ∉ gone))
    (hn : ∀ name, names'.get? name = (names.get? name).filter (·.value ∉ gone)) :
    g'.Registered functions' names' := by
  -- The registry loses exactly the functions among the values that are gone, from the list and from
  -- the index.
  refine ⟨fun {f} => ?_, ?_, fun hv hx => h.named (loses.face?_eq_some_iff.1 hv).2 hx,
    fun {name f} => ?_⟩
  · rw [hf, List.mem_filter, h.mem, loses.has_iff, and_comm]
    simp
  · rw [hf]
    exact h.ordered.filter _
  · rw [hn, Option.filter_eq_some_iff, h.entry]
    simp only [loses.face?_eq_some_iff, decide_eq_true_eq]
    constructor
    · rintro ⟨⟨x, hx, rest⟩, hout⟩
      exact ⟨x, ⟨hout, hx⟩, rest⟩
    · rintro ⟨x, ⟨hout, hx⟩, rest⟩
      exact ⟨⟨x, hx, rest⟩, hout⟩

/-- A function gets a name that was free, and gives up the one it had. -/
theorem rename {f : Func} {old name : String} {x : Face} (h : g.Registered functions names)
    (hv : g.face? f.value = some x) (hx : Class.function.contains x.kind = true)
    (hold : x.name = some old) (free : names.get? name = none)
    (face : ∀ w, g'.face? w = if w = f.value then some { x with name := some name } else g.face? w) :
    g'.Registered functions ((names.erase old).insert name f) := by
  -- Renaming changes no class, so the list of functions is right as it is.
  have same : Same .function g g' := same_of_rename hv face
  refine ⟨h.mem.trans same.has_iff.symm, h.ordered, fun {v y} hv' hy => ?_, fun {name' f'} => ?_⟩
  · rw [face] at hv'
    split at hv'
    · cases hv'
      exact ⟨name, rfl⟩
    · exact h.named hv' hy
  · rw [Keyed.get?_insert, Keyed.get?_erase, face]
    by_cases hf : f' = f
    · -- The function is known by the new name only.
      subst hf
      simp only [if_pos, Option.some.injEq, exists_eq_left', hx, true_and]
      by_cases hname : name' = name
      · simp [hname]
      · by_cases ho : name' = old
        · subst ho
          simp [hname, Ne.symm hname]
        · simpa [hname, ho, Ne.symm hname] using
            fun hentry => ho ((h.name_iff hv hx hold hentry).2 rfl)
    · -- The other functions keep their names, and none of them had the new one or the old one.
      have hfv : f'.value ≠ f.value := fun heq => hf (Handle.ext heq)
      simp only [if_neg hfv]
      by_cases hname : name' = name
      · subst hname
        rw [if_pos rfl, Option.some.injEq]
        refine ⟨fun heq => absurd heq.symm hf, fun hy => ?_⟩
        rw [h.entry.2 hy] at free
        cases free
      · rw [if_neg hname]
        by_cases ho : name' = old
        · subst ho
          rw [if_pos rfl]
          refine ⟨fun hnone => (by cases hnone), fun hy => ?_⟩
          exact absurd ((h.name_iff hv hx hold (h.entry.2 hy)).1 rfl) hf
        · rw [if_neg ho, h.entry]

end Registered

/-! ## Arguments of functions -/

/-- The arguments that a function lists are its arguments. -/
structure Furnished (g : Graph) : Prop where
  /-- What a function lists is an argument of that function, with the number it has in the list. -/
  argument : ∀ {v ty name fnType args}, g.face? v = some ⟨ty, name, .function fnType args⟩ →
    ∀ {i} {a : Argument}, args[i]? = some a →
      ∃ ty' name', g.face? a.value = some ⟨ty', name', .argument ⟨v⟩ i⟩
  /-- An argument is listed by its function. -/
  parent : ∀ {v ty name f i}, g.face? v = some ⟨ty, name, .argument f i⟩ →
    ∃ ty' name' fnType args, g.face? f.value = some ⟨ty', name', .function fnType args⟩ ∧
      args[i]? = some ⟨v⟩

namespace Furnished

/-- No argument is listed twice. -/
theorem nodup (h : g.Furnished) {ty fnType : Ty} {name : Option String} {args : List Argument}
    (hv : g.face? v = some ⟨ty, name, .function fnType args⟩) : args.Nodup := by
  refine List.nodup_iff_getElem?_ne_getElem?.2 fun i j hij hj heq => ?_
  have hj' := List.getElem?_eq_getElem hj
  obtain ⟨_, _, hi⟩ := h.argument hv (heq.trans hj')
  obtain ⟨_, _, hj⟩ := h.argument hv hj'
  rw [hi] at hj
  simp only [Option.some.injEq, Face.mk.injEq, ValueKind.argument.injEq, true_and] at hj
  omega

/-- What a function lists is an argument of that function. -/
theorem has_argument (h : g.Furnished) {ty fnType : Ty} {name : Option String}
    {args : List Argument} (hv : g.face? v = some ⟨ty, name, .function fnType args⟩) {x : Argument}
    (hx : x ∈ args) : g.Has .argument x.value := by
  obtain ⟨i, hi⟩ := List.mem_iff_getElem?.1 hx
  obtain ⟨_, _, hface⟩ := h.argument hv hi
  exact ⟨_, hface, rfl⟩

/-- Functions and arguments still belong together when both are the same. -/
theorem same (h : g.Furnished) (functions : Same .function g g')
    (arguments : Same .argument g g') : g'.Furnished := by
  refine ⟨fun {v ty name fnType args} hv {i a} ha => ?_, fun {v ty name f i} hv => ?_⟩
  · obtain ⟨_, hv'⟩ := (functions v _ _ rfl).1 ⟨name, hv⟩
    obtain ⟨ty', name', ha'⟩ := h.argument hv' ha
    exact ⟨ty', (arguments a.value _ _ rfl).2 ⟨name', ha'⟩⟩
  · obtain ⟨_, hv'⟩ := (arguments v _ _ rfl).1 ⟨name, hv⟩
    obtain ⟨ty', name', fnType, args, hf, hi⟩ := h.parent hv'
    obtain ⟨name'', hf'⟩ := (functions f.value _ _ rfl).2 ⟨name', hf⟩
    exact ⟨ty', name'', fnType, args, hf', hi⟩

/-- A function comes with its arguments. -/
theorem add {P : Value → Face → Prop} {f : Func} {ty fnType : Ty} {name : Option String}
    {args : List Argument} (h : g.Furnished) (gains : g.Gains g' P)
    (come : P f.value ⟨ty, name, .function fnType args⟩)
    (function : ∀ {v x}, P v x → Class.function.contains x.kind = true →
      v = f.value ∧ x = ⟨ty, name, .function fnType args⟩)
    (argument : ∀ {i} {a : Argument}, args[i]? = some a →
      ∃ ty' name', P a.value ⟨ty', name', .argument f i⟩)
    (listed : ∀ {v ty' name' f' i}, P v ⟨ty', name', .argument f' i⟩ →
      f' = f ∧ args[i]? = some ⟨v⟩) : g'.Furnished := by
  -- Both directions: what a function lists is its argument, and an argument is listed by its
  -- function.
  refine ⟨fun {v ty' name' fnType' args'} hv {i a} ha => ?_, fun {v ty' name' f' i} hv => ?_⟩
  · rcases gains.face.1 hv with hv | hp
    · obtain ⟨ty'', name'', ha'⟩ := h.argument hv ha
      exact ⟨ty'', name'', gains.keep ha'⟩
    · -- The new function lists the new arguments only.
      obtain ⟨rfl, hface⟩ := function hp rfl
      cases hface
      obtain ⟨ty'', name'', ha'⟩ := argument ha
      exact ⟨ty'', name'', gains.face.2 (.inr ha')⟩
  · rcases gains.face.1 hv with hv | hp
    · obtain ⟨ty'', name'', fnType', args', hf, hi⟩ := h.parent hv
      exact ⟨ty'', name'', fnType', args', gains.keep hf, hi⟩
    · obtain ⟨rfl, hi⟩ := listed hp
      exact ⟨ty, name, fnType, args, gains.face.2 (.inr come), hi⟩

/-- A function goes with its arguments. -/
theorem remove {gone : List Value} (h : g.Furnished) (loses : g.Loses g' gone)
    (whole : ∀ {v ty name f i}, g.face? v = some ⟨ty, name, .argument f i⟩ →
      (v ∈ gone ↔ f.value ∈ gone)) : g'.Furnished := by
  refine ⟨fun {v ty name fnType args} hv {i a} ha => ?_, fun {v ty name f i} hv => ?_⟩
  · obtain ⟨hout, hv⟩ := loses.face?_eq_some_iff.1 hv
    obtain ⟨ty', name', ha'⟩ := h.argument hv ha
    exact ⟨ty', name', loses.face?_eq_some_iff.2 ⟨fun hin => hout ((whole ha').1 hin), ha'⟩⟩
  · obtain ⟨hout, hv⟩ := loses.face?_eq_some_iff.1 hv
    obtain ⟨ty', name', fnType, args, hf, hi⟩ := h.parent hv
    exact ⟨ty', name', fnType, args,
      loses.face?_eq_some_iff.2 ⟨fun hin => hout ((whole hv).2 hin), hf⟩, hi⟩

end Furnished

/-! ## Signatures of functions -/

/-- Functions and arguments have the types that the function type asks for. -/
structure Signed (g : Graph) (t : TypeTable) : Prop where
  /-- A function is a pointer to its function type, and has an argument for each parameter. -/
  function : ∀ {v ty name fnType args}, g.face? v = some ⟨ty, name, .function fnType args⟩ →
    t.data? ty = some (.pointer fnType 0) ∧
      ∃ params, t.Takes fnType params ∧ args.length = params.length
  /-- An argument has the type of its parameter. -/
  argument : ∀ {v ty name f i}, g.face? v = some ⟨ty, name, .argument f i⟩ →
    ∃ ty' name' fnType args params, g.face? f.value = some ⟨ty', name', .function fnType args⟩ ∧
      t.Takes fnType params ∧ params[i]? = some ty

namespace Signed

variable {t : TypeTable}

/-- Functions keep their signatures when the table grows. -/
theorem grow {t' : TypeTable} (h : g.Signed t) (grows : t.GrowsTo t') : g.Signed t' := by
  refine ⟨fun hv => ?_, fun hv => ?_⟩
  · obtain ⟨pointer, params, takes, length⟩ := h.function hv
    exact ⟨grows.structural pointer rfl, params, takes.grow grows, length⟩
  · obtain ⟨ty', name', fnType, args, params, hf, takes, param⟩ := h.argument hv
    exact ⟨ty', name', fnType, args, params, hf, takes.grow grows, param⟩

/-- Functions keep their signatures when functions and arguments are the same. -/
theorem same (h : g.Signed t) (functions : Same .function g g')
    (arguments : Same .argument g g') : g'.Signed t := by
  refine ⟨fun {v ty name fnType args} hv => ?_, fun {v ty name f i} hv => ?_⟩
  · obtain ⟨_, hv'⟩ := (functions v _ _ rfl).1 ⟨name, hv⟩
    exact h.function hv'
  · obtain ⟨_, hv'⟩ := (arguments v _ _ rfl).1 ⟨name, hv⟩
    obtain ⟨ty', name', fnType, args, params, hf, takes, param⟩ := h.argument hv'
    obtain ⟨name'', hf'⟩ := (functions f.value _ _ rfl).2 ⟨name', hf⟩
    exact ⟨ty', name'', fnType, args, params, hf', takes, param⟩

/-- A function comes with its arguments. -/
theorem add {P : Value → Face → Prop} {f : Func} {ty fnType : Ty} {name : Option String}
    {args : List Argument} {params : List Ty} (h : g.Signed t) (gains : g.Gains g' P)
    (come : P f.value ⟨ty, name, .function fnType args⟩)
    (function : ∀ {v x}, P v x → Class.function.contains x.kind = true →
      v = f.value ∧ x = ⟨ty, name, .function fnType args⟩)
    (listed : ∀ {v ty' name' f' i}, P v ⟨ty', name', .argument f' i⟩ →
      f' = f ∧ params[i]? = some ty')
    (pointer : t.data? ty = some (.pointer fnType 0)) (takes : t.Takes fnType params)
    (length : args.length = params.length) : g'.Signed t := by
  -- Old functions and arguments keep their types; the new ones have those that they come with.
  refine ⟨fun {v ty' name' fnType' args'} hv => ?_, fun {v ty' name' f' i} hv => ?_⟩
  · rcases gains.face.1 hv with hv | hp
    · exact h.function hv
    · obtain ⟨-, hface⟩ := function hp rfl
      cases hface
      exact ⟨pointer, params, takes, length⟩
  · rcases gains.face.1 hv with hv | hp
    · obtain ⟨ty'', name'', fnType', args', params', hf, takes', param⟩ := h.argument hv
      exact ⟨ty'', name'', fnType', args', params', gains.keep hf, takes', param⟩
    · obtain ⟨rfl, param⟩ := listed hp
      exact ⟨ty, name, fnType, args, params, gains.face.2 (.inr come), takes, param⟩

/-- A function goes with its arguments. -/
theorem remove {gone : List Value} (h : g.Signed t) (loses : g.Loses g' gone)
    (whole : ∀ {v ty name f i}, g.face? v = some ⟨ty, name, .argument f i⟩ →
      (v ∈ gone ↔ f.value ∈ gone)) : g'.Signed t := by
  refine ⟨fun hv => h.function (loses.face?_eq_some_iff.1 hv).2, fun hv => ?_⟩
  obtain ⟨hout, hv⟩ := loses.face?_eq_some_iff.1 hv
  obtain ⟨ty', name', fnType, args, params, hf, takes, param⟩ := h.argument hv
  exact ⟨ty', name', fnType, args, params,
    loses.face?_eq_some_iff.2 ⟨fun hin => hout ((whole hv).2 hin), hf⟩, takes, param⟩

end Signed

/-! ## The pool of constants -/

/-- The pool has the live constants. -/
structure Stocked (g : Graph) (pool : Keyed (Ty × Constant) Value) : Prop where
  /-- What is pooled under a type and a content is the constant of that type and content. -/
  entry : ∀ {ty k v}, pool.get? (ty, k) = some v ↔ ∃ name, g.face? v = some ⟨ty, name, .constant k⟩

/-- A pool fits a graph with the same constants. -/
theorem Stocked.same {pool : Keyed (Ty × Constant) Value} (h : g.Stocked pool)
    (same : Same .constant g g') : g'.Stocked pool :=
  ⟨h.entry.trans (same _ _ _ rfl).symm⟩

/-- A pool with a new constant fits the graph with its value. -/
theorem Stocked.add {pool : Keyed (Ty × Constant) Value} {ty : Ty} {name : Option String}
    {k : Constant} (h : g.Stocked pool) (gains : g.GainsOne g' v ⟨ty, name, .constant k⟩)
    (new : pool.get? (ty, k) = none) : g'.Stocked (pool.insert (ty, k) v) := by
  refine ⟨fun {ty' k' w} => ?_⟩
  rw [Keyed.get?_insert]
  simp only [gains.face, exists_or]
  split
  · -- For the new key the pool had nothing, so no older value is this constant.
    rename_i hkey
    cases hkey
    have none_was : ¬ ∃ name', g.face? w = some ⟨ty, name', .constant k⟩ := by
      simp [← h.entry, new]
    simp [none_was, eq_comm]
  · rename_i hkey
    rw [h.entry]
    refine ⟨.inl, ?_⟩
    rintro (hw | ⟨name', -, hface⟩)
    · exact hw
    · cases hface
      exact absurd rfl hkey

/-! ## The types of values -/

/-- The types of values are in the table. -/
structure Typed (g : Graph) (t : TypeTable) : Prop where
  /-- The type of a value is there, and so are those that its kind records. -/
  has : ∀ {v x}, g.face? v = some x → ∀ ty ∈ x.ty :: x.kind.types, t.Has ty

namespace Typed

variable {t t' : TypeTable}

/-- Values are typed in a grown table. -/
theorem grow (h : g.Typed t) (grows : t.GrowsTo t') : g.Typed t' :=
  ⟨fun hv ty hty => grows.has (h.has hv ty hty)⟩

/-- Values are typed in a graph that resembles theirs. -/
theorem resembles (h : g.Typed t) (same : g.Resembles g') : g'.Typed t := by
  refine ⟨fun {v x} hv => ?_⟩
  obtain ⟨y, hy, alike⟩ := same.symm.face hv
  rw [← alike.ty_eq, ← alike.types_eq]
  exact h.has hy

/-- Values are typed in a graph with more of them, if the new ones are. -/
theorem gains {P : Value → Face → Prop} (h : g.Typed t) (gains : g.Gains g' P)
    (typed : ∀ {v x}, P v x → ∀ ty ∈ x.ty :: x.kind.types, t.Has ty) : g'.Typed t := by
  refine ⟨fun {v x} hv => ?_⟩
  rcases gains.face.1 hv with hv | hp
  · exact h.has hv
  · exact typed hp

/-- Values are typed in a graph with fewer of them. -/
theorem loses {gone : List Value} (h : g.Typed t) (loses : g.Loses g' gone) : g'.Typed t :=
  ⟨fun hv => h.has (loses.face?_eq_some_iff.1 hv).2⟩

end Typed

end Graph

/-! ## Contexts -/

namespace Context

variable {c : Context} {graph : Graph}

/-- Everything a context keeps about its values is about live values of the right class. -/
structure Intact (c : Context) : Prop where
  /-- The layout fits the graph. -/
  layout : c.layout.Laid c.graph
  /-- The functions are registered. -/
  functions : c.graph.Registered c.functions c.names
  /-- Functions have their arguments. -/
  arguments : c.graph.Furnished
  /-- The constants are pooled. -/
  pool : c.graph.Stocked c.pool
  /-- The types are in the table. -/
  types : c.graph.Typed c.types
  /-- Functions and arguments have the types they are meant to have. -/
  signatures : c.graph.Signed c.types

/-- A new context is intact. -/
theorem intact_initial (id : ContextId) : (initial id).Intact := by
  -- Without values there is nothing to be listed, and nothing is.
  have none_alive : ∀ v, (Graph.initial id).face? v = none := by
    intro v
    simp [Graph.face?_eq_none_iff, Graph.initial, Graph.value?]
  have no_value : ∀ {cls v}, ¬ (Graph.initial id).Has cls v := by
    rintro cls v ⟨x, hx, -⟩
    rw [none_alive] at hx
    cases hx
  refine ⟨⟨Nest.linked_empty, Nest.linked_empty, ?_, ?_, ?_, ?_⟩, ⟨?_, .nil, ?_, ?_⟩, ⟨?_, ?_⟩, ⟨?_⟩,
    ⟨?_⟩, ⟨?_, ?_⟩⟩
  · simp [initial, Keyed.contains, Keyed.get?, no_value]
  · simp [initial, Keyed.contains, Keyed.get?, no_value]
  · simp [initial, Layout.instructions, Nest.members, Keyed.get?]
  · simp [initial, Layout.blocks, Nest.members, Keyed.get?]
  · simp [initial, no_value]
  · simp [initial, none_alive]
  · simp [initial, Keyed.get?, none_alive]
  · simp [initial, none_alive]
  · simp [initial, none_alive]
  · simp [initial, Keyed.get?, none_alive]
  · simp [initial, none_alive]
  · simp [initial, none_alive]
  · simp [initial, none_alive]

namespace Intact

/-- The type table grows. -/
theorem grow (h : c.Intact) {types : TypeTable} (grows : c.types.GrowsTo types) :
    Intact { c with types } :=
  ⟨h.layout, h.functions, h.arguments, h.pool, h.types.grow grows, h.signatures.grow grows⟩

/-- Values keep their faces or get similar ones. -/
theorem resembles (h : c.Intact) (same : c.graph.Resembles graph) : Intact { c with graph } := by
  have block : Graph.Same .block c.graph graph := same.same (by decide) (by decide)
  have argument : Graph.Same .argument c.graph graph := same.same (by decide) (by decide)
  have constant : Graph.Same .constant c.graph graph := same.same (by decide) (by decide)
  have function := same.fixed
  exact ⟨h.layout.same block function.same fun hi => same.has (h.layout.instruction_of_mem hi),
    h.functions.fixed function, h.arguments.same function.same argument, h.pool.same constant,
    h.types.resembles same, h.signatures.same function.same argument⟩

/-- Blocks and instructions are arranged anew. -/
theorem arrange (h : c.Intact) {layout : Layout} (laid : layout.Laid c.graph) :
    Intact { c with layout } :=
  ⟨laid, h.functions, h.arguments, h.pool, h.types, h.signatures⟩

/-- An instruction comes. -/
theorem instruction (h : c.Intact) {v : Value} {ty : Ty} {name : Option String} {op : Operation}
    (gains : c.graph.GainsOne graph v ⟨ty, name, .instruction op⟩)
    (typed : ∀ ty' ∈ ty :: op.types, c.types.Has ty') : Intact { c with graph } := by
  refine ⟨h.layout.same (gains.fixed_one rfl).same (gains.fixed_one rfl).same fun hi =>
      gains.has_iff.2 (.inl (h.layout.instruction_of_mem hi)),
    h.functions.fixed (gains.fixed_one rfl),
    h.arguments.same (gains.fixed_one rfl).same (gains.fixed_one rfl).same,
    h.pool.same (gains.fixed_one rfl).same, h.types.gains gains ?_,
    h.signatures.same (gains.fixed_one rfl).same (gains.fixed_one rfl).same⟩
  rintro w x ⟨rfl, rfl⟩
  exact typed

/-- A constant comes that the pool did not have. -/
theorem constant (h : c.Intact) {v : Value} {ty : Ty} {name : Option String} {k : Constant}
    (gains : c.graph.GainsOne graph v ⟨ty, name, .constant k⟩) (typed : c.types.Has ty)
    (new : c.pool.get? (ty, k) = none) :
    Intact { c with graph, pool := c.pool.insert (ty, k) v } := by
  refine ⟨h.layout.same (gains.fixed_one rfl).same (gains.fixed_one rfl).same fun hi =>
      gains.has_iff.2 (.inl (h.layout.instruction_of_mem hi)),
    h.functions.fixed (gains.fixed_one rfl),
    h.arguments.same (gains.fixed_one rfl).same (gains.fixed_one rfl).same,
    h.pool.add gains new, h.types.gains gains ?_,
    h.signatures.same (gains.fixed_one rfl).same (gains.fixed_one rfl).same⟩
  rintro w x ⟨rfl, rfl⟩ ty' hty'
  obtain rfl := List.mem_singleton.1 hty'
  exact typed

/-- A supply keeps a context intact. -/
theorem supply (h : c.Intact) {c' : Context} (step : c.Supply c') : c'.Intact := by
  cases step with
  | types step => exact h.grow step.growsTo
  | constant typed new => exact h.constant (Graph.gains_push ..) typed new

/-- Supplies keep a context intact. -/
theorem supplies (h : c.Intact) {c' : Context} (chain : Relation.ReflTransGen Supply c c') :
    c'.Intact := by
  induction chain with
  | refl => exact h
  | tail _ step ih => exact ih.supply step

/-- A block comes, without instructions. -/
theorem block (h : c.Intact) {b : Block} {ty : Ty} {name : Option String}
    (gains : c.graph.GainsOne graph b.value ⟨ty, name, .block⟩) (typed : c.types.Has ty) :
    Intact { c with graph, layout := c.layout.addBlock b } := by
  refine ⟨h.layout.addBlock gains rfl, h.functions.fixed (gains.fixed_one rfl),
    h.arguments.same (gains.fixed_one rfl).same (gains.fixed_one rfl).same,
    h.pool.same (gains.fixed_one rfl).same, h.types.gains gains ?_,
    h.signatures.same (gains.fixed_one rfl).same (gains.fixed_one rfl).same⟩
  rintro w x ⟨rfl, rfl⟩ ty' hty'
  obtain rfl := List.mem_singleton.1 hty'
  exact typed

/-- A function comes with its arguments, without blocks. -/
theorem function (h : c.Intact) {P : Value → Face → Prop} {f : Func} {ty fnType : Ty}
    {name : String} {args : List Argument} {params : List Ty} (gains : c.graph.Gains graph P)
    (come : P f.value ⟨ty, some name, .function fnType args⟩)
    (cases : ∀ {v x}, P v x → (v = f.value ∧ x = ⟨ty, some name, .function fnType args⟩) ∨
      ∃ ty' i, params[i]? = some ty' ∧ args[i]? = some ⟨v⟩ ∧ x = ⟨ty', none, .argument f i⟩)
    (argument : ∀ {i} {a : Argument}, args[i]? = some a → ∃ ty', P a.value ⟨ty', none, .argument f i⟩)
    (typed : ∀ {v x}, P v x → ∀ ty ∈ x.ty :: x.kind.types, c.types.Has ty)
    (pointer : c.types.data? ty = some (.pointer fnType 0)) (takes : c.types.Takes fnType params)
    (length : args.length = params.length) (free : c.names.get? name = none)
    (last : c.graph.values.size ≤ f.value.index) :
    Intact { c with
      graph, names := c.names.insert name f, functions := c.functions ++ [f],
      layout := c.layout.addFunction f } := by
  have function : ∀ {v x}, P v x → Class.function.contains x.kind = true →
      v = f.value ∧ x = ⟨ty, some name, .function fnType args⟩ := by
    intro v x hp hx
    rcases cases hp with hf | ⟨ty', i, -, -, rfl⟩
    · exact hf
    · cases hx
  -- The parts that are about other classes do not notice.
  have apart : ∀ {cls : Class}, cls.contains (.function fnType args) = false →
      (∀ i, cls.contains (.argument f i) = false) →
      Graph.Fixed cls c.graph graph := by
    intro cls hf ha
    refine gains.fixed fun hp => ?_
    rcases cases hp with ⟨-, rfl⟩ | ⟨ty', i, -, -, rfl⟩
    · exact hf
    · exact ha i
  have listed : ∀ {v ty' name' f' i}, P v ⟨ty', name', .argument f' i⟩ →
      f' = f ∧ args[i]? = some ⟨v⟩ ∧ params[i]? = some ty' := by
    intro v ty' name' f' i hp
    rcases cases hp with ⟨-, hx⟩ | ⟨ty'', j, param, arg, hx⟩
    · cases hx
    · cases hx
      exact ⟨rfl, arg, param⟩
  -- Each part of the invariant learns of the function, of its arguments, or of neither.
  refine ⟨h.layout.addFunction gains ?_ ?_ ⟨_, come⟩,
    h.functions.add gains come function rfl rfl free last,
    h.arguments.add gains come function ?_ fun hp => ⟨(listed hp).1, (listed hp).2.1⟩,
    h.pool.same (apart rfl fun _ => rfl).same, h.types.gains gains typed,
    h.signatures.add gains come function (fun hp => ⟨(listed hp).1, (listed hp).2.2⟩) pointer takes
      length⟩
  · intro v x hp
    rcases cases hp with ⟨-, rfl⟩ | ⟨ty', i, -, -, rfl⟩ <;> rfl
  · intro v x hp
    refine ⟨fun hx => (function hp hx).1, ?_⟩
    rintro rfl
    -- A value comes with one face.
    have same := (gains.face.2 (.inr hp)).symm.trans (gains.face.2 (.inr come))
    rw [Option.some.inj same]
    rfl
  · intro i a ha
    obtain ⟨ty', hp⟩ := argument ha
    exact ⟨ty', none, hp⟩

/-- A function gets a name that was free. -/
theorem rename (h : c.Intact) {f : Func} {old name : String} {x : Face}
    (hv : c.graph.face? f.value = some x) (hx : Class.function.contains x.kind = true)
    (hold : x.name = some old) (free : c.names.get? name = none)
    (face : ∀ w, graph.face? w =
      if w = f.value then some { x with name := some name } else c.graph.face? w) :
    Intact { c with graph, names := (c.names.erase old).insert name f } := by
  have same : ∀ {cls}, Graph.Same cls c.graph graph := Graph.same_of_rename hv face
  refine ⟨h.layout.same same same fun hi => same.has_iff.2 (h.layout.instruction_of_mem hi),
    h.functions.rename hv hx hold free face, h.arguments.same same same, h.pool.same same, ⟨?_⟩,
    h.signatures.same same same⟩
  intro v y hv'
  rw [face] at hv'
  split at hv'
  · cases hv'
    have typed := h.types.has hv
    exact typed
  · exact h.types.has hv'

end Intact

end Context

end SsaGraph
