import SsaGraph.Proofs.Arrangement

/-!
# Functions, names and arguments

A context knows its functions in three ways: from the list of functions, from the names that lead to
them, and from the values themselves, which have a kind and a name of their own. The arguments of a
function are listed by the function, and know the function and their number. `Registry` says that
all of this agrees, through whatever was created, renamed or erased, and that functions and
arguments have the types that the function type asks for.
-/

namespace SsaGraph

namespace Context

variable {c : Context}

/-! ## Faces and questions -/

/-- The face of a value is what it answers for its type, its name and its kind. -/
theorem face?_eq_some_iff (hs : c.Sound) {v : Value} {ty : Ty} {name : Option String}
    {kind : ValueKind} : c.graph.face? v = some ⟨ty, name, kind⟩ ↔
      c.typeOf v = .ok ty ∧ c.nameOf v = .ok name ∧ c.kindOf v = .ok kind := by
  simp only [typeOf, nameOf, kindOf, Question.bind_eq_ok_iff, valueData_eq_ok_iff hs,
    Question.pure_eq_ok_iff]
  constructor
  · intro hv
    obtain ⟨d, hd, hface⟩ := Graph.value?_of_face? hv
    cases hface
    exact ⟨⟨d, hd, rfl⟩, ⟨d, hd, rfl⟩, d, hd, rfl⟩
  · rintro ⟨⟨d, hd, rfl⟩, ⟨d', hd', rfl⟩, d'', hd'', rfl⟩
    rw [hd] at hd' hd''
    cases hd'
    cases hd''
    exact Graph.face?_of_value? hd

/-- The data of a function is what its face records. -/
theorem functionData_iff_face (hs : c.Sound) {f : Func} {fnType : Ty} {args : List Argument} :
    c.functionData f = .ok (fnType, args) ↔
      ∃ ty name, c.graph.face? f.value = some ⟨ty, name, .function fnType args⟩ := by
  rw [functionData_eq_ok_iff hs]
  constructor
  · rintro ⟨d, hd, hkind⟩
    exact ⟨d.ty, d.name, by rw [Graph.face?_of_value? hd, hkind]⟩
  · rintro ⟨ty, name, hf⟩
    obtain ⟨d, hd, hface⟩ := Graph.value?_of_face? hf
    exact ⟨d, hd, (congrArg Face.kind hface).symm⟩

/-- The data of an argument is what its face records. -/
theorem argumentData_of_face (hs : c.Sound) {a : Argument} {ty : Ty} {name : Option String}
    {f : Func} {i : Nat} (ha : c.graph.face? a.value = some ⟨ty, name, .argument f i⟩) :
    c.argumentData a = .ok (f, i) := by
  obtain ⟨-, -, hk⟩ := (face?_eq_some_iff hs).1 ha
  exact Question.bind_eq_ok_iff.2 ⟨_, hk, rfl⟩

/-- The live functions are those that have the data of one. -/
theorem isa_function_iff (hs : c.Sound) {f : Func} : c.isa .function f.value = .ok true ↔
    ∃ fnType args, c.functionData f = .ok (fnType, args) := by
  rw [isa_eq_true_iff hs]
  simp only [functionData_iff_face hs]
  constructor
  · rintro ⟨⟨ty, name, kind⟩, hv, hkind⟩
    cases kind with
    | function fnType args => exact ⟨fnType, args, ty, name, hv⟩
    | _ => cases hkind
  · rintro ⟨fnType, args, ty, name, hv⟩
    exact ⟨_, hv, rfl⟩

/-! ## The registry -/

/-- The list of functions, their names and their arguments agree with the values. -/
structure Registry (c : Context) : Prop where
  /-- The functions that are listed are the live ones. -/
  listed : ∀ {f}, f ∈ c.functions ↔ c.isa .function f.value = .ok true
  /-- They are listed in the order of their creation, and each once. -/
  ordered : c.functions.Pairwise (·.value.id < ·.value.id)
  /-- A name leads to the live function that has it. -/
  found : ∀ {name f}, c.getFunction? name = some f ↔
    c.isa .function f.value = .ok true ∧ c.nameOf f.value = .ok (some name)
  /-- Every function has a name. -/
  named : ∀ {f : Func}, c.isa .function f.value = .ok true →
    ∃ name, c.nameOf f.value = .ok (some name)
  /-- No two functions have the same name. -/
  unique : ∀ {f f' : Func} {name}, c.isa .function f.value = .ok true →
    c.isa .function f'.value = .ok true → c.nameOf f.value = .ok (some name) →
    c.nameOf f'.value = .ok (some name) → f = f'
  /-- The live functions are those that have a function type and arguments. -/
  function : ∀ {f : Func}, c.isa .function f.value = .ok true ↔
    ∃ fnType args, c.functionData f = .ok (fnType, args)
  /-- A function is a pointer to its function type, and there is no other such pointer. -/
  pointer : ∀ {f fnType args}, c.functionData f = .ok (fnType, args) →
    ∃ ty, c.typeOf f.value = .ok ty ∧
      ∀ ty', c.types.data ty' = .ok (.pointer fnType 0) ↔ ty' = ty
  /-- A function has an argument for each parameter, which knows the function and its number, and has
  the type of the parameter. -/
  arguments : ∀ {f fnType args}, c.functionData f = .ok (fnType, args) →
    ∃ ret params varArg, c.types.data fnType = .ok (.function ret params varArg) ∧
      args.length = params.length ∧ ∀ {i a p}, args[i]? = some a → params[i]? = some p →
        c.isa .argument a.value = .ok true ∧ c.argumentData a = .ok (f, i) ∧
          c.typeOf a.value = .ok p
  /-- Every argument is listed by one function, and by no other. -/
  argument : ∀ {a : Argument}, c.isa .argument a.value = .ok true →
    ∃! f : Func, ∃ fnType args, c.functionData f = .ok (fnType, args) ∧ a ∈ args

/-- A name finds a function exactly when the function is alive and has this name. -/
theorem getFunction?_iff (hs : c.Sound) (hi : c.Intact) {name : String} {f : Func} :
    c.getFunction? name = some f ↔
      c.isa .function f.value = .ok true ∧ c.nameOf f.value = .ok (some name) := by
  rw [getFunction?, hi.functions.entry, isa_eq_true_iff hs]
  -- The index of names agrees with the names of the live functions, in both directions.
  constructor
  · rintro ⟨⟨ty, _, kind⟩, hv, hkind, rfl⟩
    exact ⟨⟨_, hv, hkind⟩, ((face?_eq_some_iff hs).1 hv).2.1⟩
  · rintro ⟨⟨⟨ty, name', kind⟩, hv, hkind⟩, hname⟩
    refine ⟨_, hv, hkind, ?_⟩
    rw [((face?_eq_some_iff hs).1 hv).2.1] at hname
    exact Except.ok.inj hname

/-- A function has the pointer type to its function type, which is unique. -/
theorem pointer_of_function (hs : c.Sound) (hi : c.Intact) {f : Func} {fnType : Ty}
    {args : List Argument} (hf : c.functionData f = .ok (fnType, args)) :
    ∃ ty, c.typeOf f.value = .ok ty ∧
      ∀ ty', c.types.data ty' = .ok (.pointer fnType 0) ↔ ty' = ty := by
  obtain ⟨ty, name, hv⟩ := (functionData_iff_face hs).1 hf
  have pointer := (hi.signatures.function hv).1
  refine ⟨ty, ((face?_eq_some_iff hs).1 hv).1, fun ty' => ?_⟩
  rw [TypeTable.data_eq_ok_iff]
  constructor
  · intro pointer'
    exact hs.types.canonical pointer' pointer rfl
  · rintro rfl
    exact pointer

/-- The arguments of a function correspond to the parameters of its type, in order. -/
theorem arguments_of_function (hs : c.Sound) (hi : c.Intact) {f : Func} {fnType : Ty}
    {args : List Argument} (hf : c.functionData f = .ok (fnType, args)) :
    ∃ ret params varArg, c.types.data fnType = .ok (.function ret params varArg) ∧
      args.length = params.length ∧ ∀ {i a p}, args[i]? = some a → params[i]? = some p →
        c.isa .argument a.value = .ok true ∧ c.argumentData a = .ok (f, i) ∧
          c.typeOf a.value = .ok p := by
  obtain ⟨ty, name, hv⟩ := (functionData_iff_face hs).1 hf
  obtain ⟨-, params, ⟨ret, varArg, hd⟩, length⟩ := hi.signatures.function hv
  refine ⟨ret, params, varArg, TypeTable.data_eq_ok_iff.2 hd, length, fun {i a p} harg hparam => ?_⟩
  obtain ⟨ty', name', ha⟩ := hi.arguments.argument hv harg
  refine ⟨(isa_eq_true_iff hs).2 ⟨_, ha, rfl⟩, argumentData_of_face hs ha, ?_⟩
  -- The argument has the type of a parameter, of this function and with this number.
  obtain ⟨_, _, _, _, params', hv', ⟨_, _, hd'⟩, hparam'⟩ := hi.signatures.argument ha
  rw [hv] at hv'
  cases hv'
  rw [hd] at hd'
  cases hd'
  rw [hparam] at hparam'
  cases hparam'
  exact ((face?_eq_some_iff hs).1 ha).1

/-- An argument belongs to exactly one function. -/
theorem function_of_argument (hs : c.Sound) (hi : c.Intact) {a : Argument}
    (ha : c.isa .argument a.value = .ok true) :
    ∃! f : Func, ∃ fnType args, c.functionData f = .ok (fnType, args) ∧ a ∈ args := by
  obtain ⟨⟨ty, name, kind⟩, hv, hkind⟩ := (isa_eq_true_iff hs).1 ha
  cases kind with
  | argument f i =>
    obtain ⟨ty', name', fnType, args, hf, hi'⟩ := hi.arguments.parent hv
    refine ⟨f, ⟨fnType, args, (functionData_iff_face hs).2 ⟨ty', name', hf⟩,
      List.mem_of_getElem? hi'⟩, ?_⟩
    -- Whatever lists the argument is what the argument has as its function.
    rintro f' ⟨fnType', args', hf', hmem⟩
    obtain ⟨_, _, hv'⟩ := (functionData_iff_face hs).1 hf'
    obtain ⟨j, hj⟩ := List.mem_iff_getElem?.1 hmem
    obtain ⟨_, _, hv''⟩ := hi.arguments.argument hv' hj
    rw [hv] at hv''
    cases hv''
    rfl
  | _ => cases hkind

/-- In every context that class-checked requests lead to, the list of functions, their names and
their arguments agree with the values. -/
theorem ReachedBy.registry_agrees (hc : ClassChecked c) : c.Registry := by
  have hs := hc.sound
  have hi := hc.intact
  constructor
  case listed => exact hi.functions.mem.trans (isa_eq_true_iff hs).symm
  case ordered => exact hi.functions.ordered.imp Nat.succ_lt_succ
  case found => exact getFunction?_iff hs hi
  case named =>
    intro f hf
    obtain ⟨⟨ty, _, kind⟩, hv, hkind⟩ := (isa_eq_true_iff hs).1 hf
    obtain ⟨name, rfl⟩ := hi.functions.named hv hkind
    exact ⟨name, ((face?_eq_some_iff hs).1 hv).2.1⟩
  -- Two functions of one name would both be found under it.
  case unique =>
    intro f f' name hf hf' hname hname'
    have found := (getFunction?_iff hs hi).2 ⟨hf, hname⟩
    rw [(getFunction?_iff hs hi).2 ⟨hf', hname'⟩] at found
    exact (Option.some.inj found).symm
  case function => exact isa_function_iff hs
  case pointer => exact pointer_of_function hs hi
  case arguments => exact arguments_of_function hs hi
  case argument => exact function_of_argument hs hi

/-- For instance, when a function took the name of another that was erased. -/
theorem registry_after_rename : ∃ c : Context,
    replay [.functionType ⟨⟨1⟩, 0⟩ [⟨⟨1⟩, 9⟩, ⟨⟨1⟩, 9⟩] false, .newFunction "f" ⟨⟨1⟩, 11⟩,
      .newFunction "g" ⟨⟨1⟩, 11⟩, .newFunction "h" ⟨⟨1⟩, 11⟩, .eraseFunction ⟨⟨⟨1⟩, 0⟩⟩,
      .setName ⟨⟨1⟩, 6⟩ (some "f"), .setName ⟨⟨1⟩, 6⟩ (some "f"),
      .setName ⟨⟨1⟩, 3⟩ (some "h")] (.initial ⟨1⟩) = some c ∧
    (c.functions = [⟨⟨⟨1⟩, 3⟩⟩, ⟨⟨⟨1⟩, 6⟩⟩] ∧ c.getFunction? "f" = some ⟨⟨⟨1⟩, 6⟩⟩ ∧
      c.getFunction? "g" = none ∧ c.getFunction? "h" = some ⟨⟨⟨1⟩, 3⟩⟩) ∧
    c.Registry :=
  exists_replay _ _ (by decide +kernel) fun c hc _ => ReachedBy.registry_agrees hc

end Context

end SsaGraph
