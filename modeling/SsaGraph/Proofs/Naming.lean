import Mathlib.Data.List.Perm.Subperm
import SsaGraph.Proofs.Stratification

/-!
# Names of structs

The name that an identified struct gets is given by rules (`Naming`). A struct that asks for a name
which another struct has gets that name with a number: the first free one after the last number that
was used so in the table. There is a free one, since `n` names cannot be all of `n + 1` numbered
names (`exists_free`), and users may have given their structs names that look numbered.

The index by name has exactly the structs with names (`Indexed`), after whatever changes of the
table. A struct that is named is new, or its old name has just been freed. Either way the index is
right about the other structs and does not have this one, so that a name is taken in the index if
another struct has it.
-/

namespace SsaGraph

namespace TypeTable

variable {t t' : TypeTable} {ty w : Ty} {name : String} {d : TypeData}

/-! ## Numbered names -/

/-- Different numbers make different names. -/
theorem numbered_injective (name : String) : Function.Injective (numbered name) := by
  intro j k h
  have digits : toString j = toString k := by simpa [numbered] using h
  rw [Nat.toString_eq_ofList_toDigits, Nat.toString_eq_ofList_toDigits, String.ofList_inj] at digits
  calc j = Nat.ofDigitChars 10 (Nat.toDigits 10 j) 0 :=
        (Nat.ofDigitChars_toDigits (by decide) (by decide)).symm
    _ = Nat.ofDigitChars 10 (Nat.toDigits 10 k) 0 := by rw [digits]
    _ = k := Nat.ofDigitChars_toDigits (by decide) (by decide)

/-- A numbered name is not empty. -/
theorem numbered_ne_empty (name : String) (k : Nat) : numbered name k ≠ "" := by
  simp [numbered]

/-- A name that is taken is in the index. -/
theorem mem_keys_of_isTaken (h : t.isTaken name = true) :
    name ∈ t.names.entries.map Prod.fst := by
  simp only [isTaken, structByName?, Keyed.get?, Option.isSome_map, List.find?_isSome] at h
  obtain ⟨entry, hmem, hname⟩ := h
  exact List.mem_map.2 ⟨entry, hmem, of_decide_eq_true hname⟩

/-- Of one more numbered names than there are names, one is free. -/
theorem exists_free (t : TypeTable) (name : String) (k : Nat) :
    ∃ j, k ≤ j ∧ j ≤ k + t.names.entries.length ∧ t.isTaken (numbered name j) = false := by
  by_contra none
  -- There are more candidates than names in the index, so not all of them are taken.
  have distinct : ((List.range (t.names.entries.length + 1)).map fun i =>
      numbered name (k + i)).Nodup :=
    List.nodup_range.map fun i j h => Nat.add_left_cancel (numbered_injective name h)
  have taken : ((List.range (t.names.entries.length + 1)).map fun i => numbered name (k + i)) ⊆
      t.names.entries.map Prod.fst := by
    intro n hn
    obtain ⟨i, hi, rfl⟩ := List.mem_map.1 hn
    rw [List.mem_range] at hi
    apply mem_keys_of_isTaken
    by_contra free
    exact none ⟨k + i, by omega, by omega, Bool.eq_false_iff.2 free⟩
  have := (List.subperm_of_subset distinct taken).length_le
  simp only [List.length_map, List.length_range] at this
  omega

/-- If there is a free number among those looked at, the first is found. -/
theorem freeNumber_least {tries k : Nat}
    (h : ∃ j, k ≤ j ∧ j ≤ k + tries ∧ t.isTaken (numbered name j) = false) :
    k ≤ t.freeNumber name tries k ∧
      t.isTaken (numbered name (t.freeNumber name tries k)) = false ∧
      ∀ j, k ≤ j → j < t.freeNumber name tries k → t.isTaken (numbered name j) = true := by
  obtain ⟨j, lower, upper, free⟩ := h
  -- On the tries that are left; the first candidate that is free ends the search.
  induction tries generalizing k with
  | zero =>
    obtain rfl : j = k := by omega
    exact ⟨Nat.le_refl _, free, fun i hi hlt => absurd hlt (Nat.not_lt.2 hi)⟩
  | succ tries ih =>
    unfold freeNumber
    split
    · rename_i taken
      have ne : j ≠ k := by
        rintro rfl
        rw [free] at taken
        cases taken
      obtain ⟨le, free, least⟩ := ih (k := k + 1) (by omega) (by omega)
      refine ⟨by omega, free, fun i hi hlt => ?_⟩
      by_cases hik : i = k
      · rw [hik]
        exact taken
      · exact least i (by omega) hlt
    · rename_i free
      exact ⟨Nat.le_refl _, Bool.eq_false_iff.2 free, fun i hi hlt => absurd hlt (Nat.not_lt.2 hi)⟩

/-! ## The name that a struct gets -/

/-- The name that a struct gets when it asks for one, and the last number used before and after.
Other structs have the names that are `held`. -/
inductive Naming (held : String → Prop) (suffix : Nat) : Option String → Option String → Nat → Prop
  /-- No name is asked for. -/
  | missing : Naming held suffix none none suffix
  /-- The empty name is no name. -/
  | empty : Naming held suffix (some "") none suffix
  /-- The name is free. -/
  | free {name : String} (nonempty : name ≠ "") (free : ¬ held name) :
    Naming held suffix (some name) (some name) suffix
  /-- The name is held, and gets the least number after the last one used with which it is free. -/
  | numbered {name : String} {k : Nat} (nonempty : name ≠ "") (taken : held name) (after : suffix < k)
    (free : ¬ held (numbered name k))
    (least : ∀ j, suffix < j → j < k → held (TypeTable.numbered name j)) :
    Naming held suffix (some name) (some (TypeTable.numbered name k)) k

/-- A name that is given is not empty. -/
theorem Naming.nonempty {held : String → Prop} {suffix suffix' : Nat} {wanted : Option String}
    (h : Naming held suffix wanted (some name) suffix') : name ≠ "" := by
  cases h with
  | free nonempty _ => exact nonempty
  | numbered => exact numbered_ne_empty _ _

/-- A name that is given was held by nothing. -/
theorem Naming.not_held {held : String → Prop} {suffix suffix' : Nat} {wanted : Option String}
    (h : Naming held suffix wanted (some name) suffix') : ¬ held name := by
  cases h with
  | free _ free => exact free
  | numbered _ _ _ free _ => exact free

/-- A struct is named by the rules, and found by its name. -/
theorem assignName_naming {held : String → Prop} (taken : ∀ n, t.isTaken n = true ↔ held n)
    (data : t.data? ty = some d) (wanted : Option String) (body : Option StructBody) :
    ∃ name, Naming held t.suffix wanted name (t.assignName ty wanted body).suffix ∧
      (∀ w, (t.assignName ty wanted body).data? w =
        if w = ty then some (.identified name body) else t.data? w) ∧
      ∀ n, (t.assignName ty wanted body).names.get? n =
        if name = some n then some ty else t.names.get? n := by
  cases wanted with
  | none => exact ⟨none, .missing, data?_setData data _, fun n => rfl⟩
  | some wanted =>
    by_cases nonempty : wanted = ""
    · subst nonempty
      exact ⟨none, .empty, data?_setData data _, fun n => rfl⟩
    · -- The name is that of `uniqueName`, which is entered in the index and the description.
      have assigned : ∀ {unique suffix}, t.uniqueName wanted = (unique, suffix) →
          t.assignName ty (some wanted) body =
            { t.setData ty (.identified (some unique) body) with
              names := t.names.insert unique ty, suffix } := by
        intro unique suffix h
        simp [assignName, Option.filter, nonempty, h]
      have entered : ∀ unique n, (t.names.insert unique ty).get? n =
          if some unique = some n then some ty else t.names.get? n := by
        intro unique n
        rw [Keyed.get?_insert]
        simp only [Option.some.injEq, eq_comm]
      by_cases hold : t.isTaken wanted = true
      · -- The wanted name is taken, so a number is searched behind the last one that was given.
        obtain ⟨after, free, least⟩ :=
          freeNumber_least (t.exists_free wanted (t.suffix + 1))
        rw [assigned (if_pos hold)]
        refine ⟨_, .numbered nonempty ((taken _).1 hold) after ?_ fun j hj hlt => ?_,
          data?_setData data _, entered _⟩
        · rw [← taken, free]
          exact Bool.false_ne_true
        · exact (taken _).1 (least j hj hlt)
      · rw [assigned (if_neg hold)]
        exact ⟨_, .free nonempty (mt (taken _).2 hold), data?_setData data _, entered _⟩

/-! ## The index by name -/

/-- The index by name has the structs that have names, each by its name, if they are among `P`. -/
structure Indexes (t : TypeTable) (P : Ty → Prop) : Prop where
  found : ∀ {n w}, t.names.get? n = some w ↔
    P w ∧ ∃ body, t.data? w = some (.identified (some n) body)
  nonempty : ∀ {n w body}, P w → t.data? w = some (.identified (some n) body) → n ≠ ""

/-- The index by name has the structs that have names, each by its name. -/
def Indexed (t : TypeTable) : Prop := t.Indexes fun _ => True

/-- No two structs have the same name. -/
theorem Indexed.unique (h : t.Indexed) {a b : Ty} {body body' : Option StructBody}
    (ha : t.data? a = some (.identified (some name) body))
    (hb : t.data? b = some (.identified (some name) body')) : a = b := by
  have found := h.found.2 ⟨trivial, body, ha⟩
  rw [h.found.2 ⟨trivial, body', hb⟩] at found
  exact (Option.some.inj found).symm

/-- A new table is indexed. -/
theorem indexed_initial (ctx : ContextId) : (initial ctx).Indexed := by
  have structs : ∀ d ∈ primitives, d.isNominal = false := by decide
  have none : ∀ {w name body}, (initial ctx).data? w ≠ some (.identified name body) := by
    intro w name body h
    have hc : w.ctx = ctx := ctx_of_data? h
    have hget : primitives[w.index]? = some (.identified name body) := by
      simpa [data?, initial, hc] using h
    cases structs _ (Array.mem_iff_getElem?.2 ⟨_, hget⟩)
  refine ⟨fun {n w} => ⟨fun h => ?_, ?_⟩, fun _ h => absurd h none⟩
  · cases h
  · rintro ⟨-, body, h⟩
    exact absurd h none

/-- What is true of an index only depends on the structs with names. -/
theorem Indexes.congr {P Q : Ty → Prop} (h : t.Indexes P) (names : t'.names = t.names)
    (same : ∀ {w n}, (Q w ∧ ∃ body, t'.data? w = some (.identified (some n) body)) ↔
      P w ∧ ∃ body, t.data? w = some (.identified (some n) body)) : t'.Indexes Q := by
  constructor
  · intro n w
    rw [names, h.found, same]
  · intro n w body hQ hd
    obtain ⟨hP, _, hd⟩ := same.1 ⟨hQ, body, hd⟩
    exact h.nonempty hP hd

/-- Another struct than `ty` has the name. -/
def HeldByOther (t : TypeTable) (ty : Ty) (name : String) : Prop :=
  ∃ w body, w ≠ ty ∧ t.data w = .ok (.identified (some name) body)

/-- If the index has all but one struct, the names that are taken are held by others. -/
theorem Indexes.isTaken_iff (h : t.Indexes (· ≠ ty)) {n : String} :
    t.isTaken n = true ↔ t.HeldByOther ty n := by
  rw [isTaken, structByName?, Option.isSome_iff_exists]
  simp only [h.found, HeldByOther, data_eq_ok_iff, exists_and_left]

/-- The struct that the index does not have is new, or its name has just been freed. Naming it makes
the index complete. -/
theorem Indexes.assignName (h : t.Indexes (· ≠ ty)) (data : t.data? ty = some d)
    (wanted : Option String) (body : Option StructBody) : (t.assignName ty wanted body).Indexed := by
  obtain ⟨name, naming, after, names⟩ := assignName_naming (fun _ => h.isTaken_iff) data wanted body
  constructor
  · intro n w
    -- The index is compared at one name and one type; only those of `ty` have changed.
    rw [names, after, true_and]
    by_cases hw : w = ty
    · subst hw
      rw [if_pos rfl]
      constructor
      · intro hn
        split at hn
        · rename_i heq
          exact ⟨body, by rw [heq]⟩
        · exact absurd rfl (h.found.1 hn).1
      · rintro ⟨body', heq⟩
        cases heq
        exact if_pos rfl
    · rw [if_neg hw]
      split
      · -- The name belongs to `ty` now, and no other struct had it.
        rename_i hn
        subst hn
        refine ⟨fun heq => absurd (Option.some.inj heq).symm hw, ?_⟩
        rintro ⟨body', hd⟩
        exact absurd ⟨w, body', hw, data_eq_ok_iff.2 hd⟩ naming.not_held
      · rw [h.found, and_iff_right hw]
  · intro n w body' _ hd
    rw [after] at hd
    split at hd
    · cases hd
      exact naming.nonempty
    · exact h.nonempty ‹_› hd

/-- After the name of a struct was freed, the index has all structs but this one. -/
theorem Indexes.releaseName {old : Option String} {body : Option StructBody} (h : t.Indexed)
    (data : t.data? ty = some (.identified old body)) : (t.releaseName old).Indexes (· ≠ ty) := by
  constructor
  · intro n w
    rw [data?_releaseName]
    -- What is released is the name that `ty` has, if it has one.
    have mine : w = ty → ∀ body', t.data? w = some (.identified (some n) body') → old = some n := by
      rintro rfl body' hd
      rw [data] at hd
      cases hd
      rfl
    cases old with
    | none =>
      refine h.found.trans ⟨?_, And.imp_left fun _ => trivial⟩
      rintro ⟨-, body', hd⟩
      exact ⟨fun heq => (by cases mine heq body' hd), body', hd⟩
    | some old =>
      show (t.names.erase old).get? n = some w ↔ _
      rw [Keyed.get?_erase]
      split
      · -- The freed name was the name of `ty` alone.
        rename_i hn
        subst hn
        constructor
        · intro hnone
          cases hnone
        · rintro ⟨hw, body', hd⟩
          exact absurd (Indexed.unique h hd data) hw
      · rename_i hn
        refine h.found.trans ⟨?_, And.imp_left fun _ => trivial⟩
        rintro ⟨-, body', hd⟩
        exact ⟨fun heq => hn (Option.some.inj (mine heq body' hd)).symm, body', hd⟩
  · intro n w body' _ hd
    rw [data?_releaseName] at hd
    exact h.nonempty trivial hd

/-- A struct that has just been created is not in the index. -/
theorem Indexes.push (h : t.Indexed) :
    (t.push (.identified none none)).2.Indexes (· ≠ (t.push (.identified none none)).1) := by
  refine Indexes.congr h rfl fun {w n} => ?_
  rw [data?_push, true_and]
  by_cases hw : w = (t.push (.identified none none)).1
  · subst hw
    rw [show t.data? (t.push (.identified none none)).1 = none from data?_next t]
    simp
  · rw [if_neg hw, and_iff_right hw]

/-- Entering a type keeps the others. -/
theorem data?_intern_of_data? (hd : t.data? ty = some d) (new : TypeData) :
    (t.intern new).2.data? ty = some d := by
  unfold intern
  split
  · exact hd
  · refine (data?_push t new ty).trans ?_
    rw [if_neg, hd]
    rintro rfl
    rw [show t.data? (t.push new).1 = none from data?_next t] at hd
    cases hd

/-- A change of the table keeps its names indexed. -/
theorem Change.indexed (h : t.Change t') (ht : t.Indexed) : t'.Indexed := by
  -- A new structure is named after it is pushed; a renamed one gives its name up first.
  cases h with
  | @enter d structural _ =>
    -- An entry that is its description has no name.
    refine Indexes.congr ht ?_ fun {w n} => ?_
    · unfold intern
      split <;> rfl
    · rw [true_and, true_and]
      refine exists_congr fun body => ⟨fun hd => ?_, fun hd => ?_⟩
      · rcases intern_cases hd with hd | ⟨-, rfl⟩
        · exact hd
        · cases structural
      · exact data?_intern_of_data? hd d
  | reform h =>
    cases h with
    | create name =>
      exact (Indexes.push ht).assignName (by rw [data?_push, if_pos rfl]) name none
    | @complete ty name body data _ =>
      refine Indexes.congr ht rfl fun {w n} => ?_
      rw [data?_setData data]
      split
      · subst w
        rw [data]
        simp
      · rfl
    | @rename ty old body name data =>
      exact (Indexes.releaseName ht data).assignName ((data?_releaseName t old ty).trans data) name
        body

/-! ## Naming a struct -/

/-- From `t` to `t'` the struct `ty` has got a name by the rules, and its body is `body`. -/
structure Names (t t' : TypeTable) (ty : Ty) (wanted name : Option String)
    (body : Option StructBody) : Prop where
  /-- The name is the one that the rules give, and so is the last number used. -/
  naming : Naming (t.HeldByOther ty) t.suffix wanted name t'.suffix
  /-- The struct has the name. -/
  data : t'.data ty = .ok (.identified name body)
  /-- The other types, with their names, are what they were. -/
  others : ∀ {w d}, w ≠ ty → (t'.data w = .ok d ↔ t.data w = .ok d)
  /-- The name that the struct had is free, unless the struct has it again. -/
  freed : ∀ {old body}, t.data ty = .ok (.identified (some old) body) → name ≠ some old →
    t'.structByName? old = none

/-- What naming does to a table `t₀` with an incomplete index, seen from a table `t` that differs
from it in the index and in `ty` only. -/
theorem Indexes.names {t₀ : TypeTable} (h : t₀.Indexes (· ≠ ty)) (data : t₀.data? ty = some d)
    (suffix : t₀.suffix = t.suffix) (same : ∀ w, w ≠ ty → t₀.data? w = t.data? w)
    (gone : ∀ {old body}, t.data? ty = some (.identified (some old) body) → t₀.names.get? old = none)
    (wanted : Option String) (body : Option StructBody) :
    ∃ name, t.Names (t₀.assignName ty wanted body) ty wanted name body := by
  have held : ∀ n, t₀.isTaken n = true ↔ t.HeldByOther ty n := by
    intro n
    rw [h.isTaken_iff]
    refine exists_congr fun w => exists_congr fun body => and_congr_right fun hw => ?_
    rw [data_eq_ok_iff, data_eq_ok_iff, same w hw]
  obtain ⟨name, naming, after, names⟩ := assignName_naming held data wanted body
  rw [suffix] at naming
  refine ⟨name, naming, ?_, fun {w d} hw => ?_, fun {old body} hd hne => ?_⟩
  · rw [data_eq_ok_iff, after, if_pos rfl]
  · rw [data_eq_ok_iff, data_eq_ok_iff, after, if_neg hw, same w hw]
  · rw [structByName?, names, if_neg hne, gone (data_eq_ok_iff.1 hd)]

/-- Creating a struct succeeds. -/
theorem createStruct_names (h : t.Indexed) (wanted : Option String) :
    ∃ ty name t', createStruct wanted t = .ok ty t' ∧ t.data? ty = none ∧
      t.Names t' ty wanted name none := by
  have new : t.data? (t.push (.identified none none)).1 = none := data?_next t
  have data : (t.push (.identified none none)).2.data? (t.push (.identified none none)).1 =
      some (.identified none none) := by
    rw [data?_push, if_pos rfl]
  obtain ⟨name, names⟩ := (Indexes.push h).names (t := t) data rfl
    (fun w hw => by rw [data?_push, if_neg hw]) (fun hd => by rw [new] at hd; cases hd) wanted none
  exact ⟨_, name, _, rfl, new, names⟩

/-- Giving a body to a struct that has just been named. -/
theorem Names.setBody {wanted name' : Option String} (h : t.Names t' ty wanted name' none)
    (body : StructBody) :
    t.Names (t'.setData ty (.identified name' (some body))) ty wanted name' (some body) := by
  have data := data?_setData (data_eq_ok_iff.1 h.data)
  refine ⟨h.naming, ?_, fun {w d} hw => ?_, h.freed⟩
  · rw [data_eq_ok_iff, data, if_pos rfl]
  · rw [← h.others hw, data_eq_ok_iff, data_eq_ok_iff, data, if_neg hw]

/-- Creating a struct with a body succeeds if the fields are types that fields can have. -/
theorem createStructWithBody_names (h : t.Indexed) (wanted : Option String) {fields : List Ty}
    (fit : ∀ field ∈ fields, t.PartFits (·.canBeField) field) (packed : Bool) :
    ∃ ty name t', createStructWithBody wanted fields packed t = .ok ty t' ∧ t.data? ty = none ∧
      t.Names t' ty wanted name (some ⟨fields, packed⟩) := by
  obtain ⟨ty, name, t₁, run, new, names⟩ := createStruct_names h wanted
  have grows : t.GrowsTo t₁ := by
    cases run
    exact (Reforms.create wanted).growsTo
  have body : setStructBody ty fields packed t₁ =
      .ok () (t₁.setData ty (.identified name (some ⟨fields, packed⟩))) :=
    setStructBody_eq_ok_iff.2 ⟨name, data_eq_ok_iff.1 names.data,
      fun field hfield => (fit field hfield).mono grows, rfl⟩
  refine ⟨ty, name, _, ?_, new, names.setBody _⟩
  simp only [createStructWithBody, Run.bind_eq_ok_iff, Run.get_apply, Run.question_eq_ok_iff,
    checkFields_eq_ok_iff]
  exact ⟨t, t, rfl, (), t, ⟨fit, rfl⟩, ty, t₁, run, (), _, body, rfl⟩

/-- The fields are checked before the struct is created. -/
theorem createStructWithBody_error {fields : List Ty} {e : Failure}
    (check : t.checkFields fields = .error e) (wanted : Option String) (packed : Bool) :
    createStructWithBody wanted fields packed t = .error e t := by
  simp only [createStructWithBody, Run.bind_apply, Run.get_apply, Run.question_apply, check]

/-- Renaming an identified structure succeeds, and changes nothing if the name is the one it has. -/
theorem setStructName_eq_ok {old : Option String} {body : Option StructBody}
    (data : t.data? ty = some (.identified old body)) (wanted : Option String) :
    setStructName ty wanted t =
      .ok () (if old = wanted then t else (t.releaseName old).assignName ty wanted body) := by
  simp only [setStructName, Run.bind_eq_ok_iff, Run.get_apply, Run.question_eq_ok_iff,
    check_eq_ok_iff, Run.faulting_eq_ok_iff, data_eq_ok_iff]
  refine ⟨t, t, rfl, (), t, ⟨ctx_of_data? data, rfl⟩, _, t, ⟨data, rfl⟩, ?_⟩
  split <;> simp_all

/-- A struct is given the name that it has. -/
theorem names_self (h : t.Indexed) {name : Option String} {body : Option StructBody}
    (data : t.data? ty = some (.identified name body)) : t.Names t ty name name body := by
  refine ⟨?_, data_eq_ok_iff.2 data, fun _ => .rfl, fun {old _} hd hne => ?_⟩
  · cases name with
    | none => exact .missing
    | some name =>
      refine .free (h.nonempty trivial data) ?_
      rintro ⟨w, body', hw, hd⟩
      exact hw (h.unique (data_eq_ok_iff.1 hd) data)
  · rw [data_eq_ok_iff, data] at hd
    cases hd
    exact absurd rfl hne

/-- Nothing but an identified struct can be renamed. -/
theorem setStructName_error (other : ∀ old body, t.data ty ≠ .ok (.identified old body))
    (wanted : Option String) : ∃ e, setStructName ty wanted t = .error e t := by
  simp only [setStructName, Run.bind_apply, Run.get_apply, Run.question_apply, Run.faulting_apply]
  cases t.check ty with
  | error e => exact ⟨e, rfl⟩
  | ok _ =>
    cases data : t.data ty with
    | error f => exact ⟨.fatal f, rfl⟩
    | ok d =>
      cases d with
      | identified old body => exact absurd data (other old body)
      | _ => exact ⟨_, rfl⟩

/-- Renaming an identified struct succeeds, and to the name it has changes nothing. -/
theorem setStructName_names (h : t.Indexed) {old : Option String} {body : Option StructBody}
    (data : t.data? ty = some (.identified old body)) (wanted : Option String) :
    ∃ name t', setStructName ty wanted t = .ok () t' ∧ t.Names t' ty wanted name body ∧
      (wanted = old → t' = t) := by
  by_cases same : old = wanted
  · subst same
    exact ⟨old, t, by rw [setStructName_eq_ok data, if_pos rfl], names_self h data, fun _ => rfl⟩
  · have suffix : (t.releaseName old).suffix = t.suffix := by
      cases old <;> rfl
    -- The old name is free by the time the new one is looked for.
    have gone : ∀ {n body'}, t.data? ty = some (.identified (some n) body') →
        (t.releaseName old).names.get? n = none := by
      intro n body' hd
      rw [data] at hd
      cases hd
      exact (Keyed.get?_erase ..).trans (if_pos rfl)
    obtain ⟨name, names⟩ := (Indexes.releaseName h data).names
      ((data?_releaseName t old ty).trans data) suffix (fun w _ => data?_releaseName t old w) gone
      wanted body
    refine ⟨name, _, by rw [setStructName_eq_ok data, if_neg same], names, ?_⟩
    exact fun heq => absurd heq.symm same

/-! ## All tables -/

/-- What is true of the names of structs in a table, and of how structs get them. -/
structure NamesStructs (t : TypeTable) : Prop where
  /-- A struct is found by its name, and nothing else is found. -/
  found : ∀ {name ty}, t.structByName? name = some ty ↔
    ∃ body, t.data ty = .ok (.identified (some name) body)
  /-- No name is empty. -/
  nonempty : ∀ {ty name body}, t.data ty = .ok (.identified (some name) body) → name ≠ ""
  /-- No two structs have the same name. -/
  unique : ∀ {a b name body body'}, t.data a = .ok (.identified (some name) body) →
    t.data b = .ok (.identified (some name) body') → a = b
  /-- A struct can be created whatever name is asked for. -/
  create : ∀ wanted, ∃ ty name t', createStruct wanted t = .ok ty t' ∧
    (∀ d, t.data ty ≠ .ok d) ∧ t.Names t' ty wanted name none
  /-- A struct can be created with a body if its fields are first-class types, whatever name is asked
  for. -/
  createWithBody : ∀ wanted {fields} packed,
    (∀ field ∈ fields, ∃ k, t.kind field = .ok k ∧ k.isFirstClass = true) →
    ∃ ty name t', createStructWithBody wanted fields packed t = .ok ty t' ∧
      (∀ d, t.data ty ≠ .ok d) ∧ t.Names t' ty wanted name (some ⟨fields, packed⟩)
  /-- If they are not, nothing happens. -/
  createWithBody_error : ∀ wanted {fields} packed,
    (∃ field ∈ fields, ∀ k, t.kind field = .ok k → k.isFirstClass = false) →
    ∃ e, createStructWithBody wanted fields packed t = .error e t
  /-- An identified struct can be renamed, whatever name is asked for, and the name that it has
  changes nothing. -/
  rename : ∀ {ty old body} wanted, t.data ty = .ok (.identified old body) →
    ∃ name t', setStructName ty wanted t = .ok () t' ∧ t.Names t' ty wanted name body ∧
      (wanted = old → t' = t)
  /-- Other types cannot. -/
  rename_error : ∀ {ty} wanted, (∀ old body, t.data ty ≠ .ok (.identified old body)) →
    ∃ e, setStructName ty wanted t = .error e t

/-- The names of structures are as they should be in an indexed table. -/
theorem Indexed.namesStructs (h : t.Indexed) : t.NamesStructs := by
  have new : ∀ {ty}, t.data? ty = none → ∀ d, t.data ty ≠ .ok d := by
    intro ty none d hd
    rw [data_eq_ok_iff, none] at hd
    cases hd
  -- What the code asks of a field is that its kind is first-class.
  have fits_iff : ∀ {field}, t.PartFits (·.canBeField) field ↔
      ∃ k, t.kind field = .ok k ∧ k.isFirstClass = true := by
    intro field
    simp only [kind_eq_ok_iff, PartFits, TypeKind.canBeField]
    constructor
    · rintro ⟨d, hd, hk⟩
      exact ⟨d.kind, ⟨d, hd, rfl⟩, hk⟩
    · rintro ⟨_, ⟨d, hd, rfl⟩, hk⟩
      exact ⟨d, hd, hk⟩
  constructor
  · intro name ty
    simp only [data_eq_ok_iff]
    exact h.found.trans (and_iff_right trivial)
  · intro ty name body hd
    exact h.nonempty trivial (data_eq_ok_iff.1 hd)
  · intro a b name body body' ha hb
    exact h.unique (data_eq_ok_iff.1 ha) (data_eq_ok_iff.1 hb)
  · intro wanted
    obtain ⟨ty, name, t', run, none, names⟩ := createStruct_names h wanted
    exact ⟨ty, name, t', run, new none, names⟩
  · intro wanted fields packed fit
    obtain ⟨ty, name, t', run, none, names⟩ :=
      createStructWithBody_names h wanted (fun field hfield => fits_iff.2 (fit field hfield)) packed
    exact ⟨ty, name, t', run, new none, names⟩
  · -- One unfit field is enough for the check to fail.
    rintro wanted fields packed ⟨field, hfield, unfit⟩
    cases check : t.checkFields fields with
    | ok _ =>
      obtain ⟨k, hk, fits⟩ := fits_iff.1 (checkFields_eq_ok_iff.1 check field hfield)
      rw [unfit k hk] at fits
      cases fits
    | error e => exact ⟨e, createStructWithBody_error check wanted packed⟩
  · -- Renaming a struct succeeds, and renaming anything else does not.
    intro ty old body wanted hd
    exact setStructName_names h (data_eq_ok_iff.1 hd) wanted
  · intro ty wanted other
    exact setStructName_error other wanted

end TypeTable

namespace Context

variable {c : Context}

/-- In every context, structs are named and found by their names as the rules say. -/
theorem Reachable.names_structs (hc : c.Reachable) : c.types.NamesStructs :=
  (hc.types_invariant TypeTable.indexed_initial TypeTable.Change.indexed).namesStructs

/-- For instance, when a struct has taken the first number of a name, and the name was freed after
it was asked for again. -/
theorem names_structs_after_rename : ∃ c,
    replay [.createStruct (some "a"), .createStruct (some "a.1"), .createStruct (some "a"),
      .setStructName ⟨⟨1⟩, 11⟩ (some "a.2"), .createStruct (some "a")] (.initial ⟨1⟩) = some c ∧
    (c.types.structByName? "a.2" = some ⟨⟨1⟩, 13⟩ ∧ c.types.structByName? "a.2.3" = some ⟨⟨1⟩, 11⟩ ∧
      c.types.structByName? "a" = some ⟨⟨1⟩, 14⟩ ∧ c.types.suffix = 3) ∧
    c.types.NamesStructs :=
  exists_replay _ _ (by decide +kernel) fun _ hc _ =>
    Reachable.names_structs (hc.mono fun _ _ _ => trivial)

end Context

end SsaGraph
