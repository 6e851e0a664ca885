import SsaGraph.Proofs.Answering
import SsaGraph.Proofs.Numbering

/-!
# Handles over time

A handle is a plain number, and whoever has it may use it at any later time. `Persists` says what
can be relied on between two times of a history with checked handles: types keep their data, numbers
of values are not given away twice, and a value that lives on keeps its type and its kind. So a
typed handle, once answered, is of its class for as long as its value lives.

No change of the graph gives a value another kind, except that a call may be marked anew and that a
function gets its arguments after it was created (`ValueKind.Alike`). The latter is over when the
request that creates the function is answered: from then on there are as many arguments as
parameters, and the parameters do not change.
-/

namespace SsaGraph

/-- The kinds are the same, except that a call may have other marks. -/
inductive ValueKind.Remarked : ValueKind → ValueKind → Prop
  | refl (k : ValueKind) : Remarked k k
  | call (fnType : Ty) (marker marker' : TailCall) (conv conv' : CallingConv) :
    Remarked (.instruction (.call fnType marker conv)) (.instruction (.call fnType marker' conv'))

/-- A function type has one list of parameters. -/
theorem TypeTable.Takes.unique {t : TypeTable} {fnType : Ty} {params params' : List Ty}
    (h : t.Takes fnType params) (h' : t.Takes fnType params') : params' = params := by
  obtain ⟨ret, varArg, hd⟩ := h
  obtain ⟨ret', varArg', hd'⟩ := h'
  rw [hd] at hd'
  cases hd'
  rfl

namespace Context

variable {allowed : Context → Request → Prop} {c c' : Context} {ts : List Turn}

/-! ## Values that live on -/

/-- A function without arguments gets none. -/
theorem arguments_eq_nil (hi : c.Intact) (hi' : c'.Intact) (grows : c.types.GrowsTo c'.types)
    {v : Value} {ty ty' : Ty} {name name' : Option String} {fnType : Ty} {args : List Argument}
    (hv : c.graph.face? v = some ⟨ty, name, .function fnType []⟩)
    (hv' : c'.graph.face? v = some ⟨ty', name', .function fnType args⟩) : args = [] := by
  obtain ⟨-, params, takes, length⟩ := hi.signatures.function hv
  obtain ⟨-, params', takes', length'⟩ := hi'.signatures.function hv'
  have same : params' = params := (takes.grow grows).unique takes'
  rw [same, ← length] at length'
  exact List.eq_nil_of_length_eq_zero length'

/-- The kinds of a value at two times differ by the marks of a call at most. -/
theorem remarked_of_alike (hi : c.Intact) (hi' : c'.Intact) (grows : c.types.GrowsTo c'.types)
    {v : Value} {d d' : ValueData} (hd : c.graph.value? v = some d)
    (hd' : c'.graph.value? v = some d') (alike : d.kind.Alike d'.kind) :
    d.kind.Remarked d'.kind := by
  have hv := Graph.face?_of_value? hd
  have hv' := Graph.face?_of_value? hd'
  generalize d.kind = k at hv alike ⊢
  generalize d'.kind = k' at hv' alike ⊢
  cases alike with
  | refl => exact .refl k
  -- The argument list of a function is fixed when the function is made, so it is the same list.
  | function fnType args =>
    rw [arguments_eq_nil hi hi' grows hv hv']
    exact .refl _
  | call => exact .call ..

/-- A value that lives on keeps its type, and its kind up to what a later change may do to it. -/
theorem Course.value_alike (course : Course allowed c ts c') (hc : ReachedBy allowed c) {v : Value}
    {d d' : ValueData} (hd : c.graph.value? v = some d) (hd' : c'.graph.value? v = some d') :
    d'.ty = d.ty ∧ d.kind.Alike d'.kind := by
  obtain ⟨n, hn, hty, alike⟩ :=
    (course.lasts hc).node (Graph.index_lt_of_value? hd) (Graph.node?_of_value? hd')
  rw [Graph.node?_of_value? hd] at hn
  cases hn
  exact ⟨hty, alike⟩

/-- A value that lives on is of the classes it was of. -/
theorem Course.isa_eq (course : Course allowed c ts c') (hc : ReachedBy allowed c) {v : Value}
    (hv : v ∈ c.graph.live) (hv' : v ∈ c'.graph.live) (cls : Class) : c'.isa cls v = c.isa cls v := by
  obtain ⟨d, hd⟩ := Graph.mem_live.1 hv
  obtain ⟨d', hd'⟩ := Graph.mem_live.1 hv'
  obtain ⟨-, alike⟩ := course.value_alike hc hd hd'
  rw [(isa_eq_ok_iff hc.sound).2 ⟨d, hd, rfl⟩,
    (isa_eq_ok_iff (course.reachedBy hc).sound).2 ⟨d', hd', alike.contains_eq cls⟩]

/-- A value of a class is of the class as long as it lives. -/
theorem Course.isa_of_isa (course : Course allowed c ts c') (hc : ReachedBy allowed c)
    {cls : Class} {v : Value} (h : c.isa cls v = .ok true) (hv' : v ∈ c'.graph.live) :
    c'.isa cls v = .ok true := by
  obtain ⟨d, hd, -⟩ := (isa_eq_ok_iff hc.sound).1 h
  rw [course.isa_eq hc (Graph.mem_live.2 ⟨d, hd⟩) hv', h]

/-! ## What persists -/

/-- What can be relied on from one time of a history to a later one, with the turns between them. -/
structure Persists (c : Context) (ts : List Turn) (c' : Context) : Prop where
  /-- A type keeps its place and its data, except that an identified struct may be renamed, and keeps
  a body once it has one. -/
  types : ∀ {ty d}, c.types.data ty = .ok d → ∃ d', c'.types.data ty = .ok d' ∧ d.Becomes d'
  /-- The numbers of values go up. -/
  numbers : c.nextId ≤ c'.nextId
  /-- Live values have numbers from 1 up to the next number. -/
  numbered : ∀ v ∈ c'.graph.live, v.ctx = c.id ∧ 1 ≤ v.id ∧ v.id < c'.nextId
  /-- The values that a turn creates are those that have the next numbers. -/
  created : ∀ t ∈ ts, ∀ v, t.Creates v ↔
    v.ctx = c.id ∧ t.before.nextId ≤ v.id ∧ v.id < t.after.nextId
  /-- What is created later has a greater number. -/
  increasing : ts.Pairwise fun t t' => ∀ v v', t.Creates v → t'.Creates v' → v.id < v'.id
  /-- A value that is gone does not come back. -/
  gone : ∀ {v}, v.id < c.nextId → v ∉ c.graph.live → v ∉ c'.graph.live
  /-- A value that lives on has the type and the kind it had, up to the marks of a call, and is of the
  same classes. -/
  same : ∀ v ∈ c.graph.live, v ∈ c'.graph.live → ∃ d d', c.valueData v = .ok d ∧
    c'.valueData v = .ok d' ∧ d'.ty = d.ty ∧ d.kind.Remarked d'.kind ∧
    ∀ cls, c'.isa cls v = c.isa cls v
  /-- A handle that a turn was answered with was that of a live value of its class, and the value is
  of the class for as long as it lives. -/
  answered : ∀ t ∈ ts, ∀ v, t.answer.handle? = some v →
    t.after.isa t.request.answerClass v = .ok true ∧
      (v ∈ c'.graph.live → c'.isa t.request.answerClass v = .ok true)
  /-- The same for a handle that a question was answered with. -/
  queried : ∀ {cls} {h : Handle cls}, c.Yields h → c.isa cls h.value = .ok true ∧
    (h.value ∈ c'.graph.live → c'.isa cls h.value = .ok true)

/-- The numbers of values start from 1, and what can be relied on is so between any two times of a
history of class-checked requests. -/
theorem Course.persists (hc : ClassChecked c) (course : Course Request.ClassChecked c ts c') :
    (∀ id, (initial id).nextId = 1) ∧ Persists c ts c' := by
  have hc' := course.reachedBy hc
  refine ⟨fun _ => rfl, ?_⟩
  constructor
  case types =>
    intro ty d hd
    obtain ⟨d', hd', becomes⟩ := (course.growsTo hc).data (TypeTable.data_eq_ok_iff.1 hd)
    exact ⟨d', TypeTable.data_eq_ok_iff.2 hd', becomes⟩
  case numbers => exact course.nextId_le hc
  case numbered =>
    intro v hv
    rw [← course.id_eq hc]
    exact id_of_live hc'.sound hv
  case created =>
    exact fun t ht v => course.creates_iff hc ht
  -- Each turn creates the ids between the counter before it and the counter after it.
  case increasing =>
    refine (course.turns_in_order hc).imp_of_mem fun {t t'} ht ht' before v v' hv hv' => ?_
    have last := ((course.creates_iff hc ht).1 hv).2.2
    have first := ((course.creates_iff hc ht').1 hv').2.1
    omega
  case gone => exact course.not_live hc
  case same =>
    intro v hv hv'
    obtain ⟨d, hd⟩ := Graph.mem_live.1 hv
    obtain ⟨d', hd'⟩ := Graph.mem_live.1 hv'
    obtain ⟨hty, alike⟩ := course.value_alike hc hd hd'
    exact ⟨d, d', (valueData_eq_ok_iff hc.sound).2 hd, (valueData_eq_ok_iff hc'.sound).2 hd', hty,
      remarked_of_alike hc.intact hc'.intact (course.growsTo hc) hd hd' alike,
      course.isa_eq hc hv hv'⟩
  -- What the turn answered is of the class of the answer, and stays so while it is alive.
  case answered =>
    intro t ht v hv
    obtain ⟨before, after, first, asked, run, rest⟩ := course.split_of_mem ht
    have reached := first.reachedBy hc
    have reached' : ClassChecked t.after := .answered reached asked run
    have isa := Request.run_answers reached reached' run hv
    exact ⟨isa, rest.isa_of_isa reached' isa⟩
  case queried =>
    intro cls h q
    have isa := q.isa hc
    exact ⟨isa, course.isa_of_isa hc isa⟩

/-- For instance, when a struct gets a body and another name, a call is marked anew, and an
instruction goes before other values come. -/
theorem persists_after_erasure : ∃ c ts c',
    replay [.createStruct (some "S"), .functionType ⟨⟨1⟩, 0⟩ [⟨⟨1⟩, 9⟩] false,
      .newFunction "f" ⟨⟨1⟩, 12⟩, .constInt ⟨⟨1⟩, 9⟩ 7, .call {} ⟨⟨1⟩, 0⟩ [⟨⟨1⟩, 2⟩],
      .unreachable {}] (.initial ⟨1⟩) = some c ∧
    record [.setStructBody ⟨⟨1⟩, 11⟩ [⟨⟨1⟩, 9⟩] true, .setStructName ⟨⟨1⟩, 11⟩ (some "T"),
      .setTailCall ⟨⟨⟨1⟩, 3⟩⟩ .mustTail, .eraseInstruction ⟨⟨⟨1⟩, 4⟩⟩, .constBool true,
      .newBlock none] c = some (ts, c') ∧
    (c.types.data ⟨⟨1⟩, 11⟩ = .ok (.identified (some "S") none) ∧
      c'.types.data ⟨⟨1⟩, 11⟩ = .ok (.identified (some "T") (some ⟨[⟨⟨1⟩, 9⟩], true⟩)) ∧
      c.kindOf ⟨⟨1⟩, 3⟩ = .ok (.instruction (.call ⟨⟨1⟩, 12⟩ .none .c)) ∧
      c'.kindOf ⟨⟨1⟩, 3⟩ = .ok (.instruction (.call ⟨⟨1⟩, 12⟩ .mustTail .c)) ∧
      c.graph.live.map (·.id) = [1, 2, 3, 4, 5] ∧ c'.graph.live.map (·.id) = [1, 2, 3, 4, 6, 7]) ∧
    (∀ id, (initial id).nextId = 1) ∧ Persists c ts c' :=
  exists_record_after _ _ _ (by decide +kernel) fun _ _ _ hc course _ =>
    Course.persists (classChecked_of_replay hc (.initial _)) course

end Context

end SsaGraph
