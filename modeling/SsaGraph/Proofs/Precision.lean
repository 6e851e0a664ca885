import SsaGraph.Inspect
import SsaGraph.Proofs.Constant.Rounding
import SsaGraph.Proofs.Pool

/-!
# The precision of floating point constants

A constant of type `float` stores the pattern that `Single.round` makes of what was asked for, and
one of type `double` the pattern itself. To ask for what is stored is at all later times answered
with the same value and changes nothing, since rounding again is the identity and the pool, whose
keys are the rounded patterns, keeps its entries.

A value that was made for a constant shows its content while it is alive, whatever else a history
does (`PooledUnder`). With handles of the right classes it is alive for good.
-/

namespace SsaGraph

/-- The kind of a floating point type tells the type. -/
theorem TypeTable.data?_of_kind {t : TypeTable} {ty : Ty} {d : TypeData}
    (hd : d = .float ∨ d = .double) (h : t.kind ty = .ok d.kind) : t.data? ty = some d := by
  obtain ⟨d', hd', same⟩ := kind_eq_ok_iff.1 h
  rcases hd with rfl | rfl <;> cases d' <;> first | exact hd' | cases same

/-- A constant that is touched up is the same constant. -/
theorem ValueKind.Alike.of_constant {k : Constant} {kind : ValueKind}
    (h : (ValueKind.constant k).Alike kind) : kind = .constant k := by
  cases h
  rfl

namespace Context

variable {c c' : Context} {ty : Ty} {k : Constant} {v : Value} {bits : BitVec 64}

/-! ## What is pooled -/

/-- The value was created, and is the constant if it is alive. -/
def PooledUnder (c : Context) (k : Constant) (v : Value) : Prop :=
  v.index < c.graph.values.size ∧ ∀ ⦃n⦄, c.graph.node? v = some n → n.kind = .constant k

/-- Every entry of the pool is the constant that it is pooled as. -/
def PooledRight (c : Context) : Prop :=
  ∀ ⦃ty k v⦄, c.pool.get? (ty, k) = some v → c.PooledUnder k v

/-- A value stays pooled under its key while the graph only grows. -/
theorem PooledUnder.lasts (h : c.PooledUnder k v) (lasts : c.graph.Lasts c'.graph) :
    c'.PooledUnder k v := by
  refine ⟨Nat.lt_of_lt_of_le h.1 lasts.size, fun n' hn' => ?_⟩
  obtain ⟨n, hn, -, alike⟩ := lasts.node h.1 hn'
  rw [h.2 hn] at alike
  exact alike.of_constant

/-- An entry is made together with the value. -/
theorem pooledUnder_push (c : Context) (ty : Ty) (k : Constant) {pool} :
    PooledUnder { c with graph := (c.graph.push ⟨ty, none, .constant k, [], none, 0⟩).2, pool } k
      ⟨c.graph.ctx, c.graph.values.size⟩ := by
  refine ⟨by simp [Graph.push], fun n hn => ?_⟩
  rw [Graph.node?_create, if_pos rfl] at hn
  cases hn
  rfl

/-- Every change keeps the pooled values right. -/
theorem Change.pooledRight (hs : c.Sound) (h : c.PooledRight) (change : c.Change c') :
    c'.PooledRight := by
  have lasts := change.lasts hs
  have old : ∀ ⦃ty k v⦄, c.pool.get? (ty, k) = some v → c'.PooledUnder k v :=
    fun _ _ _ found => (h found).lasts lasts
  cases change with
  | graph h => exact old
  | tame h =>
    cases h with
    | constant ty k =>
      -- Either the key is the new one, with the value that was made for it, or it was there before.
      intro ty' k' v found
      rw [Keyed.get?_insert] at found
      split at found
      · rename_i same
        cases same
        cases found
        exact pooledUnder_push c ty k
      · exact old found
    | create name user label => exact old
    | graph h => exact old
    | types h => exact old
    | layout h => exact old
    | registry functions names => exact old

/-- Any chain of changes keeps the pooled values right. -/
theorem pooledRight_of_chain (hs : c.Sound) (h : c.PooledRight)
    (chain : Relation.ReflTransGen Change c c') : c'.PooledRight := by
  induction chain with
  | refl => exact h
  | tail chain change ih => exact change.pooledRight (hs.of_chain chain) ih

/-- In a reachable context every pooled value is the constant that it is pooled as. -/
theorem Reachable.pooledRight (hc : c.Reachable) : c.PooledRight := by
  refine hc.invariant (fun id ty k v found => ?_) fun hs h _ run =>
    pooledRight_of_chain hs h (Request.run_steps hs _ _ _ run)
  simp [initial, Keyed.get?] at found

/-- What is pooled stays pooled. -/
theorem Later.keeps (hc : c.Reachable) (later : c.Later c') {key : Ty × Constant}
    (h : c.pool.get? key = some v) : c'.pool.get? key = some v := by
  induction later with
  | now => exact h
  | answered before run ih => exact (Request.run_fills (before.reachable hc).sound run).keeps ih
  | rejected before run ih =>
    rw [Request.run_atomic (before.reachable hc).sound _ _ _ run]
    exact ih

/-! ## Requests for floating point constants -/

/-- A constant that is pooled is found, and the context stays as it is. -/
theorem constant_of_pooled (h : c.pool.get? (ty, k) = some v) : constant ty k c = .ok v c := by
  refine Run.bind_eq_ok_iff.2 ⟨c, c, rfl, ?_⟩
  rw [h]
  rfl

/-- The constant is made if it has to be. -/
theorem exists_constant (c : Context) (ty : Ty) (k : Constant) :
    ∃ v c', constant ty k c = .ok v c' := by
  cases h : c.pool.get? (ty, k) with
  | some v => exact ⟨v, c, constant_of_pooled h⟩
  | none =>
    -- A new value is made for it at the end of the arena.
    refine ⟨⟨c.graph.ctx, c.graph.values.size⟩,
      { c with
        graph := (c.graph.push ⟨ty, none, .constant k, [], none, 0⟩).2
        pool := c.pool.insert (ty, k) ⟨c.graph.ctx, c.graph.values.size⟩ },
      Run.bind_eq_ok_iff.2 ⟨c, c, rfl, ?_⟩⟩
    rw [h]
    rfl

/-- A request for a floating point constant is one for the constant with the stored pattern. -/
theorem run_constFloat (h : c.types.data? ty = some .float ∨ c.types.data? ty = some .double)
    (made : constant ty (.float (c.types.stored ty bits)) c = .ok v c') :
    (Request.constFloat ty bits).run c = .ok (.value v) c' := by
  have own : c.types.check ty = .ok () := by
    rw [TypeTable.check_eq_ok_iff]
    rcases h with h | h <;> exact TypeTable.ctx_of_data? h
  -- The kind of the type decides what is stored: the rounded value for the shorter type, the bits
  -- as they are for the longer one.
  have asked : constFloat ty bits c = .ok ⟨v⟩ c' := by
    rcases h with h | h
    · have kind : c.types.kind ty = .ok .float := TypeTable.kind_eq_ok_iff.2 ⟨_, h, rfl⟩
      rw [TypeTable.stored, if_pos h] at made
      simp only [constFloat, Run.bind_apply, Run.get_apply, Run.question_apply,
        Run.faulting_apply, own, kind, made]
      rfl
    · have kind : c.types.kind ty = .ok .double := TypeTable.kind_eq_ok_iff.2 ⟨_, h, rfl⟩
      rw [TypeTable.stored, if_neg (by simp [h])] at made
      simp only [constFloat, Run.bind_apply, Run.get_apply, Run.question_apply,
        Run.faulting_apply, own, kind, made]
      rfl
  exact Run.bind_eq_ok_iff.2 ⟨⟨v⟩, c', asked, rfl⟩

/-- The stored bits of a value that is pooled as a floating-point constant are its content. -/
theorem PooledUnder.floatBits_eq (hs : c.Sound) (h : c.PooledUnder (.float bits) v)
    (alive : v ∈ c.graph.live) : c.floatBits ⟨v⟩ = .ok bits := by
  obtain ⟨d, hd⟩ := Graph.mem_live.1 alive
  have kind : c.kindOf v = .ok d.kind :=
    Question.bind_eq_ok_iff.2 ⟨d, (valueData_eq_ok_iff hs).2 hd, rfl⟩
  have told : d.kind = .constant (.float bits) := h.2 (Graph.node?_of_value? hd)
  rw [floatBits, kind, told]
  rfl

/-- A value that stands for a pattern of a type from now on. -/
structure StandsFor (c : Context) (v : Value) (ty : Ty) (bits : BitVec 64) : Prop where
  /-- At all later times a request for the pattern is answered with the value and changes nothing. -/
  again : ∀ {c'}, c.Later c' → (Request.constFloat ty bits).run c' = .ok (.value v) c'
  /-- As long as the value is alive, it shows the pattern. -/
  shows : ∀ {c'}, c.Later c' → v ∈ c'.graph.live → c'.floatBits ⟨v⟩ = .ok bits
  /-- With handles of the right classes the value is alive at all later times. -/
  lives : ∀ {ts c'}, c.ClassChecked → Course Request.ClassChecked c ts c' → v ∈ c'.graph.live

/-- A request for the first pattern is answered with a value that stands for the second one. -/
def Stores (c : Context) (ty : Ty) (x bits : BitVec 64) : Prop :=
  ∃ v c', (Request.constFloat ty x).run c = .ok (.value v) c' ∧ c'.StandsFor v ty bits

/-- What is pooled under a pattern stands for it, if the pattern is stored as it is. -/
theorem standsFor_of_pooled (hc : c.Reachable)
    (h : c.types.data? ty = some .float ∨ c.types.data? ty = some .double)
    (fixed : c.types.stored ty bits = bits) (pooled : c.pool.get? (ty, .float bits) = some v) :
    c.StandsFor v ty bits := by
  constructor
  case again =>
    intro c' later
    have grows : c.types.GrowsTo c'.types := growsTo_of_chain (later.chain hc)
    have fits : Wanted.Fits c.types (.float ty bits) := h
    -- The type stays what it is, so the pattern is stored as before.
    have same : c'.types.stored ty bits = c.types.stored ty bits := by
      simpa [Wanted.key, Wanted.content] using fits.key_eq grows
    apply run_constFloat (fits.grow grows)
    rw [same, fixed]
    exact constant_of_pooled (later.keeps hc pooled)
  case shows =>
    intro c' later alive
    have reached := later.reachable hc
    -- A constant cannot be changed, so the value shows the bits that it is pooled under.
    exact (reached.pooledRight (later.keeps hc pooled)).floatBits_eq reached.sound alive
  case lives =>
    intro ts c' checked course
    have reached : c'.ClassChecked := course.reachedBy checked
    exact ((pool_eq_some_iff reached.sound reached.intact).1 (course.keeps checked pooled)).1

/-- A request for a floating point constant is answered, and the pattern that is stored for it is
stored as it is. -/
theorem stores_stored (hc : c.Reachable)
    (h : c.types.data? ty = some .float ∨ c.types.data? ty = some .double) (x : BitVec 64) :
    c.Stores ty x (c.types.stored ty x) := by
  obtain ⟨v, c', made⟩ := exists_constant c ty (.float (c.types.stored ty x))
  have run := run_constFloat h made
  have later : c.Later c' := .answered .now run
  have grows : c.types.GrowsTo c'.types := growsTo_of_chain (later.chain hc)
  have h' : c'.types.data? ty = some .float ∨ c'.types.data? ty = some .double :=
    h.imp (grows.structural · rfl) (grows.structural · rfl)
  refine ⟨v, c', run, standsFor_of_pooled (later.reachable hc) h' ?_ (constant_fills made).2⟩
  rcases h with single | double
  · have single' : c'.types.data? ty = some .float := grows.structural single rfl
    rw [TypeTable.stored, if_pos single', TypeTable.stored, if_pos single, Single.round_round]
  · have double' : c'.types.data? ty = some .double := grows.structural double rfl
    rw [TypeTable.stored, if_neg (by simp [double'])]

/-- The patterns that a context stores for floating point constants. -/
structure StoresFloats (c : Context) : Prop where
  /-- For type `float` the pattern is rounded. -/
  single : ∀ {ty}, c.types.kind ty = .ok .float → ∀ x,
    c.Stores ty x (Single.round x) ∧ Single.Rounds x (Single.round x)
  /-- For type `double` it is kept. -/
  double : ∀ {ty}, c.types.kind ty = .ok .double → ∀ x, c.Stores ty x x

/-- Floating point constants are rounded to the precision of their type, once and for all. -/
theorem Reachable.stores_floats (hc : c.Reachable) : c.StoresFloats := by
  constructor
  case single =>
    intro ty kind x
    have single : c.types.data? ty = some .float := TypeTable.data?_of_kind (.inl rfl) kind
    have stores := stores_stored hc (.inl single) x
    rw [TypeTable.stored, if_pos single] at stores
    exact ⟨stores, Single.round_rounds x⟩
  case double =>
    intro ty kind x
    have double : c.types.data? ty = some .double := TypeTable.data?_of_kind (.inr rfl) kind
    have stores := stores_stored hc (.inr double) x
    rwa [TypeTable.stored, if_neg (by simp [double])] at stores

/-- For instance, after one tenth, a tie between the two least positive numbers, and a pattern that
is not a number, once of type `float` and once of type `double`. -/
theorem stores_floats_of_patterns : ∃ c,
    replay [.constFloat ⟨⟨1⟩, 2⟩ 0x3FB999999999999A, .constFloat ⟨⟨1⟩, 2⟩ 0x36A8000000000000,
      .constFloat ⟨⟨1⟩, 2⟩ 0xFFF0000020000001, .constFloat ⟨⟨1⟩, 3⟩ 0xFFF0000020000001]
      (.initial ⟨1⟩) = some c ∧
    (c.types.kind ⟨⟨1⟩, 2⟩ = .ok .float ∧ c.types.kind ⟨⟨1⟩, 3⟩ = .ok .double ∧
      [0, 1, 2, 3].map (fun i => c.floatBits ⟨⟨⟨1⟩, i⟩⟩) =
        [.ok 0x3FB99999A0000000, .ok 0x36B0000000000000, .ok 0xFFF8000020000000,
          .ok 0xFFF0000020000001]) ∧
    c.StoresFloats := by
  refine exists_replay _ _ (by decide +kernel) fun c hc _ => ?_
  exact Reachable.stores_floats (hc.mono fun _ _ _ => trivial)

end Context

end SsaGraph
