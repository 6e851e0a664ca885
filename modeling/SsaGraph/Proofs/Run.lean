import Mathlib.Logic.Relation
import SsaGraph.Run

/-!
# Reasoning about runs

How a request ends is decided by how its parts end. The first section says so for success, as
equivalences that take a successful request apart: `bind_eq_ok_iff` splits it at a bind,
`question_eq_ok_iff` and `faulting_eq_ok_iff` say that a question leaves the state alone, and
`guard_eq_ok_iff` says that a guard was passed.

The other two sections are about a request as a whole, started in a given state. `Steps r m s` says
that what a successful request does is a chain of changes from `r`. `Atomic m s` says that a
rejected request leaves the state as it was. `Firm m s` says that the request is not rejected and
`Calm m s` that it does not end the run; both are cases of `Avoids`. A request that asks all its
questions first is atomic if what follows the first change is firm, and a request that is firm and
calm succeeds.
-/

namespace SsaGraph

/-- The request was rejected. -/
def Failure.IsRejection : Failure → Prop
  | rejected _ => True
  | fatal _ => False

/-- The request ended the run. -/
def Failure.IsFatal : Failure → Prop
  | rejected _ => False
  | fatal _ => True

/-! ## Questions -/

namespace Question

variable {ε α β : Type}

/-- A question that only answers has that answer. -/
@[simp] theorem pure_eq_ok_iff {a b : α} : (pure a : Except ε α) = .ok b ↔ a = b := by
  simp [pure, Except.pure]

/-- A bind succeeds when both parts do, one after the other. -/
@[simp] theorem bind_eq_ok_iff {x : Except ε α} {f : α → Except ε β} {b : β} :
    (x >>= f) = .ok b ↔ ∃ a, x = .ok a ∧ f a = .ok b := by
  cases x <;> simp [bind, Except.bind]

/-- A mapped question succeeds when the question does. -/
@[simp] theorem map_eq_ok_iff {x : Except ε α} {f : α → β} {b : β} :
    (f <$> x) = .ok b ↔ ∃ a, x = .ok a ∧ f a = b := by
  cases x <;> simp [Functor.map, Except.map]

/-- A failure is no success. -/
@[simp] theorem throw_eq_ok_iff {e : ε} {a : α} : (throw e : Except ε α) = .ok a ↔ False := by
  simp [throw, throwThe, MonadExceptOf.throw]

/-- A rejection is no success. -/
@[simp] theorem reject_eq_ok_iff {e : Error} {a : α} :
    (reject e : Except Failure α) = .ok a ↔ False := throw_eq_ok_iff

/-- A fault is no success. -/
@[simp] theorem fault_eq_ok_iff {f : Fault} {a : α} :
    (fault f : Except Failure α) = .ok a ↔ False := throw_eq_ok_iff

/-- A question that only a fault can stop succeeds among the others exactly when it succeeds. -/
@[simp] theorem lift_eq_ok_iff {x : Except Fault α} {a : α} :
    (liftM x : Except Failure α) = .ok a ↔ x = .ok a := by
  cases x <;> simp [liftM, monadLift, MonadLift.monadLift]

/-- A guard that was passed: its condition holds, and what it guards succeeds. -/
@[simp] theorem guard_eq_ok_iff {p : Prop} [Decidable p] {x : Except Failure β} {e : Error}
    {f : α → Except Failure β} {b : β} :
    (if p then x else (reject e >>= f)) = .ok b ↔ p ∧ x = .ok b := by
  by_cases h : p <;> simp [h]

/-- A guard at the end of a question. -/
@[simp] theorem guard_last_eq_ok_iff {p : Prop} [Decidable p] {x : Except Failure β} {e : Error}
    {b : β} : (if p then x else reject e) = .ok b ↔ p ∧ x = .ok b := by
  by_cases h : p <;> simp [h]

/-- Asking the same of every element of a list. -/
@[simp] theorem forM_eq_ok_iff {f : α → Except ε Unit} {l : List α} {b : Unit} :
    forM l f = .ok b ↔ ∀ a ∈ l, f a = .ok () := by
  induction l with
  | nil => simp
  | cons a l ih =>
    rw [List.forM_cons, bind_eq_ok_iff]
    simp only [ih, List.mem_cons, forall_eq_or_imp]
    constructor
    · rintro ⟨_, ha, hl⟩
      exact ⟨ha, hl⟩
    · rintro ⟨ha, hl⟩
      exact ⟨(), ha, hl⟩

/-- Asking every element of a list for something. -/
theorem mapM_eq_ok {f : α → Except ε β} {g : α → β} {l : List α}
    (h : ∀ a ∈ l, f a = .ok (g a)) : l.mapM f = .ok (l.map g) := by
  induction l with
  | nil => rfl
  | cons a l ih =>
    rw [List.forall_mem_cons] at h
    simp [List.mapM_cons, h.1, ih h.2]

/-- Each of the answers is that of an element. -/
theorem exists_of_mem_mapM {f : α → Except ε β} {l : List α} {bs : List β} (h : l.mapM f = .ok bs)
    {b : β} (hb : b ∈ bs) : ∃ a ∈ l, f a = .ok b := by
  induction l generalizing bs with
  | nil =>
    cases h
    cases hb
  | cons a l ih =>
    simp only [List.mapM_cons, bind_eq_ok_iff, pure_eq_ok_iff] at h
    obtain ⟨b', hb', bs', rest, rfl⟩ := h
    rcases List.mem_cons.1 hb with rfl | hb
    · exact ⟨a, List.mem_cons_self, hb'⟩
    · obtain ⟨a', ha', hf⟩ := ih rest hb
      exact ⟨a', List.mem_cons_of_mem a ha', hf⟩

/-- The question does not fail in a certain way. -/
def Avoids (bad : Failure → Prop) (x : Except Failure α) : Prop := ∀ e, x = .error e → ¬ bad e

/-- The question does not end the run. -/
abbrev Calm (x : Except Failure α) : Prop := Avoids Failure.IsFatal x

namespace Avoids

variable {bad : Failure → Prop}

/-- An answer avoids every failure. -/
theorem pure {a : α} : Avoids bad (Pure.pure a) := nofun

/-- A bind avoids a failure if both parts do. -/
theorem bind {x : Except Failure α} {f : α → Except Failure β} (hx : Avoids bad x)
    (hf : ∀ a, x = .ok a → Avoids bad (f a)) : Avoids bad (x >>= f) := by
  intro e h
  cases x with
  | ok a => exact hf a rfl e h
  | error e' =>
    cases h
    exact hx e rfl

/-- A question that has an answer. -/
theorem answered {x : Except Fault α} {f : α → Except Failure β} (hx : ∃ a, x = .ok a)
    (hf : ∀ a, x = .ok a → Avoids bad (f a)) : Avoids bad (liftM x >>= f) := by
  obtain ⟨a, rfl⟩ := hx
  exact bind nofun fun a' h => hf a' (lift_eq_ok_iff.1 h)

/-- A rejection does not end the run. -/
protected theorem reject {e : Error} : Calm (reject e : Except Failure α) := by
  intro e' h
  cases h
  exact id

/-- A guard can only reject, so it is calm if what follows it is. -/
theorem guard {p : Prop} [Decidable p] {x : Except Failure β} {e : Error}
    {f : α → Except Failure β} (hx : p → Calm x) : Calm (if p then x else (reject e >>= f)) := by
  by_cases hp : p
  · rw [if_pos hp]
    exact hx hp
  · rw [if_neg hp]
    exact bind .reject nofun

/-- A guard at the end is calm if what it guards is. -/
theorem guard_last {p : Prop} [Decidable p] {x : Except Failure α} {e : Error} (hx : p → Calm x) :
    Calm (if p then x else reject e) := by
  by_cases hp : p
  · rw [if_pos hp]
    exact hx hp
  · rw [if_neg hp]
    exact .reject

/-- A question asked of each member of a list avoids a failure if each of them does. -/
theorem forM {f : α → Except Failure Unit} {l : List α} (h : ∀ a ∈ l, Avoids bad (f a)) :
    Avoids bad (forM l f) := by
  induction l with
  | nil => exact pure
  | cons a l ih =>
    rw [List.forall_mem_cons] at h
    rw [List.forM_cons]
    exact bind h.1 fun _ _ => ih h.2

end Avoids

end Question

/-! ## Success -/

namespace Run

variable {σ τ α β : Type}

/-- A bind succeeds when its first part does, and its second in the state the first leaves. -/
@[simp] theorem bind_eq_ok_iff {m : Run σ α} {f : α → Run σ β} {s s'' : σ} {b : β} :
    (m >>= f) s = .ok b s'' ↔ ∃ a s', m s = .ok a s' ∧ f a s' = .ok b s'' := by
  rw [bind_apply]
  cases m s with
  | ok a s' =>
    constructor
    · intro h
      exact ⟨a, s', rfl, h⟩
    · rintro ⟨a', t, h, hf⟩
      cases h
      exact hf
  | error e s' => simp

/-- A mapped request succeeds when the request does, and leaves the same state. -/
@[simp] theorem map_eq_ok_iff {m : Run σ α} {f : α → β} {s s' : σ} {b : β} :
    (f <$> m) s = .ok b s' ↔ ∃ a, m s = .ok a s' ∧ f a = b := by
  simp only [Functor.map, EStateM.map]
  cases m s with
  | ok a t => simp [and_assoc, and_comm (a := f a = b)]
  | error e t => simp

/-- A question in a request succeeds when it is answered, and leaves the state as it is. -/
@[simp] theorem question_eq_ok_iff {x : Except Failure α} {s s' : σ} {a : α} :
    (liftM x : Run σ α) s = .ok a s' ↔ x = .ok a ∧ s = s' := by
  rw [question_apply]
  cases x <;> simp

/-- The same for a question that can only end the run. -/
@[simp] theorem faulting_eq_ok_iff {x : Except Fault α} {s s' : σ} {a : α} :
    (liftM x : Run σ α) s = .ok a s' ↔ x = .ok a ∧ s = s' := by
  rw [faulting_apply]
  cases x <;> simp

/-- A guarded request succeeds when the guard is passed and the request succeeds. -/
@[simp] theorem guard_eq_ok_iff {p : Prop} [Decidable p] {m : Run σ β} {e : Error}
    {f : α → Run σ β} {s s' : σ} {b : β} :
    (if p then m else (reject e >>= f)) s = .ok b s' ↔ p ∧ m s = .ok b s' := by
  by_cases h : p <;> simp [h]

/-- A request on a part of the state succeeds when it does on the part, which is then put back. -/
@[simp] theorem on_eq_ok_iff {part : σ → τ} {put : σ → τ → σ} {m : Run τ α} {s s' : σ} {a : α} :
    Run.on part put m s = .ok a s' ↔ ∃ t, m (part s) = .ok a t ∧ s' = put s t := by
  unfold Run.on
  cases m (part s) <;> simp [and_assoc, eq_comm (b := s')]

/-! ## What a successful request does -/

section Steps

variable {r : σ → σ → Prop}

/-- If the request succeeds in the state `s`, its effect is a chain of changes from `r`. -/
def Steps (r : σ → σ → Prop) (m : Run σ α) (s : σ) : Prop :=
  ∀ a s', m s = .ok a s' → Relation.ReflTransGen r s s'

namespace Steps

/-- Chains of some changes are chains of any changes that include them. -/
theorem mono {q : σ → σ → Prop} {m : Run σ α} {s : σ} (h : Steps r m s)
    (sub : ∀ s s', r s s' → q s s') : Steps q m s :=
  fun a s' hm => (h a s' hm).lift id sub

/-- An answer is the empty chain. -/
theorem pure {a : α} {s : σ} : Steps r (Pure.pure a) s := by
  intro b s' h
  obtain ⟨-, rfl⟩ := EStateM.Result.ok.inj h
  exact .refl

/-- A rejection is no success, so there is nothing to chain. -/
protected theorem reject {e : Error} {s : σ} : Steps r (reject e : Run σ α) s := by
  intro a s' h
  cases h

/-- Nothing follows a rejection. -/
theorem reject_bind {e : Error} {f : α → Run σ β} {s : σ} :
    Steps r (SsaGraph.reject e >>= f) s := by
  intro b s' h
  cases h

/-- A fault is no success, so there is nothing to chain. -/
protected theorem fault {f : Fault} {s : σ} : Steps r (fault f : Run σ α) s := by
  intro a s' h
  cases h

/-- The chain of a bind is the chains of its parts, one after the other. -/
theorem bind {m : Run σ α} {f : α → Run σ β} {s : σ} (hm : Steps r m s)
    (hf : ∀ a s', m s = .ok a s' → Steps r (f a) s') : Steps r (m >>= f) s := by
  intro b s'' h
  obtain ⟨a, s', h₁, h₂⟩ := bind_eq_ok_iff.1 h
  exact (hm a s' h₁).trans (hf a s' h₁ b s'' h₂)

/-- Mapping the answer adds nothing to the chain. -/
theorem map {m : Run σ α} {f : α → β} {s : σ} (hm : Steps r m s) : Steps r (f <$> m) s := by
  intro b s' h
  obtain ⟨a, h, -⟩ := map_eq_ok_iff.1 h
  exact hm a s' h

/-- Reading the state adds nothing to the chain. -/
theorem get_bind {f : σ → Run σ β} {s : σ} (hf : Steps r (f s) s) : Steps r (get >>= f) s := by
  intro b s'' h
  obtain ⟨a, s', h₁, h₂⟩ := bind_eq_ok_iff.1 h
  cases h₁
  exact hf b s'' h₂

/-- A question adds nothing to the chain, and what follows may use its answer. -/
theorem ask {x : Except Failure α} {f : α → Run σ β} {s : σ}
    (hf : ∀ a, x = .ok a → Steps r (f a) s) : Steps r (liftM x >>= f) s := by
  intro b s'' h
  obtain ⟨a, s', h₁, h₂⟩ := bind_eq_ok_iff.1 h
  obtain ⟨hx, rfl⟩ := question_eq_ok_iff.1 h₁
  exact hf a hx b s'' h₂

/-- Nor does a question that can only end the run. -/
theorem ask_fault {x : Except Fault α} {f : α → Run σ β} {s : σ}
    (hf : ∀ a, x = .ok a → Steps r (f a) s) : Steps r (liftM x >>= f) s := by
  intro b s'' h
  obtain ⟨a, s', h₁, h₂⟩ := bind_eq_ok_iff.1 h
  obtain ⟨hx, rfl⟩ := faulting_eq_ok_iff.1 h₁
  exact hf a hx b s'' h₂

/-- Behind a guard the chain is that of the guarded request. -/
theorem guard {p : Prop} [Decidable p] {m : Run σ β} {e : Error} {f : α → Run σ β} {s : σ}
    (hm : p → Steps r m s) : Steps r (if p then m else (reject e >>= f)) s := by
  intro b s' h
  obtain ⟨hp, h⟩ := guard_eq_ok_iff.1 h
  exact hm hp b s' h

/-- A loop is a chain if each of its rounds is one, in whatever state it starts. -/
theorem forM {f : α → Run σ PUnit} (l : List α) (hf : ∀ a ∈ l, ∀ s, Steps r (f a) s) (s : σ) :
    Steps r (l.forM f) s := by
  induction l generalizing s with
  | nil => exact pure
  | cons a l ih =>
    rw [List.forM_eq_forM, List.forM_cons]
    refine (hf a (List.mem_cons_self ..) s).bind fun _ s' _ => ?_
    exact ih (fun b hb => hf b (List.mem_cons_of_mem a hb)) s'

/-- A chain on a part of the state is a chain on the whole, if each of its changes is. -/
theorem on {q : τ → τ → Prop} {part : σ → τ} {put : σ → τ → σ} {m : Run τ α} {s : σ}
    (hs : put s (part s) = s) (lift : ∀ t t', q t t' → r (put s t) (put s t'))
    (hm : Steps q m (part s)) : Steps r (Run.on part put m) s := by
  intro a s' h
  obtain ⟨t, ht, rfl⟩ := on_eq_ok_iff.1 h
  have chain : Relation.ReflTransGen r (put s (part s)) (put s t) :=
    (hm a t ht).lift (put s) lift
  rwa [hs] at chain

end Steps

end Steps

/-! ## Rejection and faults -/

/-- If the request is rejected in the state `s`, the state is left as it was. -/
def Atomic (m : Run σ α) (s : σ) : Prop :=
  ∀ e s', m s = .error (.rejected e) s' → s' = s

/-- The request does not fail in a certain way in the state `s`. -/
def Avoids (bad : Failure → Prop) (m : Run σ α) (s : σ) : Prop :=
  ∀ e s', m s = .error e s' → ¬ bad e

/-- The request is not rejected in the state `s`. -/
abbrev Firm (m : Run σ α) (s : σ) : Prop := Avoids Failure.IsRejection m s

/-- The request does not end the run in the state `s`. -/
abbrev Calm (m : Run σ α) (s : σ) : Prop := Avoids Failure.IsFatal m s

/-- A bind fails when its first part does, or its second part in the state the first leaves. -/
theorem bind_eq_error {m : Run σ α} {f : α → Run σ β} {s s'' : σ} {e : Failure}
    (h : (m >>= f) s = .error e s'') :
    m s = .error e s'' ∨ ∃ a s', m s = .ok a s' ∧ f a s' = .error e s'' := by
  rw [bind_apply] at h
  cases hm : m s with
  | ok a s' =>
    rw [hm] at h
    exact .inr ⟨a, s', rfl, h⟩
  | error e' s' =>
    rw [hm] at h
    cases h
    exact .inl rfl

/-- A request that is neither rejected nor ends the run succeeds. -/
theorem ok_of_avoids {m : Run σ α} {s : σ} (firm : Firm m s) (calm : Calm m s) :
    ∃ a s', m s = .ok a s' := by
  cases h : m s with
  | ok a s' => exact ⟨a, s', rfl⟩
  | error e s' =>
    cases e with
    | rejected err => exact (firm _ s' h trivial).elim
    | fatal f => exact (calm _ s' h trivial).elim

/-- A request that is not rejected ends the run exactly if it does not succeed. -/
theorem fatal_iff_of_firm {m : Run σ α} {s : σ} (firm : Firm m s) :
    (∃ f s', m s = .error (.fatal f) s') ↔ ¬ ∃ a s', m s = .ok a s' := by
  constructor
  · rintro ⟨f, s', h⟩ ⟨a, s'', h'⟩
    rw [h] at h'
    cases h'
  · intro fails
    cases h : m s with
    | ok a s' => exact absurd ⟨a, s', h⟩ fails
    | error e s' =>
      cases e with
      | rejected err => exact (firm _ s' h trivial).elim
      | fatal f => exact ⟨f, s', rfl⟩

/-- A request that does not end the run succeeds or is rejected. -/
theorem ok_or_rejected {m : Run σ α} {s : σ} (calm : Calm m s) :
    (∃ a s', m s = .ok a s') ∨ ∃ err s', m s = .error (.rejected err) s' := by
  cases h : m s with
  | ok a s' => exact .inl ⟨a, s', rfl⟩
  | error e s' =>
    cases e with
    | rejected err => exact .inr ⟨err, s', rfl⟩
    | fatal f => exact (calm _ s' h trivial).elim

namespace Avoids

variable {bad : Failure → Prop}

/-- A request that succeeds avoids every failure. -/
theorem of_ok {m : Run σ α} {s s' : σ} {a : α} (h : m s = .ok a s') : Avoids bad m s := by
  intro e s'' h'
  rw [h] at h'
  cases h'

/-- An answer avoids every failure. -/
theorem pure {a : α} {s : σ} : Avoids bad (Pure.pure a : Run σ α) s := of_ok rfl

/-- A change of the state avoids every failure. -/
theorem modify {f : σ → σ} {s : σ} : Avoids bad (modify f : Run σ PUnit) s := of_ok rfl

/-- Replacing the state avoids every failure. -/
theorem set {s t : σ} : Avoids bad (set t : Run σ PUnit) s := of_ok rfl

/-- An answer with a change of the state avoids every failure. -/
theorem modifyGet {f : σ → α × σ} {s : σ} : Avoids bad (modifyGet f : Run σ α) s := of_ok rfl

/-- A bind avoids a failure if its first part does, and its second in the state the first leaves. -/
theorem bind {m : Run σ α} {f : α → Run σ β} {s : σ} (hm : Avoids bad m s)
    (hf : ∀ a s', m s = .ok a s' → Avoids bad (f a) s') : Avoids bad (m >>= f) s := by
  intro e s'' h
  rcases bind_eq_error h with h | ⟨a, s', h₁, h₂⟩
  · exact hm e s'' h
  · exact hf a s' h₁ e s'' h₂

/-- Mapping the answer avoids what the request avoids. -/
theorem map {m : Run σ α} {f : α → β} {s : σ} (hm : Avoids bad m s) : Avoids bad (f <$> m) s := by
  intro e s' h
  refine hm e s' ?_
  simp only [Functor.map, EStateM.map] at h
  cases hs : m s with
  | ok a t => simp [hs] at h
  | error e' t => simpa [hs] using h

/-- Reading the state avoids every failure. -/
theorem get_bind {f : σ → Run σ β} {s : σ} (hf : Avoids bad (f s) s) :
    Avoids bad (get >>= f) s := by
  refine bind (of_ok rfl) ?_
  rintro a s' h
  cases h
  exact hf

/-- A question that does not fail in that way. -/
theorem ask {x : Except Failure α} {f : α → Run σ β} {s : σ} (hx : Question.Avoids bad x)
    (hf : ∀ a, x = .ok a → Avoids bad (f a) s) : Avoids bad (liftM x >>= f) s := by
  refine bind ?_ ?_
  · intro e s' h
    rw [question_apply] at h
    cases x with
    | ok a => cases h
    | error e' =>
      cases h
      exact hx e rfl
  · intro a s' h
    obtain ⟨hx, rfl⟩ := question_eq_ok_iff.1 h
    exact hf a hx

/-- A question that has an answer. -/
theorem answered {x : Except Fault α} {f : α → Run σ β} {s : σ} (hx : ∃ a, x = .ok a)
    (hf : ∀ a, x = .ok a → Avoids bad (f a) s) : Avoids bad (liftM x >>= f) s := by
  obtain ⟨a, rfl⟩ := hx
  refine bind (of_ok (faulting_eq_ok_iff.2 ⟨rfl, rfl⟩)) fun a' s' h => ?_
  obtain ⟨hx, rfl⟩ := faulting_eq_ok_iff.1 h
  exact hf a' hx

/-- A question that only a fault can stop is not rejected. -/
theorem faulting (x : Except Fault α) (s : σ) : Firm (liftM x : Run σ α) s := by
  intro e s' h
  rw [faulting_apply] at h
  cases x with
  | ok a => cases h
  | error f =>
    cases h
    exact id

/-- A question that can only end the run is firm. -/
theorem ask_fault {x : Except Fault α} {f : α → Run σ β} {s : σ}
    (hf : ∀ a, x = .ok a → Firm (f a) s) : Firm (liftM x >>= f) s := by
  refine bind (faulting x s) ?_
  intro a s' h
  obtain ⟨hx, rfl⟩ := faulting_eq_ok_iff.1 h
  exact hf a hx

/-- A fault is no rejection. -/
protected theorem fault {f : Fault} {s : σ} : Firm (fault f : Run σ α) s := by
  intro e s' h
  cases h
  exact id

/-- A rejection does not end the run. -/
protected theorem reject {e : Error} {s : σ} : Calm (reject e : Run σ α) s := by
  intro e' s' h
  cases h
  exact id

/-- A rejection does not end the run, whatever would follow. -/
theorem reject_bind {e : Error} {f : α → Run σ β} {s : σ} : Calm (SsaGraph.reject e >>= f) s :=
  bind .reject nofun

/-- A guard can only reject, so the request is calm if what is guarded is. -/
theorem guard {p : Prop} [Decidable p] {m : Run σ β} {e : Error} {f : α → Run σ β} {s : σ}
    (hm : p → Calm m s) : Calm (if p then m else (reject e >>= f)) s := by
  by_cases hp : p
  · rw [if_pos hp]
    exact hm hp
  · rw [if_neg hp]
    exact reject_bind

/-- A loop avoids a failure if each round does and leaves what the rounds after it need. -/
theorem forM_left {P : List α → σ → Prop} {f : α → Run σ PUnit}
    (step : ∀ {a l s s' b}, P (a :: l) s → f a s = .ok b s' → P l s')
    (hf : ∀ {a l s}, P (a :: l) s → Avoids bad (f a) s) (l : List α) {s : σ} (hs : P l s) :
    Avoids bad (l.forM f) s := by
  induction l generalizing s with
  | nil => exact pure
  | cons a l ih =>
    rw [List.forM_eq_forM, List.forM_cons]
    exact (hf hs).bind fun _ _ h => ih (step hs h)

/-- A loop avoids a failure if its rounds keep a property under which each of them does. -/
theorem forM {P : σ → Prop} {f : α → Run σ PUnit} (l : List α)
    (keep : ∀ a ∈ l, ∀ s s' b, P s → f a s = .ok b s' → P s')
    (hf : ∀ a ∈ l, ∀ s, P s → Avoids bad (f a) s) (s : σ) (hs : P s) :
    Avoids bad (l.forM f) s := by
  refine forM_left (P := fun l' s => l' ⊆ l ∧ P s) (fun {a l' s s' b} h run => ?_)
    (fun {a l' s} h => ?_) l ⟨List.Subset.refl l, hs⟩
  · exact ⟨(List.cons_subset.1 h.1).2, keep a (List.cons_subset.1 h.1).1 s s' b h.2 run⟩
  · exact hf a (List.cons_subset.1 h.1).1 s h.2

/-- A request on a part of the state avoids what it avoids there. -/
theorem on {part : σ → τ} {put : σ → τ → σ} {m : Run τ α} {s : σ} (hm : Avoids bad m (part s)) :
    Avoids bad (Run.on part put m) s := by
  intro e s' h
  unfold Run.on at h
  cases hs : m (part s) with
  | ok a t => simp [hs] at h
  | error e' t =>
    rw [hs] at h
    cases h
    exact hm e t hs

end Avoids

namespace Atomic

/-- A request that is not rejected has no rejection to answer for. -/
theorem of_firm {m : Run σ α} {s : σ} (hm : Firm m s) : Atomic m s :=
  fun _ s' h => (hm _ s' h trivial).elim

/-- A rejection leaves the state as it is. -/
protected theorem reject {e : Error} {s : σ} : Atomic (reject e : Run σ α) s := by
  intro e' s' h
  cases h
  rfl

/-- So does a rejection that something would follow. -/
theorem reject_bind {e : Error} {f : α → Run σ β} {s : σ} :
    Atomic (SsaGraph.reject e >>= f) s := by
  intro e' s' h
  cases h
  rfl

/-- What follows an atomic part must be firm: the part may have changed the state. -/
theorem bind {m : Run σ α} {f : α → Run σ β} {s : σ} (hm : Atomic m s)
    (hf : ∀ a s', m s = .ok a s' → Firm (f a) s') : Atomic (m >>= f) s := by
  intro e s'' h
  rcases bind_eq_error h with h | ⟨a, s', h₁, h₂⟩
  · exact hm e s'' h
  · exact (hf a s' h₁ _ s'' h₂ trivial).elim

/-- Reading the state changes nothing. -/
theorem get_bind {f : σ → Run σ β} {s : σ} (hf : Atomic (f s) s) : Atomic (get >>= f) s := by
  intro e s'' h
  rcases bind_eq_error h with h | ⟨a, s', h₁, h₂⟩
  · cases h
  · cases h₁
    exact hf e s'' h₂

/-- A question changes nothing, so what follows it need only be atomic. -/
theorem ask {x : Except Failure α} {f : α → Run σ β} {s : σ}
    (hf : ∀ a, x = .ok a → Atomic (f a) s) : Atomic (liftM x >>= f) s := by
  intro e s'' h
  rcases bind_eq_error h with h | ⟨a, s', h₁, h₂⟩
  · rw [question_apply] at h
    cases x with
    | ok a => cases h
    | error e' =>
      cases h
      rfl
  · obtain ⟨hx, rfl⟩ := question_eq_ok_iff.1 h₁
    exact hf a hx e s'' h₂

/-- Nor does a question that can only end the run. -/
theorem ask_fault {x : Except Fault α} {f : α → Run σ β} {s : σ}
    (hf : ∀ a, x = .ok a → Atomic (f a) s) : Atomic (liftM x >>= f) s := by
  intro e s'' h
  rcases bind_eq_error h with h | ⟨a, s', h₁, h₂⟩
  · exact (Avoids.faulting x s _ s'' h trivial).elim
  · obtain ⟨hx, rfl⟩ := faulting_eq_ok_iff.1 h₁
    exact hf a hx e s'' h₂

/-- A guard rejects before anything is changed. -/
theorem guard {p : Prop} [Decidable p] {m : Run σ β} {e : Error} {f : α → Run σ β} {s : σ}
    (hm : p → Atomic m s) : Atomic (if p then m else (reject e >>= f)) s := by
  by_cases hp : p
  · rw [if_pos hp]
    exact hm hp
  · rw [if_neg hp]
    intro e' s'' h
    rcases bind_eq_error h with h | ⟨a, s', h₁, -⟩
    · cases h
      rfl
    · cases h₁

/-- An atomic request on a part of the state is atomic on the whole. -/
theorem on {part : σ → τ} {put : σ → τ → σ} {m : Run τ α} {s : σ} (hs : put s (part s) = s)
    (hm : Atomic m (part s)) : Atomic (Run.on part put m) s := by
  intro e s' h
  unfold Run.on at h
  cases ht : m (part s) with
  | ok a t => simp [ht] at h
  | error e' t =>
    rw [ht] at h
    cases h
    rw [hm e t ht, hs]

end Atomic

/-- The request is rejected in the state `s`. -/
def Refuses (m : Run σ α) (s : σ) : Prop := ∃ e s', m s = .error (.rejected e) s'

namespace Refuses

/-- A request that neither ends the run nor succeeds is rejected. -/
theorem of_calm {m : Run σ α} {s : σ} (calm : Calm m s) (fails : ∀ a s', m s ≠ .ok a s') :
    Refuses m s := by
  rcases ok_or_rejected calm with ⟨a, s', h⟩ | h
  · exact absurd h (fails a s')
  · exact h

/-- A rejection is one. -/
protected theorem reject {e : Error} {s : σ} : Refuses (reject e : Run σ α) s := ⟨e, s, rfl⟩

/-- A bind is rejected if its first part is. -/
theorem bind {m : Run σ α} {f : α → Run σ β} {s : σ} (hm : Refuses m s) : Refuses (m >>= f) s := by
  obtain ⟨e, s', h⟩ := hm
  exact ⟨e, s', by rw [bind_apply, h]⟩

/-- Reading the state does not help a request that is rejected. -/
theorem get_bind {f : σ → Run σ β} {s : σ} (hf : Refuses (f s) s) : Refuses (get >>= f) s := hf

/-- A question is rejected, or what follows it is. -/
theorem ask {x : Except Failure α} {f : α → Run σ β} {s : σ} (hx : Question.Calm x)
    (hf : ∀ a, x = .ok a → Refuses (f a) s) : Refuses (liftM x >>= f) s := by
  cases x with
  | ok a => exact hf a rfl
  | error e =>
    cases e with
    | rejected err => exact ⟨err, s, rfl⟩
    | fatal f => exact (hx _ rfl trivial).elim

/-- A question that is answered leaves the request to be rejected by what follows. -/
theorem answered {x : Except Fault α} {f : α → Run σ β} {s : σ} (hx : ∃ a, x = .ok a)
    (hf : ∀ a, x = .ok a → Refuses (f a) s) : Refuses (liftM x >>= f) s := by
  obtain ⟨a, rfl⟩ := hx
  exact hf a rfl

/-- A request on a part that is rejected there is rejected on the whole. -/
theorem on {part : σ → τ} {put : σ → τ → σ} {m : Run τ α} {s : σ} (hm : Refuses m (part s)) :
    Refuses (Run.on part put m) s := by
  obtain ⟨e, t, h⟩ := hm
  exact ⟨e, put s t, by rw [Run.on, h]⟩

end Refuses

end Run

end SsaGraph
