import SsaGraph.Error
import SsaGraph.Fault

/-!
# Runs

A request is a state transformer with three endings: it succeeds, it is rejected with an error, or
it ends the run with a fault. The state is kept on every ending, so that "a rejected request
changes nothing" is a statement about the request and not a property of the notion of a run.

Questions do not change the state; they are plain functions into `Except Fault` when only a fault
can stop them, and into `Except Failure` when they can also be rejected. Both are used inside runs
without further mention.
-/

namespace SsaGraph

/-- Why a request did not succeed. -/
inductive Failure where
  /-- The request was rejected; the run goes on. -/
  | rejected (e : Error)
  /-- The run ends. -/
  | fatal (f : Fault)
deriving DecidableEq

/-- A request on a state of type `σ` with an answer of type `α`. -/
abbrev Run (σ α : Type) := EStateM Failure σ α

/-- A question that only a fault can stop, asked where errors are possible too. -/
instance : MonadLift (Except Fault) (Except Failure) where
  monadLift
    | .ok a => .ok a
    | .error f => .error (.fatal f)

/-- A question asked within a request: the answer is used and the state stays as it is. -/
instance {σ : Type} : MonadLift (Except Failure) (EStateM Failure σ) where
  monadLift x s :=
    match x with
    | .ok a => .ok a s
    | .error e => .error e s

/-- Rejects the request. -/
def reject {m : Type → Type} [MonadExceptOf Failure m] {α : Type} (e : Error) : m α :=
  throw (.rejected e)

/-- Ends the run. -/
def fault {m : Type → Type} [MonadExceptOf Failure m] {α : Type} (f : Fault) : m α :=
  throw (.fatal f)

namespace Run

variable {σ τ α β : Type}

/-- Carries out a request on a part of the state. -/
def on (part : σ → τ) (put : σ → τ → σ) (m : Run τ α) : Run σ α := fun s =>
  match m (part s) with
  | .ok a t => .ok a (put s t)
  | .error e t => .error e (put s t)

/-! ## What the steps of a request do to the state -/

/-- A request that only answers leaves the state as it is. -/
@[simp] theorem pure_apply (a : α) (s : σ) : (pure a : Run σ α) s = .ok a s := rfl

/-- A bind runs its second part in the state that the first leaves, if that succeeds. -/
theorem bind_apply (m : Run σ α) (f : α → Run σ β) (s : σ) :
    (m >>= f) s =
      match m s with
      | .ok a s => f a s
      | .error e s => .error e s := by
  simp only [bind, EStateM.bind]
  cases m s <;> rfl

/-- The state is answered and left as it is. -/
@[simp] theorem get_apply (s : σ) : (get : Run σ σ) s = .ok s s := rfl

/-- The state is replaced. -/
@[simp] theorem set_apply (s t : σ) : (set t : Run σ PUnit) s = .ok ⟨⟩ t := rfl

/-- The answer and the new state are computed from the old state. -/
@[simp] theorem modifyGet_apply (f : σ → α × σ) (s : σ) :
    (modifyGet f : Run σ α) s = .ok (f s).1 (f s).2 := rfl

/-- The new state is computed from the old one. -/
@[simp] theorem modify_apply (f : σ → σ) (s : σ) :
    (modify f : Run σ PUnit) s = .ok ⟨⟩ (f s) := rfl

/-- A rejection leaves the state as it is. -/
@[simp] theorem reject_apply (e : Error) (s : σ) :
    (reject e : Run σ α) s = .error (.rejected e) s := rfl

/-- A fault leaves the state as it is. -/
@[simp] theorem fault_apply (f : Fault) (s : σ) :
    (fault f : Run σ α) s = .error (.fatal f) s := rfl

/-- A question leaves the state as it is, whatever its answer. -/
theorem question_apply (x : Except Failure α) (s : σ) :
    (liftM x : Run σ α) s =
      match x with
      | .ok a => .ok a s
      | .error e => .error e s := rfl

/-- A question that only a fault can stop is never rejected. -/
theorem faulting_apply (x : Except Fault α) (s : σ) :
    (liftM x : Run σ α) s =
      match x with
      | .ok a => .ok a s
      | .error f => .error (.fatal f) s := by
  cases x <;> rfl

end Run

end SsaGraph
