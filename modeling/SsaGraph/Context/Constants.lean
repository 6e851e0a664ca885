import SsaGraph.Constant.Single
import SsaGraph.Context.Basic

/-!
# Constants

A context makes each constant once: asking again for the same type and content returns the value
made before.
-/

namespace SsaGraph

namespace Context

/-- The constant of a type and content that fit each other. -/
def constant (ty : Ty) (k : Constant) : Run Context Value := do
  match (← get).pool.get? (ty, k) with
  | some v => return v
  | none =>
    let v ← onGraph (Graph.newValue ty (.constant k) none)
    modify fun c => { c with pool := c.pool.insert (ty, k) v }
    return v

/-- The integer constant of an integer type that agrees with `x` on the low bits. -/
def constInt (ty : Ty) (x : Nat) : Run Context (Handle .intConstant) := do
  let t := (← get).types
  t.check ty
  match ← t.data ty with
  | .integer width =>
    unless width ≤ 64 do reject (.wideConstant width)
    return ⟨← constant ty (.int (.ofNat width x))⟩
  | .vector _ _ => reject .vectorConstant
  | _ => reject (.notIntegerType (t.display ty))

/-- The constant of type `i1` for a truth value. -/
def constBool (b : Bool) : Run Context (Handle .intConstant) := do
  return ⟨← constant (← get).types.int1 (.int (.ofNat 1 b.toNat))⟩

/-- The floating point constant of a type for a binary64 pattern, which is rounded to the precision
of the type. -/
def constFloat (ty : Ty) (bits : BitVec 64) : Run Context (Handle .floatConstant) := do
  let t := (← get).types
  t.check ty
  match ← t.kind ty with
  | .float => return ⟨← constant ty (.float (Single.round bits))⟩
  | .double => return ⟨← constant ty (.float bits)⟩
  | .half => reject .halfConstant
  | _ => reject (.notFloatType (t.display ty))

/-- The null constant of a pointer type. -/
def constNull (ty : Ty) : Run Context (Handle .nullConstant) := do
  let t := (← get).types
  t.check ty
  unless (← t.kind ty) = .pointer do reject (.notPointerType (t.display ty))
  return ⟨← constant ty .null⟩

/-- The undefined value of a first-class type. -/
def undef (ty : Ty) : Run Context (Handle .undef) := do
  let t := (← get).types
  t.check ty
  unless (← t.kind ty).isFirstClass do reject (.notFirstClass (t.display ty))
  return ⟨← constant ty .undef⟩

end Context

end SsaGraph
