/-!
# Comparison predicates and call markers

The small vocabularies that comparisons and calls carry besides their operands.
-/

namespace SsaGraph

/-- Integer comparison predicates: equality, then unsigned, then signed order. -/
inductive IntPredicate where
  | eq | ne
  | ugt | uge | ult | ule
  | sgt | sge | slt | sle
deriving DecidableEq

namespace IntPredicate

/-- All integer predicates. -/
def all : List IntPredicate := [eq, ne, ugt, uge, ult, ule, sgt, sge, slt, sle]

/-- The keyword of a predicate. -/
def text : IntPredicate → String
  | eq => "eq" | ne => "ne"
  | ugt => "ugt" | uge => "uge" | ult => "ult" | ule => "ule"
  | sgt => "sgt" | sge => "sge" | slt => "slt" | sle => "sle"

/-- The predicate of a given keyword. -/
def ofText? (s : String) : Option IntPredicate := all.find? (·.text == s)

/-- The predicate that holds of `y, x` exactly when the given one holds of `x, y`. -/
def swapped : IntPredicate → IntPredicate
  | eq => eq | ne => ne
  | ugt => ult | uge => ule | ult => ugt | ule => uge
  | sgt => slt | sge => sle | slt => sgt | sle => sge

/-- The predicate compares its operands as signed numbers. -/
def isSigned : IntPredicate → Bool
  | sgt | sge | slt | sle => true
  | _ => false

end IntPredicate

/-- Floating point comparison predicates. The ordered ones are false, and the unordered ones true,
when an operand is not a number. -/
inductive FloatPredicate where
  | never | always
  | oeq | ogt | oge | olt | ole | one | ord
  | ueq | ugt | uge | ult | ule | une | uno
deriving DecidableEq

namespace FloatPredicate

/-- All floating point predicates. -/
def all : List FloatPredicate :=
  [never, always, oeq, ogt, oge, olt, ole, one, ord, ueq, ugt, uge, ult, ule, une, uno]

/-- The keyword of a predicate. -/
def text : FloatPredicate → String
  | never => "false" | always => "true"
  | oeq => "oeq" | ogt => "ogt" | oge => "oge" | olt => "olt" | ole => "ole"
  | one => "one" | ord => "ord"
  | ueq => "ueq" | ugt => "ugt" | uge => "uge" | ult => "ult" | ule => "ule"
  | une => "une" | uno => "uno"

/-- The predicate of a given keyword. -/
def ofText? (s : String) : Option FloatPredicate := all.find? (·.text == s)

end FloatPredicate

/-- The tail call marker of a call. -/
inductive TailCall where
  /-- Not a tail call. -/
  | none
  /-- The call may be performed as a tail call. -/
  | tail
  /-- The call must be performed as a tail call. -/
  | mustTail
deriving DecidableEq

/-- The keyword of a tail call marker; empty for none. -/
def TailCall.text : TailCall → String
  | .none => ""
  | .tail => "tail"
  | .mustTail => "musttail"

/-- A calling convention, identified by its number. -/
structure CallingConv where
  /-- The number. -/
  id : Nat
deriving DecidableEq

namespace CallingConv

/-- The convention of C, which calls have unless told otherwise. -/
def c : CallingConv := ⟨0⟩

/-- The convention for fast calls. -/
def fast : CallingConv := ⟨8⟩

/-- The convention for calls that are rarely made. -/
def cold : CallingConv := ⟨9⟩

/-- The keyword of a calling convention; those without one are written by number. -/
def text (cc : CallingConv) : String :=
  if cc = c then "ccc"
  else if cc = fast then "fastcc"
  else if cc = cold then "coldcc"
  else s!"cc {cc.id}"

end CallingConv

end SsaGraph
