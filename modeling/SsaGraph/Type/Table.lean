import SsaGraph.Keyed
import SsaGraph.Run
import SsaGraph.Type.Data

/-!
# The type table

A context keeps its types in a table that only grows. A handle is an index into it. Beside the
descriptions the table keeps two indexes: the types by description, which leaves out the identified
structs, and the identified structs by name. Except for identified structs, which are created anew
each time, no description is entered twice: `intern` returns the type that the index has for it.
Equality of handles is therefore equality of types.
-/

namespace SsaGraph

/-- The types of one context. -/
structure TypeTable where
  /-- The context the table belongs to. -/
  ctx : ContextId
  /-- The descriptions in creation order. -/
  types : Array TypeData
  /-- The types by description, identified structs apart. One index stands for what may be kept as
  one index for each sort of description, with the common integer types in fields of their own and
  the pointers of address space 0 apart from the others: no description is of two sorts, so the
  parts answer as the whole does. -/
  known : Keyed TypeData Ty
  /-- The identified structs by name. -/
  names : Keyed String Ty
  /-- The last number used to make a struct name unique. -/
  suffix : Nat

namespace TypeTable

/-- The types that every table starts with. -/
def primitives : Array TypeData :=
  #[.void, .half, .float, .double, .label, .metadata,
    .integer 1, .integer 8, .integer 16, .integer 32, .integer 64]

/-- The table of a new context. -/
def initial (ctx : ContextId) : TypeTable :=
  { ctx
    types := primitives
    known := ⟨primitives.toList.zipIdx.map fun (d, index) => (d, ⟨ctx, index⟩)⟩
    names := {}
    suffix := 0 }

/-- The number of types. -/
def size (t : TypeTable) : Nat := t.types.size

/-- The description of a type of this table. -/
def data? (t : TypeTable) (ty : Ty) : Option TypeData :=
  if ty.ctx = t.ctx then t.types[ty.index]? else none

/-- The description of a type; a type of another context is a fault. -/
def data (t : TypeTable) (ty : Ty) : Except Fault TypeData :=
  if ty.ctx = t.ctx then
    match t.types[ty.index]? with
    | some d => .ok d
    | none => .error (.missingType ty.index)
  else .error (.foreignType ty.index)

/-- The kind of a type. -/
def kind (t : TypeTable) (ty : Ty) : Except Fault TypeKind := return (← t.data ty).kind

/-- Rejects a type of another context. -/
def check (t : TypeTable) (ty : Ty) : Except Failure Unit :=
  if ty.ctx = t.ctx then pure () else reject (.foreignType ty.index)

/-- The type that is known for a description. -/
def find? (t : TypeTable) (d : TypeData) : Option Ty := t.known.get? d

/-- Adds a description at the end of the table. Positions are counted without a bound; a program
that counts in words of 32 bits agrees as long as there are fewer than 2^32 types. -/
def push (t : TypeTable) (d : TypeData) : Ty × TypeTable :=
  (⟨t.ctx, t.types.size⟩, { t with types := t.types.push d })

/-- The type of a description, which is added and made known unless it is known. -/
def intern (t : TypeTable) (d : TypeData) : Ty × TypeTable :=
  match t.find? d with
  | some ty => (ty, t)
  | none =>
    let (ty, t) := t.push d
    (ty, { t with known := t.known.insert d ty })

/-- A new entry has its description, and the other entries keep theirs. -/
theorem data?_push (t : TypeTable) (d : TypeData) (ty : Ty) :
    (t.push d).2.data? ty = if ty = (t.push d).1 then some d else t.data? ty := by
  obtain ⟨ctx, index⟩ := ty
  simp only [push, data?, Array.getElem?_push, Ty.mk.injEq]
  by_cases hc : ctx = t.ctx <;> simp [hc]

/-! ## Primitive types -/

/-- The type `void`. -/
def void (t : TypeTable) : Ty := ⟨t.ctx, 0⟩

/-- The type `half`. -/
def half (t : TypeTable) : Ty := ⟨t.ctx, 1⟩

/-- The type `float`. -/
def float (t : TypeTable) : Ty := ⟨t.ctx, 2⟩

/-- The type `double`. -/
def double (t : TypeTable) : Ty := ⟨t.ctx, 3⟩

/-- The type `label`. -/
def label (t : TypeTable) : Ty := ⟨t.ctx, 4⟩

/-- The type `metadata`. -/
def metadata (t : TypeTable) : Ty := ⟨t.ctx, 5⟩

/-- The type `i1`. -/
def int1 (t : TypeTable) : Ty := ⟨t.ctx, 6⟩

/-- The type `i8`. -/
def int8 (t : TypeTable) : Ty := ⟨t.ctx, 7⟩

/-- The type `i16`. -/
def int16 (t : TypeTable) : Ty := ⟨t.ctx, 8⟩

/-- The type `i32`. -/
def int32 (t : TypeTable) : Ty := ⟨t.ctx, 9⟩

/-- The type `i64`. -/
def int64 (t : TypeTable) : Ty := ⟨t.ctx, 10⟩

/-- The primitive type of a given keyword. -/
def primitive? (t : TypeTable) : String → Option Ty
  | "void" => some t.void
  | "half" => some t.half
  | "float" => some t.float
  | "double" => some t.double
  | "label" => some t.label
  | "metadata" => some t.metadata
  | "i1" => some t.int1
  | "i8" => some t.int8
  | "i16" => some t.int16
  | "i32" => some t.int32
  | "i64" => some t.int64
  | _ => none

end TypeTable

end SsaGraph
