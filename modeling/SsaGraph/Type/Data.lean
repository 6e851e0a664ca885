import SsaGraph.Handle

/-!
# Descriptions of types

`TypeData` describes one type, with the types it is made of given by handle. Structs come in two
sorts: a literal struct is its fields, and an identified struct is a thing of its own that may be
given a name and, once, a body. `TypeKind` is the outermost shape of a type; which positions a type
may take in others depends on its kind alone.
-/

namespace SsaGraph

/-- The outermost shape of a type. -/
inductive TypeKind where
  | void | half | float | double | label | metadata
  | integer | function | struct | array | vector | pointer
deriving DecidableEq

namespace TypeKind

/-- The name of a kind. -/
def name : TypeKind → String
  | void => "Void"
  | half => "Half"
  | float => "Float"
  | double => "Double"
  | label => "Label"
  | metadata => "Metadata"
  | integer => "Integer"
  | function => "Function"
  | struct => "Struct"
  | array => "Array"
  | vector => "Vector"
  | pointer => "Pointer"

/-- Floating point numbers of some width. -/
def isFloatingPoint : TypeKind → Bool
  | half | float | double => true
  | _ => false

/-- Types that ordinary values have. -/
def isFirstClass : TypeKind → Bool
  | void | label | metadata | function => false
  | _ => true

/-- Structs, arrays, vectors and pointers. -/
def isComposite : TypeKind → Bool
  | struct | array | vector | pointer => true
  | _ => false

/-- Types that contain no others. -/
def isPrimitive (k : TypeKind) : Bool := !k.isComposite && k != function

/-- Structs and arrays. -/
def isAggregate : TypeKind → Bool
  | struct | array => true
  | _ => false

/-- Types whose values fit in a register. -/
def isSingleValue : TypeKind → Bool
  | half | float | double | integer | pointer | vector => true
  | _ => false

/-- Types that a function may return. -/
def canBeReturned : TypeKind → Bool
  | function | label | metadata => false
  | _ => true

/-- Types that a parameter may have. -/
def canBeParameter (k : TypeKind) : Bool := k.isFirstClass

/-- Types that can be pointed to. -/
def canBePointee : TypeKind → Bool
  | void | label | metadata => false
  | _ => true

/-- Types whose values can be loaded and stored through a pointer. -/
def canBeAccessed (k : TypeKind) : Bool := k.canBePointee && k != function

/-- Types that an array can hold. -/
def canBeArrayElement (k : TypeKind) : Bool := k.isFirstClass

/-- Types that a vector can hold. -/
def canBeLane (k : TypeKind) : Bool := k == integer || k == pointer || k.isFloatingPoint

/-- Types that a struct field can have. -/
def canBeField (k : TypeKind) : Bool := k.isFirstClass

end TypeKind

/-- The fields of a struct, and whether they are packed. -/
structure StructBody where
  /-- The types of the fields. -/
  fields : List Ty
  /-- The fields follow each other without padding. -/
  packed : Bool
deriving DecidableEq

/-- The description of one type. -/
inductive TypeData where
  | void | half | float | double | label | metadata
  /-- An integer of `bits` bits. -/
  | integer (bits : Nat)
  /-- A function, which may take more arguments than it has parameters. -/
  | function (ret : Ty) (params : List Ty) (varArg : Bool)
  /-- A struct that is its fields. -/
  | literal (body : StructBody)
  /-- A struct of its own, perhaps with a name, and perhaps still without a body. -/
  | identified (name : Option String) (body : Option StructBody)
  | array (elem : Ty) (len : Nat)
  | vector (elem : Ty) (lanes : Nat)
  | pointer (pointee : Ty) (space : Nat)
deriving DecidableEq

namespace TypeData

/-- The kind of a described type. -/
def kind : TypeData → TypeKind
  | void => .void
  | half => .half
  | float => .float
  | double => .double
  | label => .label
  | metadata => .metadata
  | integer _ => .integer
  | function _ _ _ => .function
  | literal _ => .struct
  | identified _ _ => .struct
  | array _ _ => .array
  | vector _ _ => .vector
  | pointer _ _ => .pointer

/-- The types a described type is made of; a function's return type comes first. -/
def contained : TypeData → List Ty
  | function ret params _ => ret :: params
  | literal body => body.fields
  | identified _ (some body) => body.fields
  | array elem _ => [elem]
  | vector elem _ => [elem]
  | pointer pointee _ => [pointee]
  | _ => []

/-- The body of a struct, if it is one and has one. -/
def body? : TypeData → Option StructBody
  | literal body => some body
  | identified _ body => body
  | _ => none

/-- The name of an identified struct. -/
def structName? : TypeData → Option String
  | identified name _ => name
  | _ => none

/-- The width of an integer type. -/
def intWidth? : TypeData → Option Nat
  | integer bits => some bits
  | _ => none

/-- What an array, vector or pointer is made of. -/
def element? : TypeData → Option Ty
  | array elem _ => some elem
  | vector elem _ => some elem
  | pointer pointee _ => some pointee
  | _ => none

/-- The number of elements of an array or vector. -/
def count? : TypeData → Option Nat
  | array _ len => some len
  | vector _ lanes => some lanes
  | _ => none

/-- The address space of a pointer. -/
def addressSpace? : TypeData → Option Nat
  | pointer _ space => some space
  | _ => none

/-- The size in bits of a number; other types count as size zero. -/
def scalarBits : TypeData → Nat
  | half => 16
  | float => 32
  | double => 64
  | integer bits => bits
  | _ => 0

end TypeData

end SsaGraph
