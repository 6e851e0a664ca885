import SsaGraph.Keyed
import SsaGraph.Run

/-!
# Nests

A nest keeps ordered lists of members, one list for each owner, and beside the lists the owner of
each member that is in one. A member without an owner is detached. Lists and owners are changed
separately, and that they agree is not part of the data.

The operations are those of a list that refuses a member it has. What can go wrong is a fault, and
the nest is told how to report it.

The lists themselves are plain. They stand for lists that are linked by key, each member carrying
the keys of its neighbours, and follow the documented behaviour of such lists: a member is put at
the end or next to one that is there, a member that is there is refused, and a member that is taken
out leaves the order of the others as it was.
-/

namespace SsaGraph

/-! ## Neighbours in a list -/

/-- Puts `a` immediately before the first occurrence of `anchor`. -/
def insertBefore {α : Type} [DecidableEq α] (anchor a : α) : List α → List α
  | [] => []
  | x :: xs => if x = anchor then a :: x :: xs else x :: insertBefore anchor a xs

/-- The element after the first occurrence of `a`. -/
def after? {α : Type} [DecidableEq α] (a : α) : List α → Option α
  | [] => none
  | x :: xs => if x = a then xs.head? else after? a xs

/-- The element before the last occurrence of `a`. -/
def before? {α : Type} [DecidableEq α] (a : α) (l : List α) : Option α := after? a l.reverse

/-- An insertion adds one member, if the anchor is there. -/
theorem mem_insertBefore {α : Type} [DecidableEq α] {anchor a x : α} {l : List α} (h : anchor ∈ l) :
    x ∈ insertBefore anchor a l ↔ x = a ∨ x ∈ l := by
  induction l with
  | nil => simp at h
  | cons y l ih =>
    by_cases hy : y = anchor
    · simp [insertBefore, hy]
    · have : anchor ∈ l := by simpa [Ne.symm hy] using h
      simp [insertBefore, hy, ih this, or_left_comm]

/-- An insertion puts the new member next to the anchor and keeps the order of the others. -/
theorem insertBefore_append_cons {α : Type} [DecidableEq α] {anchor a : α} {l r : List α}
    (h : anchor ∉ l) : insertBefore anchor a (l ++ anchor :: r) = l ++ a :: anchor :: r := by
  induction l with
  | nil => simp [insertBefore]
  | cons y l ih =>
    simp only [List.mem_cons, not_or] at h
    simp [insertBefore, Ne.symm h.1, ih h.2]

/-- Members in lists, one list for each owner. -/
structure Nest (κ ν : Type) where
  /-- The members of each owner. -/
  lists : Keyed κ (List ν) := {}
  /-- The owner of each member that is in a list. -/
  owners : Keyed ν κ := {}

/-- How a nest reports what goes wrong. -/
structure NestFaults (κ ν : Type) where
  /-- The owner has no list. -/
  noList : κ → Fault
  /-- The member is already in the list of the owner. -/
  listed : ν → κ → Fault
  /-- The member is in no list. -/
  detached : ν → Fault

namespace Nest

variable {κ ν : Type} [DecidableEq κ] [DecidableEq ν]

/-! ## Looking up -/

/-- The members of an owner in order. -/
def members (n : Nest κ ν) (k : κ) : List ν := (n.lists.get? k).getD []

/-- The owner of a member. -/
def owner? (n : Nest κ ν) (x : ν) : Option κ := n.owners.get? x

/-- The member after a given one in the same list. -/
def next? (n : Nest κ ν) (x : ν) : Option ν := do after? x (n.members (← n.owner? x))

/-- The member before a given one in the same list. -/
def prev? (n : Nest κ ν) (x : ν) : Option ν := do before? x (n.members (← n.owner? x))

/-- The list of an owner, which must have one. -/
def list (n : Nest κ ν) (faults : NestFaults κ ν) (k : κ) : Except Fault (List ν) :=
  match n.lists.get? k with
  | some xs => .ok xs
  | none => .error (faults.noList k)

/-! ## Changing -/

/-- Gives an owner an empty list. -/
def add (n : Nest κ ν) (k : κ) : Nest κ ν := { n with lists := n.lists.insert k [] }

/-- Forgets the list of an owner. -/
def drop (n : Nest κ ν) (k : κ) : Nest κ ν := { n with lists := n.lists.erase k }

/-- Replaces the list of an owner, and makes it the owner of a member. -/
def enter (n : Nest κ ν) (k : κ) (x : ν) (xs : List ν) : Nest κ ν :=
  ⟨n.lists.insert k xs, n.owners.insert x k⟩

/-- Replaces the list of an owner, and leaves a member without an owner. -/
def leave (n : Nest κ ν) (k : κ) (x : ν) (xs : List ν) : Nest κ ν :=
  ⟨n.lists.insert k xs, n.owners.erase x⟩

/-- Puts a detached member at the end of a list. -/
def append (faults : NestFaults κ ν) (k : κ) (x : ν) : Run (Nest κ ν) Unit := do
  let n ← get
  let xs ← n.list faults k
  if x ∈ xs then fault (faults.listed x k)
  set (n.enter k x (xs ++ [x]))

/-- Puts a detached member immediately before another. -/
def insert (faults : NestFaults κ ν) (anchor x : ν) : Run (Nest κ ν) Unit := do
  let n ← get
  match n.owner? anchor with
  | none => fault (faults.detached anchor)
  | some k =>
    let xs ← n.list faults k
    if x ∈ xs then fault (faults.listed x k)
    set (n.enter k x (insertBefore anchor x xs))

/-- Takes a member out of its list, and returns the owner. -/
def remove (faults : NestFaults κ ν) (x : ν) : Run (Nest κ ν) (Option κ) := do
  let n ← get
  match n.owner? x with
  | none => return none
  | some k =>
    set (n.leave k x ((← n.list faults k).erase x))
    return some k

end Nest

end SsaGraph
