import Mathlib.Data.List.Nodup
import SsaGraph.Nest
import SsaGraph.Proofs.Run

/-!
# Lists and owners agree

What the operations of a nest do, as equivalences: when they succeed and what they leave behind.
None of them is rejected, since what can go wrong with a nest is a fault.

`Linked` says that the lists of a nest and the owners beside them are two accounts of the same: no
list has a member twice, and the owner of a member is the one that has it in its list. Every
operation keeps it, if the member that enters a list was detached and the list that is forgotten was
empty. In a linked nest the neighbours of a member are those in its list
(`Linked.next?_eq_some_iff`), and an operation on a member that is where it should be causes no
fault.

`Sheds` tells what a series of removals does as a whole.
-/

namespace SsaGraph

/-! ## Neighbours in a list -/

section Neighbours

variable {α : Type} [DecidableEq α] {a b : α} {l : List α}

/-- An insertion adds at most one member. -/
theorem mem_of_mem_insertBefore {anchor a x : α} {l : List α}
    (h : x ∈ insertBefore anchor a l) : x = a ∨ x ∈ l := by
  induction l with
  | nil => simp [insertBefore] at h
  | cons y l ih =>
    simp only [insertBefore] at h
    split at h
    · simpa using h
    · rcases List.mem_cons.1 h with rfl | h
      · exact .inr (List.mem_cons_self ..)
      · exact (ih h).imp_right (List.mem_cons_of_mem y)

/-- An insertion of something new adds it once. -/
theorem nodup_insertBefore {anchor a : α} {l : List α} (h : l.Nodup) (ha : a ∉ l) :
    (insertBefore anchor a l).Nodup := by
  induction l with
  | nil => exact h
  | cons y l ih =>
    simp only [List.mem_cons, not_or] at ha
    have hy := List.nodup_cons.1 h
    simp only [insertBefore]
    split
    · exact List.nodup_cons.2 ⟨by simp [ha], h⟩
    · refine List.nodup_cons.2 ⟨fun hmem => ?_, ih hy.2 ha.2⟩
      rcases mem_of_mem_insertBefore hmem with rfl | hmem
      · exact ha.1 rfl
      · exact hy.1 hmem

/-- In a list without repetitions, what comes after a member stands right behind it. -/
theorem after?_eq_some_iff (h : l.Nodup) :
    after? a l = some b ↔ ∃ l₁ l₂, l = l₁ ++ a :: b :: l₂ := by
  induction l with
  | nil => simp [after?]
  | cons x l ih =>
    rw [List.nodup_cons] at h
    simp only [after?]
    split
    · rename_i hx
      subst hx
      rw [List.head?_eq_some_iff]
      constructor
      · rintro ⟨l₂, rfl⟩
        exact ⟨[], l₂, rfl⟩
      · rintro ⟨l₁, l₂, hl⟩
        cases l₁ with
        | nil => exact ⟨l₂, (List.cons.inj hl).2⟩
        | cons y l₁ =>
          -- The element would come twice.
          rw [List.cons_append] at hl
          obtain ⟨rfl, rfl⟩ := List.cons.inj hl
          simp at h
    · rename_i hx
      rw [ih h.2]
      constructor
      · rintro ⟨l₁, l₂, rfl⟩
        exact ⟨x :: l₁, l₂, rfl⟩
      · rintro ⟨l₁, l₂, hl⟩
        -- The first element is not the one that is looked for, so the prefix is not empty.
        cases l₁ with
        | nil => exact absurd (List.cons.inj hl).1 hx
        | cons y l₁ => exact ⟨l₁, l₂, (List.cons.inj hl).2⟩

/-- In a list without repetitions, what comes before a member stands right before it. -/
theorem before?_eq_some_iff (h : l.Nodup) :
    before? b l = some a ↔ ∃ l₁ l₂, l = l₁ ++ a :: b :: l₂ := by
  rw [before?, after?_eq_some_iff (List.nodup_reverse.2 h)]
  constructor
  · rintro ⟨l₁, l₂, hl⟩
    refine ⟨l₂.reverse, l₁.reverse, ?_⟩
    rw [← List.reverse_reverse l, hl]
    simp
  · rintro ⟨l₁, l₂, rfl⟩
    exact ⟨l₂.reverse, l₁.reverse, by simp⟩

end Neighbours

namespace Nest

variable {κ ν : Type} [DecidableEq κ] {n n' : Nest κ ν} {k k' : κ} {x y : ν} {xs : List ν}
  {faults : NestFaults κ ν}

/-! ## Reading back -/

/-- A list is read exactly when its key has one. -/
@[simp] theorem list_eq_ok_iff : n.list faults k = .ok xs ↔ n.lists.get? k = some xs := by
  unfold list
  split <;> simp_all

/-- The members of a key are those of its list. -/
theorem members_of_lists (h : n.lists.get? k = some xs) : n.members k = xs := by
  simp [members, h]

/-- An owner with a member has a list. -/
theorem lists_of_mem (h : x ∈ n.members k) : n.lists.get? k = some (n.members k) := by
  unfold members at h ⊢
  cases hk : n.lists.get? k <;> simp_all

/-- The members after an empty list has been added. -/
theorem members_add (n : Nest κ ν) (k k' : κ) :
    (n.add k).members k' = if k' = k then [] else n.members k' := by
  simp only [members, add, Keyed.get?_insert]
  split <;> rfl

/-- The members after a list has been dropped. -/
theorem members_drop (n : Nest κ ν) (k k' : κ) :
    (n.drop k).members k' = if k' = k then [] else n.members k' := by
  simp only [members, drop, Keyed.get?_erase]
  split <;> rfl

/-- An owner that has a list can get another one. -/
theorem contains_insert_of_get? (h : n.lists.get? k = some xs) (ys : List ν) :
    (n.lists.insert k ys).contains k' = n.lists.contains k' := by
  rw [Keyed.contains_insert]
  split
  · subst k'
    exact (Keyed.contains_iff.2 ⟨xs, h⟩).symm
  · rfl

variable [DecidableEq ν]

/-- The members after one has entered a list. -/
theorem members_enter (n : Nest κ ν) (k : κ) (x : ν) (xs : List ν) (k' : κ) :
    (n.enter k x xs).members k' = if k' = k then xs else n.members k' := by
  simp only [members, enter, Keyed.get?_insert]
  split <;> rfl

/-- The members after one has left a list. -/
theorem members_leave (n : Nest κ ν) (k : κ) (x : ν) (xs : List ν) (k' : κ) :
    (n.leave k x xs).members k' = if k' = k then xs else n.members k' := by
  simp only [members, leave, Keyed.get?_insert]
  split <;> rfl

/-- The owners after a member has entered a list. -/
theorem owner?_enter (n : Nest κ ν) (k : κ) (x : ν) (xs : List ν) (y : ν) :
    (n.enter k x xs).owner? y = if y = x then some k else n.owner? y :=
  Keyed.get?_insert ..

/-- The owners after a member has left a list. -/
theorem owner?_leave (n : Nest κ ν) (k : κ) (x : ν) (xs : List ν) (y : ν) :
    (n.leave k x xs).owner? y = if y = x then none else n.owner? y :=
  Keyed.get?_erase ..

/-! ## What the operations do -/

/-- A member is appended exactly when there is a list and it is not there yet. -/
theorem append_eq_ok_iff {a : Unit} :
    append faults k x n = .ok a n' ↔
      ∃ xs, n.lists.get? k = some xs ∧ x ∉ xs ∧ n' = n.enter k x (xs ++ [x]) := by
  simp only [append, Run.bind_eq_ok_iff, Run.get_apply, Run.faulting_eq_ok_iff, list_eq_ok_iff]
  constructor
  · rintro ⟨_, _, h₀, xs, _, ⟨hxs, rfl⟩, h⟩
    cases h₀
    split at h
    · simp at h
    · rename_i hx
      cases h
      exact ⟨xs, hxs, hx, rfl⟩
  · rintro ⟨xs, hxs, hx, rfl⟩
    refine ⟨n, n, rfl, xs, n, ⟨hxs, rfl⟩, ?_⟩
    rw [if_neg hx]
    rfl

/-- A member is inserted exactly when the anchor is in a list and the member is not there yet. -/
theorem insert_eq_ok_iff {anchor : ν} {a : Unit} :
    insert faults anchor x n = .ok a n' ↔
      ∃ k xs, n.owner? anchor = some k ∧ n.lists.get? k = some xs ∧ x ∉ xs ∧
        n' = n.enter k x (insertBefore anchor x xs) := by
  simp only [insert, Run.bind_eq_ok_iff, Run.get_apply]
  -- The anchor tells the list; a detached anchor fails before any list is read.
  constructor
  · rintro ⟨_, _, h₀, h⟩
    cases h₀
    cases hk : n.owner? anchor with
    | none => simp [hk] at h
    | some k =>
      simp only [hk, Run.bind_eq_ok_iff, Run.faulting_eq_ok_iff, list_eq_ok_iff] at h
      obtain ⟨xs, _, ⟨hxs, rfl⟩, h⟩ := h
      -- A member that is in the list is not put into it again.
      split at h
      · simp at h
      · rename_i hx
        cases h
        exact ⟨k, xs, rfl, hxs, hx, rfl⟩
  · rintro ⟨k, xs, hk, hxs, hx, rfl⟩
    refine ⟨n, n, rfl, ?_⟩
    simp only [hk, Run.bind_eq_ok_iff, Run.faulting_eq_ok_iff, list_eq_ok_iff]
    refine ⟨xs, n, ⟨hxs, rfl⟩, ?_⟩
    rw [if_neg hx]
    rfl

/-- A member is removed exactly from the list of its owner; without one nothing happens. -/
theorem remove_eq_ok_iff {o : Option κ} :
    remove faults x n = .ok o n' ↔
      n.owner? x = o ∧
        match o with
        | none => n' = n
        | some k => ∃ xs, n.lists.get? k = some xs ∧ n' = n.leave k x (xs.erase x) := by
  -- The owner decides: a detached member is left as it is, and an attached one is erased from its
  -- list.
  simp only [remove, Run.bind_eq_ok_iff, Run.get_apply]
  constructor
  · rintro ⟨_, _, h₀, h⟩
    cases h₀
    cases hk : n.owner? x with
    | none =>
      rw [hk] at h
      cases h
      exact ⟨rfl, rfl⟩
    | some k =>
      simp only [hk, Run.bind_eq_ok_iff, Run.faulting_eq_ok_iff, list_eq_ok_iff,
        Run.set_apply] at h
      obtain ⟨xs, _, ⟨hxs, rfl⟩, _, _, h₁, h₂⟩ := h
      cases h₁
      cases h₂
      exact ⟨rfl, xs, hxs, rfl⟩
  · rintro ⟨hk, h⟩
    refine ⟨n, n, rfl, ?_⟩
    rw [hk]
    cases o with
    | none =>
      rw [h]
      rfl
    | some k =>
      obtain ⟨xs, hxs, rfl⟩ := h
      simp only [Run.bind_eq_ok_iff, Run.faulting_eq_ok_iff, list_eq_ok_iff]
      exact ⟨xs, n, ⟨hxs, rfl⟩, (), _, rfl, rfl⟩

/-- Appending is not rejected. -/
theorem append_firm (n : Nest κ ν) : Run.Firm (append faults k x) n := by
  refine .get_bind (.ask_fault fun xs _ => ?_)
  split
  · exact .bind .fault fun _ _ _ => .set
  · exact .set

/-- Inserting is not rejected. -/
theorem insert_firm {anchor : ν} (n : Nest κ ν) : Run.Firm (insert faults anchor x) n := by
  refine .get_bind ?_
  split
  · exact .fault
  · refine .ask_fault fun xs _ => ?_
    split
    · exact .bind .fault fun _ _ _ => .set
    · exact .set

/-- Removing is not rejected. -/
theorem remove_firm (n : Nest κ ν) : Run.Firm (remove faults x) n := by
  refine .get_bind ?_
  split
  · exact .pure
  · exact .ask_fault fun _ _ => .bind .set fun _ _ _ => .pure

/-! ## Members -/

/-- A member after an appending is the new one or an old one. -/
theorem append_mem {a : Unit} (h : append faults k x n = .ok a n') (hy : y ∈ n'.members k') :
    y = x ∨ y ∈ n.members k' := by
  obtain ⟨xs, hxs, -, rfl⟩ := append_eq_ok_iff.1 h
  rw [members_enter] at hy
  split at hy
  · subst k'
    rw [members_of_lists hxs]
    simpa [or_comm] using hy
  · exact .inr hy

/-- A member after an insertion is the new one or an old one. -/
theorem insert_mem {anchor : ν} {a : Unit} (h : insert faults anchor x n = .ok a n')
    (hy : y ∈ n'.members k') : y = x ∨ y ∈ n.members k' := by
  obtain ⟨k, xs, -, hxs, -, rfl⟩ := insert_eq_ok_iff.1 h
  rw [members_enter] at hy
  split at hy
  · subst k'
    rw [members_of_lists hxs]
    exact mem_of_mem_insertBefore hy
  · exact .inr hy

/-- A member after a removal is an old one. -/
theorem remove_mem {o : Option κ} (h : remove faults x n = .ok o n') (hy : y ∈ n'.members k') :
    y ∈ n.members k' := by
  obtain ⟨-, h⟩ := remove_eq_ok_iff.1 h
  cases o with
  | none => rwa [h] at hy
  | some k =>
    obtain ⟨xs, hxs, rfl⟩ := h
    rw [members_leave] at hy
    split at hy
    · subst k'
      rw [members_of_lists hxs]
      exact List.mem_of_mem_erase hy
    · exact hy

/-! ## Owners of lists -/

/-- Appending keeps which keys have lists. -/
theorem append_contains {a : Unit} (h : append faults k x n = .ok a n') :
    n'.lists.contains k' = n.lists.contains k' := by
  obtain ⟨xs, hxs, -, rfl⟩ := append_eq_ok_iff.1 h
  exact contains_insert_of_get? hxs _

/-- Inserting keeps which keys have lists. -/
theorem insert_contains {anchor : ν} {a : Unit} (h : insert faults anchor x n = .ok a n') :
    n'.lists.contains k' = n.lists.contains k' := by
  obtain ⟨k, xs, -, hxs, -, rfl⟩ := insert_eq_ok_iff.1 h
  exact contains_insert_of_get? hxs _

/-- Removing keeps which keys have lists. -/
theorem remove_contains {o : Option κ} (h : remove faults x n = .ok o n') :
    n'.lists.contains k' = n.lists.contains k' := by
  obtain ⟨-, h⟩ := remove_eq_ok_iff.1 h
  cases o with
  | none => rw [h]
  | some k =>
    obtain ⟨xs, hxs, rfl⟩ := h
    exact contains_insert_of_get? hxs _

/-! ## Linked nests -/

/-- Lists and owners agree. -/
structure Linked (n : Nest κ ν) : Prop where
  /-- No list has a member twice. -/
  nodup : ∀ k, (n.members k).Nodup
  /-- The owner of a member is the one that has it in its list. -/
  owner : ∀ {x k}, n.owner? x = some k ↔ x ∈ n.members k

/-- The empty nest is linked. -/
theorem linked_empty : ({} : Nest κ ν).Linked := by
  have empty : ∀ k, ({} : Nest κ ν).members k = [] := fun _ => rfl
  refine ⟨fun k => by simp [empty], fun {x k} => ?_⟩
  simp [empty, owner?, Keyed.get?]

namespace Linked

/-- Adding an empty list keeps a nest linked. -/
theorem add (h : n.Linked) (new : n.members k = []) : (n.add k).Linked := by
  have same : ∀ k', (n.add k).members k' = n.members k' := by
    intro k'
    rw [members_add]
    split
    · simp_all
    · rfl
  exact ⟨fun k' => by rw [same]; exact h.nodup k', fun {x k'} => by rw [same]; exact h.owner⟩

/-- A detached member is in no list. -/
theorem not_mem (h : n.Linked) (detached : n.owner? x = none) (k : κ) : x ∉ n.members k := by
  intro hmem
  rw [h.owner.2 hmem] at detached
  cases detached

/-- A member is in one list only. -/
theorem eq_of_mem (h : n.Linked) (hx : x ∈ n.members k) (hx' : x ∈ n.members k') : k = k' :=
  Option.some.inj ((h.owner.2 hx).symm.trans (h.owner.2 hx'))

/-- A detached member enters a list. -/
theorem enter (h : n.Linked) (detached : n.owner? x = none) (nodup : xs.Nodup)
    (mem : ∀ y, y ∈ xs ↔ y = x ∨ y ∈ n.members k) : (n.enter k x xs).Linked := by
  refine ⟨fun k' => ?_, fun {y k'} => ?_⟩
  · rw [members_enter]
    split
    · exact nodup
    · exact h.nodup k'
  · rw [owner?_enter, members_enter]
    -- The new member belongs to this list alone, since it was in none before.
    by_cases hy : y = x
    · subst hy
      by_cases hk : k' = k
      · simp [hk, mem]
      · simp [hk, Ne.symm hk, h.not_mem detached k']
    · by_cases hk : k' = k
      · subst hk
        simp [hy, mem, h.owner]
      · simp [hy, hk, h.owner]

/-- Appending a detached member keeps a nest linked. -/
theorem append {a : Unit} (h : n.Linked) (detached : n.owner? x = none)
    (run : append faults k x n = .ok a n') : n'.Linked := by
  obtain ⟨xs, hxs, hx, rfl⟩ := append_eq_ok_iff.1 run
  have hk := members_of_lists hxs
  refine h.enter detached ?_ fun y => by simp [hk, or_comm]
  rw [List.nodup_append]
  refine ⟨hk ▸ h.nodup k, List.nodup_singleton x, fun y hy z hz => ?_⟩
  rw [List.mem_singleton] at hz
  subst hz
  rintro rfl
  exact hx hy

/-- Inserting a detached member keeps a nest linked. -/
theorem insert {anchor : ν} {a : Unit} (h : n.Linked) (detached : n.owner? x = none)
    (run : insert faults anchor x n = .ok a n') : n'.Linked := by
  obtain ⟨k, xs, hanchor, hxs, hx, rfl⟩ := insert_eq_ok_iff.1 run
  have hk := members_of_lists hxs
  have hmem := h.owner.1 hanchor
  rw [hk] at hmem
  refine h.enter detached (nodup_insertBefore (hk ▸ h.nodup k) hx) fun y => ?_
  rw [mem_insertBefore hmem, hk]

/-- Removing keeps a nest linked, and detaches the member. -/
theorem remove {o : Option κ} (h : n.Linked) (run : remove faults x n = .ok o n') :
    n'.Linked ∧ n'.owner? x = none := by
  obtain ⟨ho, run⟩ := remove_eq_ok_iff.1 run
  cases o with
  | none =>
    rw [run]
    exact ⟨h, ho⟩
  | some k =>
    obtain ⟨xs, hxs, rfl⟩ := run
    have hk := members_of_lists hxs
    have hxs' : xs.Nodup := hk ▸ h.nodup k
    -- Two facts are to be kept: no list has repetitions, and the owner of a member is the list it
    -- is in.
    refine ⟨⟨fun k' => ?_, fun {y k'} => ?_⟩, by simp [owner?_leave]⟩
    · rw [members_leave]
      split
      · exact hxs'.erase x
      · exact h.nodup k'
    · rw [owner?_leave, members_leave]
      by_cases hk' : k' = k
      · subst hk'
        -- Without repetitions erasing the member once erases it altogether.
        rw [if_pos rfl, hxs'.mem_erase_iff]
        by_cases hy : y = x
        · simp [hy]
        · simp [hy, h.owner, hk]
      · rw [if_neg hk']
        by_cases hy : y = x
        · subst hy
          simp only [if_pos]
          -- The member was in its own list only.
          refine ⟨nofun, fun hmem => absurd (h.eq_of_mem hmem (h.owner.1 ho)) hk'⟩
        · simp [hy, h.owner]

/-- The next member stands right behind it in the list of its owner. -/
theorem next?_eq_some_iff (h : n.Linked) :
    n.next? x = some y ↔ ∃ k l₁ l₂, n.members k = l₁ ++ x :: y :: l₂ := by
  simp only [next?, Option.bind_eq_bind, Option.bind_eq_some_iff, after?_eq_some_iff (h.nodup _)]
  constructor
  · rintro ⟨k, -, l₁, l₂, hk⟩
    exact ⟨k, l₁, l₂, hk⟩
  · rintro ⟨k, l₁, l₂, hk⟩
    exact ⟨k, h.owner.2 (by simp [hk]), l₁, l₂, hk⟩

/-- The previous member stands right before it in the list of its owner. -/
theorem prev?_eq_some_iff (h : n.Linked) :
    n.prev? y = some x ↔ ∃ k l₁ l₂, n.members k = l₁ ++ x :: y :: l₂ := by
  simp only [prev?, Option.bind_eq_bind, Option.bind_eq_some_iff, before?_eq_some_iff (h.nodup _)]
  constructor
  · rintro ⟨k, -, l₁, l₂, hk⟩
    exact ⟨k, l₁, l₂, hk⟩
  · rintro ⟨k, l₁, l₂, hk⟩
    exact ⟨k, h.owner.2 (by simp [hk]), l₁, l₂, hk⟩

/-! ## Linked nests cause no faults -/

/-- Appending a detached member to a list does not end the run. -/
theorem append_calm (h : n.Linked) (list : n.lists.contains k = true)
    (detached : n.owner? x = none) : Run.Calm (Nest.append faults k x) n := by
  obtain ⟨xs, hxs⟩ := Keyed.contains_iff.1 list
  have new : x ∉ xs := members_of_lists hxs ▸ h.not_mem detached k
  exact .of_ok (append_eq_ok_iff (a := ()).2 ⟨xs, hxs, new, rfl⟩)

/-- Inserting a detached member at one that is owned does not end the run. -/
theorem insert_calm {anchor : ν} (h : n.Linked) (owned : n.owner? anchor = some k)
    (detached : n.owner? x = none) : Run.Calm (Nest.insert faults anchor x) n :=
  .of_ok (insert_eq_ok_iff (a := ()).2
    ⟨k, _, owned, lists_of_mem (h.owner.1 owned), h.not_mem detached k, rfl⟩)

/-- Removing does not end the run. -/
theorem remove_calm (h : n.Linked) : Run.Calm (Nest.remove faults x) n := by
  cases hk : n.owner? x with
  | none => exact .of_ok (remove_eq_ok_iff.2 ⟨hk, rfl⟩)
  | some k => exact .of_ok (remove_eq_ok_iff.2 ⟨hk, _, lists_of_mem (h.owner.1 hk), rfl⟩)

end Linked

/-! ## Taking out -/

/-- The members that are gone are taken out of their lists, and the owners that are closed have no
list any more. All else stays, in its order. -/
structure Sheds (n n' : Nest κ ν) (closed : κ → Bool) (gone : ν → Bool) : Prop where
  /-- The others stay in their lists. -/
  members : ∀ k, n'.members k = (n.members k).filter (!gone ·)
  /-- The others keep their owners. -/
  owner? : ∀ x, n'.owner? x = if gone x then none else n.owner? x
  /-- The owners that are not closed keep their lists. -/
  contains : ∀ k, n'.lists.contains k = (n.lists.contains k && !closed k)

namespace Sheds

variable {n'' : Nest κ ν} {closed closed' : κ → Bool} {gone gone' : ν → Bool}

/-- What is left of a linked nest is linked. -/
theorem linked (h : n.Sheds n' closed gone) (hn : n.Linked) : n'.Linked := by
  refine ⟨fun k => ?_, fun {x k} => ?_⟩
  · rw [h.members]
    exact (hn.nodup k).filter _
  · rw [h.members, h.owner?, List.mem_filter, ← hn.owner]
    cases gone x <;> simp

/-- Nothing is taken out if nothing that is there is gone. -/
theorem of_apart (hn : n.Linked) (keys : ∀ k, n.lists.contains k = true → closed k = false)
    (mem : ∀ k x, x ∈ n.members k → gone x = false) : n.Sheds n closed gone := by
  refine ⟨fun k => ?_, fun x => ?_, fun k => ?_⟩
  · refine (List.filter_eq_self.2 fun x hx => ?_).symm
    rw [mem k x hx]
    rfl
  · cases hx : n.owner? x with
    | none => simp
    | some k => simp [mem k x (hn.owner.1 hx)]
  · cases hk : n.lists.contains k with
    | false => rfl
    | true => simp [keys k hk]

/-- Taking out twice takes out both. -/
theorem trans (h : n.Sheds n' closed gone) (h' : n'.Sheds n'' closed' gone') :
    n.Sheds n'' (fun k => closed k || closed' k) (fun x => gone x || gone' x) := by
  refine ⟨fun k => ?_, fun x => ?_, fun k => ?_⟩
  · rw [h'.members, h.members, List.filter_filter]
    refine List.filter_congr fun x _ => ?_
    rw [Bool.not_or, Bool.and_comm]
  · rw [h'.owner?, h.owner?]
    cases gone x <;> cases gone' x <;> rfl
  · rw [h'.contains, h.contains, Bool.not_or, Bool.and_assoc]

/-- What is taken out depends on which keys and members it is about. -/
theorem congr (h : n.Sheds n' closed gone) (keys : ∀ k, closed' k = closed k)
    (mem : ∀ x, gone' x = gone x) : n.Sheds n' closed' gone' := by
  obtain rfl := funext keys
  obtain rfl := funext mem
  exact h

/-- Only the owners that have a list, and the members of lists, matter. -/
theorem congr_of_linked (h : n.Sheds n' closed gone) (hn : n.Linked)
    (keys : ∀ k, n.lists.contains k = true → closed' k = closed k)
    (mem : ∀ k x, x ∈ n.members k → gone' x = gone x) : n.Sheds n' closed' gone' := by
  refine ⟨fun k => ?_, fun x => ?_, fun k => ?_⟩
  · rw [h.members]
    exact List.filter_congr fun x hx => by rw [mem k x hx]
  · rw [h.owner?]
    cases hx : n.owner? x with
    | none => simp
    | some k => rw [mem k x (hn.owner.1 hx)]
  · rw [h.contains]
    cases hk : n.lists.contains k with
    | false => rfl
    | true => rw [keys k hk]

end Sheds

/-- A removal takes out the one member. -/
theorem remove_sheds {o : Option κ} (h : n.Linked) (run : remove faults x n = .ok o n') :
    n.Sheds n' (fun _ => false) (fun y => decide (y = x)) := by
  refine ⟨fun k => ?_, fun y => ?_, fun k => ?_⟩
  · obtain ⟨ho, run⟩ := remove_eq_ok_iff.1 run
    -- A list that does not have the member is not changed by filtering it out.
    have other : x ∉ n.members k → (n.members k).filter (fun y => !decide (y = x)) = n.members k := by
      intro hx
      refine List.filter_eq_self.2 fun y hy => ?_
      have : y ≠ x := by
        rintro rfl
        exact hx hy
      simp [this]
    cases o with
    | none =>
      rw [run, other (h.not_mem ho k)]
    | some k' =>
      obtain ⟨xs, hxs, rfl⟩ := run
      have hk' := members_of_lists hxs
      rw [members_leave]
      split
      · subst k
        -- In its own list the member comes once, so erasing it is filtering it out.
        rw [hk', (hk' ▸ h.nodup k' : xs.Nodup).erase_eq_filter]
        refine List.filter_congr fun y _ => ?_
        by_cases hy : y = x <;> simp [hy]
      · rename_i hne
        exact (other fun hx => hne (h.eq_of_mem hx (h.owner.1 ho))).symm
  · obtain ⟨ho, run⟩ := remove_eq_ok_iff.1 run
    cases o with
    | none =>
      rw [run]
      by_cases hy : y = x
      · simp [hy, ho]
      · simp [hy]
    | some k =>
      obtain ⟨xs, hxs, rfl⟩ := run
      rw [owner?_leave]
      by_cases hy : y = x <;> simp [hy]
  · -- No list is created or dropped.
    rw [remove_contains run]
    simp

/-- An owner without members is closed. -/
theorem drop_sheds (empty : n.members k = []) :
    n.Sheds (n.drop k) (fun k' => decide (k' = k)) (fun _ => false) := by
  refine ⟨fun k' => ?_, fun x => rfl, fun k' => ?_⟩
  · rw [members_drop]
    split
    · subst k'
      rw [empty]
      rfl
    · simp
  · rw [drop, Keyed.contains_erase]
    by_cases hk : k' = k <;> simp [hk]

end Nest

end SsaGraph
