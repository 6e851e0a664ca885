/-!
# Keyed lists

A finite map as a list of entries, one per key, in the order in which the keys were added. What each
operation does is said through `get?`: `get?_insert` and `get?_erase`.
-/

namespace SsaGraph

/-- A finite map from `κ` to `ν`. -/
structure Keyed (κ ν : Type) where
  /-- The entries in the order in which their keys were added. -/
  entries : List (κ × ν) := []

namespace Keyed

variable {κ ν : Type} [DecidableEq κ]

/-- The map without entries. -/
def empty : Keyed κ ν := ⟨[]⟩

/-- The value at a key. -/
def get? (m : Keyed κ ν) (k : κ) : Option ν :=
  (m.entries.find? fun e => e.1 = k).map Prod.snd

/-- The key has an entry. -/
def contains (m : Keyed κ ν) (k : κ) : Bool := (m.get? k).isSome

/-- Adds an entry, replacing the one that the key has. -/
def insert (m : Keyed κ ν) (k : κ) (v : ν) : Keyed κ ν :=
  if m.contains k then ⟨m.entries.map fun e => if e.1 = k then (k, v) else e⟩
  else ⟨m.entries ++ [(k, v)]⟩

/-- Removes the entry of a key. -/
def erase (m : Keyed κ ν) (k : κ) : Keyed κ ν :=
  ⟨m.entries.filter fun e => e.1 ≠ k⟩

/-! ## Reading back -/

/-- The empty map has no value at any key. -/
@[simp] theorem get?_empty (k : κ) : (empty : Keyed κ ν).get? k = none := rfl

/-- If no key comes twice, the value at a key is that of its entry. -/
theorem get?_mk_eq_some_iff {l : List (κ × ν)} (h : (l.map Prod.fst).Nodup) {k : κ} {v : ν} :
    (⟨l⟩ : Keyed κ ν).get? k = some v ↔ (k, v) ∈ l := by
  induction l with
  | nil => simp [get?]
  | cons e l ih =>
    obtain ⟨k', v'⟩ := e
    rw [List.map_cons, List.nodup_cons] at h
    have ih := ih h.2
    simp only [get?, List.find?_cons, List.mem_cons, Prod.mk.injEq] at ih ⊢
    by_cases hk : k' = k
    · subst hk
      have hout : (k', v) ∉ l := fun hmem => h.1 (List.mem_map.2 ⟨_, hmem, rfl⟩)
      simp [hout, eq_comm]
    · simp [hk, Ne.symm hk, ih]

/-- An entry at the end is found at its key, if no earlier entry has that key. -/
theorem get?_mk_append (l : List (κ × ν)) (k k' : κ) (v : ν) (h : (⟨l⟩ : Keyed κ ν).get? k = none) :
    (⟨l ++ [(k, v)]⟩ : Keyed κ ν).get? k' =
      if k' = k then some v else (⟨l⟩ : Keyed κ ν).get? k' := by
  simp only [get?, Option.map_eq_none_iff] at h ⊢
  by_cases hk : k' = k
  · subst hk
    rw [List.find?_append, h]
    simp
  · simp [List.find?_append, hk, Ne.symm hk]

/-- Replacing the entry of a key in place is seen at that key only. -/
theorem get?_mk_map (l : List (κ × ν)) (k k' : κ) (v : ν) :
    (⟨l.map fun e => if e.1 = k then (k, v) else e⟩ : Keyed κ ν).get? k' =
      if k' = k then ((⟨l⟩ : Keyed κ ν).get? k).map fun _ => v else (⟨l⟩ : Keyed κ ν).get? k' := by
  induction l with
  | nil => simp [get?]
  | cons e l ih =>
    simp only [get?, List.map_cons, List.find?_cons] at ih ⊢
    by_cases he : e.1 = k
    · by_cases hk : k' = k
      · simp [he, hk]
      · simpa [he, hk, Ne.symm hk] using ih
    · by_cases hk : k' = k
      · subst hk
        simpa [he] using ih
      · by_cases h : e.1 = k'
        · simp [hk, h]
        · simpa [he, hk, h] using ih

/-- After an insertion the key has the new value, and the other keys have what they had. -/
theorem get?_insert (m : Keyed κ ν) (k k' : κ) (v : ν) :
    (m.insert k v).get? k' = if k' = k then some v else m.get? k' := by
  obtain ⟨l⟩ := m
  unfold insert contains
  split
  · rename_i h
    obtain ⟨w, hw⟩ := Option.isSome_iff_exists.1 h
    rw [get?_mk_map, hw, Option.map_some]
  · rename_i h
    exact get?_mk_append _ _ _ _ (by simpa using h)

/-- A key is there when it has an entry. -/
theorem contains_iff {m : Keyed κ ν} {k : κ} : m.contains k = true ↔ ∃ v, m.get? k = some v :=
  Option.isSome_iff_exists

/-- After an insertion its key is there, and the others are as before. -/
theorem contains_insert (m : Keyed κ ν) (k k' : κ) (v : ν) :
    (m.insert k v).contains k' = if k' = k then true else m.contains k' := by
  rw [contains, get?_insert]
  split <;> rfl

/-- After an erasure the key has no value, and the other keys have what they had. -/
theorem get?_erase (m : Keyed κ ν) (k k' : κ) :
    (m.erase k).get? k' = if k' = k then none else m.get? k' := by
  simp only [erase, get?, List.find?_filter]
  by_cases h : k' = k
  · simp [h]
  · have hp : (fun e : κ × ν => !decide (e.1 = k) && decide (e.1 = k')) =
        fun e => decide (e.1 = k') := by
      funext e
      by_cases he : e.1 = k' <;> simp [he, h]
    simp [h, hp]

/-- After a removal its key is gone, and the others are as before. -/
theorem contains_erase (m : Keyed κ ν) (k k' : κ) :
    (m.erase k).contains k' = if k' = k then false else m.contains k' := by
  rw [contains, get?_erase]
  split <;> rfl

end Keyed

end SsaGraph
