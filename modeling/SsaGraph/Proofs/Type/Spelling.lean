import SsaGraph.Proofs.Type.Stratified

/-!
# How types are spelled

The text of a type, character by character. A type is spelled as a core with endings: the core is a
word, a number of bits, or parts in brackets, and each ending says of what comes before it that it
is pointed to or that a function returns it. `letters_core` and `letters_around` say so of the text
that is displayed.

Numbers and lists can be read back from the left. A number goes up to where no digit comes next
(`toDigits_append_inj`). An item of a list goes up to where it stops, if it can be told from all
other items there (`Reads`), and then so does the list (`items_inj`).
-/

namespace SsaGraph

namespace Spelling

variable {α : Type} {r r' : List Char}

/-! ## Numbers -/

/-- No digit comes next. -/
def NoDigit (r : List Char) : Prop := ∀ c ∈ r.head?, c.isDigit = false

/-- A text does not start with a digit if its first letter is none. -/
theorem noDigit_cons {c : Char} (h : c.isDigit = false) : NoDigit (c :: r) := by
  intro d hd
  cases hd
  exact h

/-- A number is read back up to the first letter that is no digit. -/
theorem takeWhile_toDigits (n : Nat) (hr : NoDigit r) :
    (Nat.toDigits 10 n ++ r).takeWhile Char.isDigit = Nat.toDigits 10 n := by
  have digits : ∀ c ∈ Nat.toDigits 10 n, c.isDigit = true := fun c hc =>
    Nat.isDigit_of_mem_toDigits (by decide) (by decide) hc
  rw [List.takeWhile_append_of_pos digits]
  cases r with
  | nil => simp
  | cons c r => simp [hr c rfl]

/-- A number can be read up to where no digit comes next. -/
theorem toDigits_append_inj {m n : Nat} (hr : NoDigit r) (hr' : NoDigit r')
    (h : Nat.toDigits 10 m ++ r = Nat.toDigits 10 n ++ r') : m = n ∧ r = r' := by
  have same : Nat.toDigits 10 m = Nat.toDigits 10 n := by
    rw [← takeWhile_toDigits m hr, h, takeWhile_toDigits n hr']
  refine ⟨?_, ?_⟩
  · rw [← Nat.ofDigitChars_ten_toDigits (n := m), same, Nat.ofDigitChars_ten_toDigits]
  · rw [same] at h
    exact List.append_cancel_left h

/-! ## Lists -/

/-- What may come after the spelling of a type: the end, or what closes or continues the list that
the type is in. -/
inductive Stops : List Char → Prop
  | done : Stops []
  | char {c : Char} {r : List Char} (h : c ∈ [',', ')', ']', '>']) : Stops (c :: r)
  | brace {r : List Char} : Stops (' ' :: '}' :: r)

/-- The start of a type. -/
def Opens (l : List Char) : Prop :=
  ∃ c ∈ ['v', 'h', 'f', 'd', 'l', 'm', 'i', '[', '<', '\x7b'], l.head? = some c

/-- An item of a list can be read up to where it stops. -/
def Reads (spell : α → List Char) (ok : α → Prop) (x : α) : Prop :=
  ∀ {y r r'}, ok y → Stops r → Stops r' → spell x ++ r = spell y ++ r' → x = y ∧ r = r'

/-- The items of a list after the first. -/
def more (spell : α → List Char) (xs : List α) : List Char :=
  xs.flatMap fun x => ',' :: ' ' :: spell x

/-- A list is spelt as its first item and the rest with their separators. -/
theorem intercalate_cons (spell : α → List Char) (x : α) (xs : List α) :
    [',', ' '].intercalate ((x :: xs).map spell) = spell x ++ more spell xs := by
  induction xs generalizing x with
  | nil => simp [more]
  | cons y ys ih =>
    rw [List.map_cons, List.map_cons, List.intercalate_cons_cons, ← List.map_cons, ih]
    simp [more]

/-- Where a spelling stops, no other starts. -/
theorem Stops.not_opens (hr : Stops r) : ¬ Opens r := by
  rintro ⟨c, hc, head⟩
  cases hr with
  | done => cases head
  | @char d _ h =>
    cases head
    simp only [List.mem_cons, List.not_mem_nil, or_false] at h
    rcases h with rfl | rfl | rfl | rfl <;> simp at hc
  | brace =>
    cases head
    simp at hc

/-- What starts with an opening letter does so whatever follows. -/
theorem Opens.append {l : List Char} (h : Opens l) (r : List Char) : Opens (l ++ r) := by
  obtain ⟨c, hc, head⟩ := h
  refine ⟨c, hc, ?_⟩
  rw [List.head?_append, head]
  rfl

/-- The separator of a list stops the item before it. -/
theorem Stops.more {spell : α → List Char} {xs : List α} (hr : Stops r) :
    Stops (more spell xs ++ r) := by
  cases xs with
  | nil => exact hr
  | cons x xs => exact .char (by decide)

variable {spell : α → List Char} {ok : α → Prop} {xs ys : List α}

/-- The rest of a list can be read back with what follows it. -/
theorem more_inj (reads : ∀ x ∈ xs, Reads spell ok x) (hok : ∀ y ∈ ys, ok y) (hr : Stops r)
    (hr' : Stops r') (last : r.head? ≠ some ',') (last' : r'.head? ≠ some ',')
    (h : more spell xs ++ r = more spell ys ++ r') : xs = ys ∧ r = r' := by
  -- The lists are read side by side; where one ends, the other text has no comma.
  induction xs generalizing ys with
  | nil =>
    cases ys with
    | nil => exact ⟨rfl, h⟩
    | cons y ys =>
      have head : r = ',' :: ' ' :: (spell y ++ (more spell ys ++ r')) := by simpa [more] using h
      rw [head] at last
      exact absurd rfl last
  | cons x xs ih =>
    cases ys with
    | nil =>
      have head : r' = ',' :: ' ' :: (spell x ++ (more spell xs ++ r)) := by
        simpa [more] using h.symm
      rw [head] at last'
      exact absurd rfl last'
    | cons y ys =>
      rw [List.forall_mem_cons] at reads hok
      have h : spell x ++ (more spell xs ++ r) = spell y ++ (more spell ys ++ r') := by
        simpa [more] using h
      obtain ⟨rfl, rest⟩ := reads.1 hok.1 hr.more hr'.more h
      obtain ⟨rfl, rfl⟩ := ih reads.2 hok.2 rest
      exact ⟨rfl, rfl⟩

/-- A list of items can be read up to where it stops. -/
theorem items_inj (goes : ∀ x ∈ xs ++ ys, ∀ l, ¬ Stops (spell x ++ l))
    (reads : ∀ x ∈ xs, Reads spell ok x) (hok : ∀ y ∈ ys, ok y) (hr : Stops r) (hr' : Stops r') (last : r.head? ≠ some ',')
    (last' : r'.head? ≠ some ',')
    (h : [',', ' '].intercalate (xs.map spell) ++ r = [',', ' '].intercalate (ys.map spell) ++ r') :
    xs = ys ∧ r = r' := by
  -- The first item has no separator in front; the rest is the lemma above.
  cases xs with
  | nil =>
    cases ys with
    | nil => exact ⟨rfl, by simpa using h⟩
    | cons y ys =>
      rw [intercalate_cons, List.append_assoc] at h
      have stops : Stops (spell y ++ (more spell ys ++ r')) := h ▸ hr
      exact absurd stops (goes y (by simp) _)
  | cons x xs =>
    cases ys with
    | nil =>
      rw [intercalate_cons, List.append_assoc] at h
      have stops : Stops (spell x ++ (more spell xs ++ r)) := h ▸ hr'
      exact absurd stops (goes x (by simp) _)
    | cons y ys =>
      rw [List.forall_mem_cons] at reads hok
      rw [intercalate_cons, intercalate_cons, List.append_assoc, List.append_assoc] at h
      obtain ⟨rfl, rest⟩ := reads.1 hok.1 hr.more hr'.more h
      obtain ⟨rfl, rfl⟩ := more_inj reads.2 hok.2 hr hr' last last' rest
      exact ⟨rfl, rfl⟩

end Spelling

/-! ## Types -/

/-- What is spelled after a type: that it is pointed to, or that a function returns it. -/
inductive Ending where
  | pointer (space : Nat)
  | call (params : List Ty) (varArg : Bool)

namespace Ending

/-- The types that appear in an ending. -/
def params : Ending → List Ty
  | pointer _ => []
  | call params _ => params

/-- The description that an ending makes of a type. -/
def around (stem : Ty) : Ending → TypeData
  | pointer space => .pointer stem space
  | call params varArg => .function stem params varArg

/-- A type with an ending contains its stem and the parameters of the ending. -/
theorem contained_around (stem : Ty) (s : Ending) : (s.around stem).contained = stem :: s.params := by
  cases s <;> rfl

/-- A type with an ending is not an identified struct. -/
theorem isNominal_around (stem : Ty) (s : Ending) : (s.around stem).isNominal = false := by
  cases s <;> rfl

/-- What is spelled between the parentheses: parameters, and perhaps the mark that more may come. -/
def items (params : List Ty) (varArg : Bool) : List (Option Ty) :=
  params.map some ++ if varArg then [none] else []

/-- The items of a parameter list are the parameters and the dots. -/
theorem mem_of_items {params : List Ty} {varArg : Bool} {o : Option Ty}
    (h : o ∈ items params varArg) : ∀ p ∈ o, p ∈ params := by
  rintro p ⟨⟩
  cases varArg <;> simpa [items] using h

/-- The items tell the parameters, and whether there is the mark. -/
theorem items_injective {params params' : List Ty} {varArg varArg' : Bool}
    (h : items params varArg = items params' varArg') : params = params' ∧ varArg = varArg' := by
  constructor
  · have same := congrArg (List.filterMap id) h
    cases varArg <;> cases varArg' <;> simpa [items] using same
  · have same : none ∈ items params varArg ↔ none ∈ items params' varArg' := by rw [h]
    cases varArg <;> cases varArg' <;> simp [items] at same ⊢

end Ending

/-- A description that is not spelled with an ending. -/
def TypeData.isCore : TypeData → Bool
  | pointer _ _ | function _ _ _ | identified _ _ => false
  | _ => true

namespace TypeTable

variable {t : TypeTable} {ty : Ty} {d : TypeData}

/-- The characters of the text of a type. -/
def letters (t : TypeTable) (ty : Ty) : List Char := (t.display ty).toList

/-- A parameter, or the mark that more arguments may come. -/
def item (t : TypeTable) : Option Ty → List Char
  | some ty => t.letters ty
  | none => ['.', '.', '.']

/-- The characters of an ending. -/
def ending (t : TypeTable) : Ending → List Char
  | .pointer 0 => ['*']
  | .pointer space => " addrspace(".toList ++ (Nat.toDigits 10 space ++ [')', '*'])
  | .call params varArg =>
    ' ' :: '(' :: ([',', ' '].intercalate ((Ending.items params varArg).map t.item) ++ [')'])

/-- The characters of a type without endings. -/
def spell (t : TypeTable) : TypeData → List Char
  | .void => ['v', 'o', 'i', 'd']
  | .half => ['h', 'a', 'l', 'f']
  | .float => ['f', 'l', 'o', 'a', 't']
  | .double => ['d', 'o', 'u', 'b', 'l', 'e']
  | .label => ['l', 'a', 'b', 'e', 'l']
  | .metadata => ['m', 'e', 't', 'a', 'd', 'a', 't', 'a']
  | .integer bits => 'i' :: Nat.toDigits 10 bits
  | .array elem len => '[' :: (Nat.toDigits 10 len ++ ' ' :: 'x' :: ' ' :: (t.letters elem ++ [']']))
  | .vector elem lanes =>
    '<' :: (Nat.toDigits 10 lanes ++ ' ' :: 'x' :: ' ' :: (t.letters elem ++ ['>']))
  | .literal body => if body.packed then '<' :: (braces body.fields ++ ['>']) else braces body.fields
  | _ => []
where
  /-- Fields in braces. -/
  braces : List Ty → List Char
    | [] => ['\x7b', '\x7d']
    | fields => '\x7b' :: ' ' :: ([',', ' '].intercalate (fields.map t.letters) ++ [' ', '\x7d'])

/-- An ending is spelled after the type that it is about. -/
theorem letters_around {stem : Ty} {s : Ending} (ho : t.Ordered) (hw : t.WellFormed)
    (hd : t.data? ty = some (s.around stem)) : t.letters ty = t.letters stem ++ t.ending s := by
  rw [letters, ho.display_eq hw hd]
  cases s with
  | pointer space => cases space <;> simp [Ending.around, render, ending, letters, toString]
  | call params varArg =>
    have params_eq : params.map (t.item ∘ some) = params.map (String.toList ∘ t.display) := rfl
    cases varArg <;> simp [Ending.around, render, ending, Ending.items, letters, item, params_eq]

/-- A type without endings is displayed as its data is spelt. -/
theorem letters_core (ho : t.Ordered) (hw : t.WellFormed) (hd : t.data? ty = some d)
    (hcore : d.isCore = true) : t.letters ty = t.spell d := by
  rw [letters, ho.display_eq hw hd]
  cases d with
  | literal body =>
    obtain ⟨fields, packed⟩ := body
    have letters_eq : t.letters = String.toList ∘ t.display := rfl
    cases fields <;> cases packed <;> simp [render, spell, spell.braces, letters_eq]
  | integer bits => simp [render, spell, toString]
  | array elem len => simp [render, spell, letters, toString]
  | vector elem lanes => simp [render, spell, letters, toString]
  | pointer | function | identified => cases hcore
  | _ => simp [render, spell]

end TypeTable

end SsaGraph
