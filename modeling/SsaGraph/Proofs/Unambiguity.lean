import Mathlib.Logic.Relation
import SsaGraph.Proofs.Stratification
import SsaGraph.Proofs.Type.Spelling

/-!
# The display of types is unambiguous

Structural types are those that no identified struct is part of, however deep. Different structural
types have different texts, although a type may come before any number of endings and the text of a
part is not marked as such.

A text is read from the left. Its first characters tell the kind of the core, which is then read to
its end (`spell_inj`); after it come endings, until something comes that no ending starts with
(`endings_inj`). The parts in brackets and parentheses are read in the same way, by induction on the
index of the type, and each of them stops where the bracket or the list goes on. So texts that are
the same have the same core and the same endings, and the table has one type of these
(`Spine.unique`).
-/

namespace SsaGraph

open Relation (ReflTransGen TransGen)
open Spelling

namespace TypeTable

variable {t : TypeTable} {ty a b core p : Ty} {d d' : TypeData} {ss ss' : List Ending}

/-! ## Structural types -/

/-- The type is in the table, and neither it nor any type that it is made of, however deep, is an
identified struct. -/
structure Structural (t : TypeTable) (ty : Ty) : Prop where
  has : t.Has ty
  structural : ∀ {w d}, ReflTransGen t.Contains ty w → t.data? w = some d → d.isNominal = false

/-- A structural type has data, and is not an identified struct. -/
theorem Structural.data (h : t.Structural ty) : ∃ d, t.data? ty = some d ∧ d.isNominal = false := by
  obtain ⟨d, hd⟩ := h.has
  exact ⟨d, hd, h.structural .refl hd⟩

/-- The parts of a structural type are structural and older. -/
theorem Structural.part (h : t.Structural ty) (ho : t.Ordered) (hw : t.WellFormed)
    (hp : t.Contains ty p) : t.Structural p ∧ p.index < ty.index := by
  obtain ⟨d, hd, mem⟩ := hp
  refine ⟨⟨(hw.admits hd).has_contained p mem, fun path => ?_⟩, ?_⟩
  · exact h.structural (.head ⟨d, hd, mem⟩ path)
  · exact ho.lt hd (h.structural .refl hd) p mem

/-- What a structural type is made of, however deep, is structural and came before it. -/
theorem Structural.inner (h : t.Structural ty) (ho : t.Ordered) (hw : t.WellFormed)
    (path : TransGen t.Contains ty p) : t.Structural p ∧ p.index < ty.index := by
  induction path with
  | single step => exact h.part ho hw step
  | tail _ step ih =>
    obtain ⟨structural, smaller⟩ := ih.1.part ho hw step
    exact ⟨structural, by omega⟩

/-! ## Endings -/

/-- A type is spelled as a core with endings. -/
inductive Spine (t : TypeTable) (core : Ty) : Ty → List Ending → Prop
  | core {d : TypeData} (data : t.data? core = some d) (hcore : d.isCore = true) : Spine t core core []
  | ending {ty stem : Ty} {s : Ending} {ss : List Ending} (data : t.data? ty = some (s.around stem))
    (inner : Spine t core stem ss) : Spine t core ty (ss ++ [s])

/-- A structural type is a core with endings around it. -/
theorem Structural.exists_spine (h : t.Structural ty) (ho : t.Ordered) (hw : t.WellFormed) :
    ∃ core ss, t.Spine core ty ss := by
  generalize hn : ty.index = n
  induction n using Nat.strong_induction_on generalizing ty with
  | h n ih =>
    obtain ⟨d, hd, structural⟩ := h.data
    have around : ∀ {s : Ending} {stem}, d = s.around stem → ∃ core ss, t.Spine core ty ss := by
      rintro s stem rfl
      have contains : t.Contains ty stem := ⟨_, hd, by simp [Ending.contained_around]⟩
      obtain ⟨structural, smaller⟩ := h.part ho hw contains
      obtain ⟨core, ss, spine⟩ := ih stem.index (hn ▸ smaller) structural rfl
      exact ⟨core, _, .ending hd spine⟩
    -- Pointers and functions put their endings behind; any other type is a core.
    cases d with
    | pointer pointee space => exact around (s := .pointer space) rfl
    | function ret params varArg => exact around (s := .call params varArg) rfl
    | identified => cases structural
    | _ => exact ⟨ty, [], .core hd rfl⟩

namespace Spine

/-- The core and the endings are spelled one after the other. -/
theorem letters (h : t.Spine core ty ss) (ho : t.Ordered) (hw : t.WellFormed) :
    t.letters ty = t.letters core ++ ss.flatMap t.ending := by
  induction h with
  | core => simp
  | ending data _ ih =>
    rw [letters_around ho hw data, ih]
    simp

/-- A type is known by its core and its endings. -/
theorem unique (h : t.Spine core a ss) (h' : t.Spine core b ss) (hw : t.WellFormed) : a = b := by
  -- From the outermost ending inwards the stems agree, and so do the types around them.
  induction h generalizing b with
  | core =>
    generalize hss : ([] : List Ending) = ss at h'
    cases h' with
    | core => rfl
    | ending => simp at hss
  | @ending ty stem s ss data _ ih =>
    generalize hss : ss ++ [s] = ss' at h'
    cases h' with
    | core => simp at hss
    | ending data' inner' =>
      obtain ⟨rfl, hs⟩ := List.append_inj' hss rfl
      cases hs
      obtain rfl := ih inner'
      exact hw.canonical data data' (s.isNominal_around stem)

/-- The core of a spine is a type of the table that is no pointer or function. -/
theorem data (h : t.Spine core ty ss) : ∃ d, t.data? core = some d ∧ d.isCore = true := by
  induction h with
  | core data hcore => exact ⟨_, data, hcore⟩
  | ending _ _ ih => exact ih

/-- A type contains the core of its spine, at some depth. -/
theorem reaches (h : t.Spine core ty ss) : ReflTransGen t.Contains ty core := by
  induction h with
  | core => exact .refl
  | ending data _ ih => exact .head ⟨_, data, by simp [Ending.contained_around]⟩ ih

/-- The types in the endings are among those that the type is made of. -/
theorem inner (h : t.Spine core ty ss) : ∀ s ∈ ss, ∀ p ∈ s.params, TransGen t.Contains ty p := by
  induction h with
  | core => simp
  | @ending ty stem s ss data _ ih =>
    have contains : ∀ {p}, p = stem ∨ p ∈ s.params → t.Contains ty p := by
      intro p hp
      exact ⟨_, data, by simpa [Ending.contained_around] using hp⟩
    intro s' hs p hp
    rcases List.mem_append.1 hs with hs | hs
    · exact .head (contains (.inl rfl)) (ih s' hs p hp)
    · obtain rfl := List.mem_singleton.1 hs
      exact .single (contains (.inr hp))

end Spine

/-! ## Reading -/

/-- The text of a structural type starts as an item does. -/
theorem opens_spell (hcore : d.isCore = true) : Opens (t.spell d) := by
  cases d with
  | literal body =>
    obtain ⟨fields, packed⟩ := body
    cases fields <;> cases packed <;> simp [Opens, spell, spell.braces]
  | pointer | function | identified => cases hcore
  | _ => simp [Opens, spell]

/-- The display of a structural type starts with an opening letter. -/
theorem Structural.opens (h : t.Structural ty) (ho : t.Ordered) (hw : t.WellFormed) :
    Opens (t.letters ty) := by
  obtain ⟨core, ss, spine⟩ := h.exists_spine ho hw
  obtain ⟨d, hd, hcore⟩ := spine.data
  rw [spine.letters ho hw, letters_core ho hw hd hcore]
  exact (opens_spell hcore).append _

/-- The type can be read up to where it stops. -/
abbrev Readable (t : TypeTable) (ty : Ty) : Prop := Reads t.letters t.Structural ty

/-- The display of a structural type does not stop the spelling before it. -/
theorem Structural.not_stops (h : t.Structural ty) (ho : t.Ordered) (hw : t.WellFormed)
    (l : List Char) : ¬ Stops (t.letters ty ++ l) :=
  fun stops => stops.not_opens ((h.opens ho hw).append l)

/-- The dots do not stop a spelling. -/
theorem not_stops_dots (l : List Char) : ¬ Stops ('.' :: l) := by
  intro stops
  cases stops with
  | char h => simp at h

/-- An item of a parameter list does not stop the spelling before it. -/
theorem not_stops_item {x : Option Ty} (h : ∀ ty ∈ x, t.Structural ty) (ho : t.Ordered)
    (hw : t.WellFormed) (l : List Char) : ¬ Stops (t.item x ++ l) := by
  cases x with
  | none => exact not_stops_dots _
  | some ty => exact (h ty rfl).not_stops ho hw l

/-- No type is spelled with dots. -/
theorem Structural.ne_dots (h : t.Structural ty) (ho : t.Ordered) (hw : t.WellFormed)
    {l l' : List Char} : t.letters ty ++ l ≠ '.' :: l' := by
  intro same
  obtain ⟨c, hc, head⟩ := (h.opens ho hw).append l
  rw [same] at head
  cases head
  simp at hc

/-- If the parameters can be read back, so can the items. -/
theorem reads_item {x : Option Ty} (ho : t.Ordered) (hw : t.WellFormed)
    (h : ∀ ty ∈ x, t.Structural ty ∧ t.Readable ty) :
    Reads t.item (fun o => ∀ ty ∈ o, t.Structural ty) x := by
  intro y r r' hy hr hr' same
  cases x with
  | none =>
    cases y with
    | none => exact ⟨rfl, by simpa [item] using same⟩
    | some b => exact absurd same.symm ((hy b rfl).ne_dots ho hw)
  | some a =>
    cases y with
    | none => exact absurd same ((h a rfl).1.ne_dots ho hw)
    | some b =>
      obtain ⟨rfl, rest⟩ := (h a rfl).2 (hy b rfl) hr hr' same
      exact ⟨rfl, rest⟩

/-- The ending of a pointer can be read back with what follows it. -/
theorem pointer_inj {m n : Nat} {x y : List Char}
    (h : t.ending (.pointer m) ++ x = t.ending (.pointer n) ++ y) :
    Ending.pointer m = .pointer n ∧ x = y := by
  -- The address space zero is left out, and any other is printed with a word in front.
  cases m with
  | zero =>
    cases n with
    | zero => exact ⟨rfl, by simpa [ending] using h⟩
    | succ n => simp [ending] at h
  | succ m =>
    cases n with
    | zero => simp [ending] at h
    | succ n =>
      have h : Nat.toDigits 10 (m + 1) ++ ')' :: '*' :: x =
          Nat.toDigits 10 (n + 1) ++ ')' :: '*' :: y := by
        simpa [ending] using h
      obtain ⟨space, rest⟩ := toDigits_append_inj (noDigit_cons rfl) (noDigit_cons rfl) h
      rw [space]
      exact ⟨rfl, by simpa using rest⟩

/-- An ending can be read back with what follows it. -/
theorem ending_inj {s s' : Ending} {x y : List Char} (ho : t.Ordered) (hw : t.WellFormed)
    (reads : ∀ p ∈ s.params, t.Structural p ∧ t.Readable p) (ok : ∀ p ∈ s'.params, t.Structural p)
    (h : t.ending s ++ x = t.ending s' ++ y) : s = s' ∧ x = y := by
  cases s with
  | pointer m =>
    cases s' with
    | pointer n => exact pointer_inj h
    | call => cases m <;> simp [ending] at h
  | call params varArg =>
    cases s' with
    | pointer n => cases n <;> simp [ending] at h
    | call params' varArg' =>
      simp only [ending, List.cons_append, List.append_assoc, List.cons.injEq, true_and,
        List.nil_append] at h
      have structural : ∀ o ∈ Ending.items params varArg, ∀ p ∈ o, t.Structural p ∧ t.Readable p :=
        fun o ho p hp => reads p (Ending.mem_of_items ho p hp)
      have structural' : ∀ o ∈ Ending.items params' varArg', ∀ p ∈ o, t.Structural p :=
        fun o ho p hp => ok p (Ending.mem_of_items ho p hp)
      -- An item never looks like the end of the list.
      have goes : ∀ o ∈ Ending.items params varArg ++ Ending.items params' varArg', ∀ l,
          ¬ Stops (t.item o ++ l) := by
        intro o mem
        rcases List.mem_append.1 mem with mem | mem
        · exact not_stops_item (fun p hp => (structural o mem p hp).1) ho hw
        · exact not_stops_item (structural' o mem) ho hw
      obtain ⟨items, rest⟩ := items_inj goes (fun o mem => reads_item ho hw (structural o mem))
        structural' (.char (by decide)) (.char (by decide)) (by simp) (by simp) h
      obtain ⟨rfl, rfl⟩ := Ending.items_injective items
      cases rest
      exact ⟨rfl, rfl⟩

/-- An ending starts as nothing else does. -/
theorem ending_start (t : TypeTable) (s : Ending) :
    ∃ l, t.ending s = '*' :: l ∨ t.ending s = ' ' :: 'a' :: l ∨ t.ending s = ' ' :: '(' :: l := by
  cases s with
  | pointer space =>
    cases space with
    | zero => exact ⟨_, .inl rfl⟩
    | succ n => exact ⟨_, .inr (.inl rfl)⟩
  | call params varArg => exact ⟨_, .inr (.inr rfl)⟩

/-- An ending does not stop where a spelling stops. -/
theorem not_stops_ending {s : Ending} (l : List Char) : ¬ Stops (t.ending s ++ l) := by
  intro stops
  obtain ⟨m, h | h | h⟩ := ending_start t s <;>
  · rw [h] at stops
    cases stops with
    | char h => simp at h

/-- Endings can be read up to where the type stops. -/
theorem endings_inj {r r' : List Char} (ho : t.Ordered) (hw : t.WellFormed)
    (reads : ∀ s ∈ ss, ∀ p ∈ s.params, t.Structural p ∧ t.Readable p)
    (ok : ∀ s ∈ ss', ∀ p ∈ s.params, t.Structural p) (hr : Stops r) (hr' : Stops r')
    (h : ss.flatMap t.ending ++ r = ss'.flatMap t.ending ++ r') : ss = ss' ∧ r = r' := by
  -- Ending by ending; where one text has none left, the other cannot go on.
  induction ss generalizing ss' with
  | nil =>
    cases ss' with
    | nil => exact ⟨rfl, h⟩
    | cons s' ss' =>
      rw [List.flatMap_cons, List.append_assoc] at h
      have stops : Stops (t.ending s' ++ (ss'.flatMap t.ending ++ r')) := h ▸ hr
      exact absurd stops (not_stops_ending _)
  | cons s ss ih =>
    cases ss' with
    | nil =>
      rw [List.flatMap_cons, List.append_assoc] at h
      have stops : Stops (t.ending s ++ (ss.flatMap t.ending ++ r)) := h ▸ hr'
      exact absurd stops (not_stops_ending _)
    | cons s' ss' =>
      rw [List.forall_mem_cons] at reads ok
      rw [List.flatMap_cons, List.flatMap_cons, List.append_assoc, List.append_assoc] at h
      obtain ⟨rfl, rest⟩ := ending_inj ho hw reads.1 ok.1 h
      obtain ⟨rfl, rfl⟩ := ih reads.2 ok.2 rest
      exact ⟨rfl, rfl⟩

/-- The fields in braces can be read back with what follows them. -/
theorem braces_inj {fields fields' : List Ty} {x y : List Char} (ho : t.Ordered)
    (hw : t.WellFormed) (reads : ∀ p ∈ fields, t.Structural p ∧ t.Readable p)
    (ok : ∀ p ∈ fields', t.Structural p)
    (h : spell.braces t fields ++ x = spell.braces t fields' ++ y) : fields = fields' ∧ x = y := by
  -- An empty list of fields is printed without a blank, so it is told from any other at once.
  cases fields with
  | nil =>
    cases fields' with
    | nil => exact ⟨rfl, by simpa [spell.braces] using h⟩
    | cons => simp [spell.braces] at h
  | cons f fs =>
    cases fields' with
    | nil => simp [spell.braces] at h
    | cons f' fs' =>
      simp only [spell.braces, List.cons_append, List.append_assoc, List.cons.injEq, true_and,
        List.nil_append] at h
      have goes : ∀ p ∈ (f :: fs) ++ (f' :: fs'), ∀ l, ¬ Stops (t.letters p ++ l) := by
        intro p mem
        rcases List.mem_append.1 mem with mem | mem
        · exact (reads p mem).1.not_stops ho hw
        · exact (ok p mem).not_stops ho hw
      obtain ⟨fields, rest⟩ := items_inj goes (fun p mem => (reads p mem).2) ok .brace .brace
        (by simp) (by simp) h
      cases rest
      exact ⟨fields, rfl⟩

/-- A literal struct can be read back with what follows it. -/
theorem literal_inj {body body' : StructBody} {x y : List Char} (ho : t.Ordered)
    (hw : t.WellFormed) (reads : ∀ p ∈ body.fields, t.Structural p ∧ t.Readable p)
    (ok : ∀ p ∈ body'.fields, t.Structural p)
    (h : t.spell (.literal body) ++ x = t.spell (.literal body') ++ y) : body = body' ∧ x = y := by
  obtain ⟨fields, packed⟩ := body
  obtain ⟨fields', packed'⟩ := body'
  -- A packed struct starts with a bracket, and any other with a brace.
  have marks : packed = packed' := by
    cases packed <;> cases packed' <;> cases fields <;> cases fields' <;>
      simp [spell, spell.braces] at h ⊢
  subst marks
  cases packed with
  | false =>
    obtain ⟨rfl, rfl⟩ := braces_inj ho hw reads ok h
    exact ⟨rfl, rfl⟩
  | true =>
    simp only [spell, if_true, List.cons_append, List.append_assoc, List.cons.injEq, true_and,
      List.nil_append] at h
    obtain ⟨rfl, rest⟩ := braces_inj ho hw reads ok h
    cases rest
    exact ⟨rfl, rfl⟩

/-- The number and the elements of an array or a vector. -/
theorem elements_inj {m n : Nat} {c : Char} {x y : List Char} (stop : ∀ r, Stops (c :: r))
    (reads : t.Readable a) (ok : t.Structural b)
    (h : Nat.toDigits 10 m ++ ' ' :: 'x' :: ' ' :: (t.letters a ++ c :: x) =
      Nat.toDigits 10 n ++ ' ' :: 'x' :: ' ' :: (t.letters b ++ c :: y)) :
    m = n ∧ a = b ∧ x = y := by
  obtain ⟨rfl, rest⟩ := toDigits_append_inj (noDigit_cons rfl) (noDigit_cons rfl) h
  simp only [List.cons.injEq, true_and] at rest
  obtain ⟨elem, closed⟩ := reads ok (stop x) (stop y) rest
  cases closed
  exact ⟨rfl, elem, rfl⟩

/-- The kind that the first characters tell. -/
def kindOfStart : List Char → TypeKind
  | 'v' :: _ => .void
  | 'h' :: _ => .half
  | 'f' :: _ => .float
  | 'd' :: _ => .double
  | 'l' :: _ => .label
  | 'm' :: _ => .metadata
  | 'i' :: _ => .integer
  | '[' :: _ => .array
  | '<' :: '\x7b' :: _ => .struct
  | '<' :: _ => .vector
  | _ => .struct

/-- A number after the angle bracket is the start of a vector. -/
theorem kindOfStart_vector (n : Nat) (l : List Char) :
    kindOfStart ('<' :: (Nat.toDigits 10 n ++ l)) = .vector := by
  cases digits : Nat.toDigits 10 n with
  | nil => exact absurd digits Nat.toDigits_ne_nil
  | cons c cs =>
    have digit : c.isDigit = true := by
      refine Nat.isDigit_of_mem_toDigits (b := 10) (n := n) (by decide) (by decide) ?_
      rw [digits]
      exact List.mem_cons_self
    have other : c ≠ '\x7b' := by
      rintro rfl
      cases digit
    simp [kindOfStart, other]

/-- The start of a spelling tells the kind of its type. -/
theorem kindOfStart_spell (hcore : d.isCore = true) (l : List Char) :
    kindOfStart (t.spell d ++ l) = d.kind := by
  cases d with
  | pointer | function | identified => cases hcore
  | literal body =>
    obtain ⟨fields, packed⟩ := body
    cases fields <;> cases packed <;> rfl
  | vector elem lanes =>
    rw [spell, List.cons_append, List.append_assoc]
    exact kindOfStart_vector _ _
  | _ => rfl

/-- A core can be read up to where no digit comes next. -/
theorem spell_inj {x y : List Char} (ho : t.Ordered) (hw : t.WellFormed)
    (hcore : d.isCore = true) (hcore' : d'.isCore = true)
    (reads : ∀ p ∈ d.contained, t.Structural p ∧ t.Readable p)
    (ok : ∀ p ∈ d'.contained, t.Structural p) (hx : NoDigit x) (hy : NoDigit y)
    (h : t.spell d ++ x = t.spell d' ++ y) : d = d' ∧ x = y := by
  have kind : d.kind = d'.kind := by
    rw [← kindOfStart_spell hcore x, h, kindOfStart_spell hcore' y]
  -- Both are of one kind, so that only the contents are to be compared.
  cases d with
  | pointer | function | identified => cases hcore
  | void | half | float | double | label | metadata =>
    cases d' <;> cases kind
    exact ⟨rfl, List.append_cancel_left h⟩
  -- The number of bits ends where the digits end.
  | integer m =>
    cases d' with
    | integer n =>
      simp only [spell, List.cons_append, List.cons.injEq, true_and] at h
      obtain ⟨rfl, rfl⟩ := toDigits_append_inj hx hy h
      exact ⟨rfl, rfl⟩
    | _ => cases kind
  -- Length and element stand between brackets, and the closing one stops the element.
  | array elem len =>
    cases d' with
    | array elem' len' =>
      simp only [spell, List.cons_append, List.append_assoc, List.cons.injEq, true_and,
        List.nil_append] at h
      obtain ⟨rfl, rfl, rfl⟩ := elements_inj (fun _ => .char (by decide))
        (reads elem List.mem_cons_self).2 (ok elem' List.mem_cons_self) h
      exact ⟨rfl, rfl⟩
    | _ => cases kind
  | vector elem lanes =>
    cases d' with
    | vector elem' lanes' =>
      simp only [spell, List.cons_append, List.append_assoc, List.cons.injEq, true_and,
        List.nil_append] at h
      obtain ⟨rfl, rfl, rfl⟩ := elements_inj (fun _ => .char (by decide))
        (reads elem List.mem_cons_self).2 (ok elem' List.mem_cons_self) h
      exact ⟨rfl, rfl⟩
    | _ => cases kind
  | literal body =>
    cases d' with
    | literal body' =>
      obtain ⟨rfl, rfl⟩ := literal_inj ho hw reads ok h
      exact ⟨rfl, rfl⟩
    | identified => cases hcore'
    | _ => cases kind

/-- No digit follows the core of a display. -/
theorem noDigit_endings {r : List Char} (hr : Stops r) : NoDigit (ss.flatMap t.ending ++ r) := by
  cases ss with
  | nil =>
    cases hr with
    | done => exact nofun
    | @char c _ h =>
      refine noDigit_cons ?_
      simp only [List.mem_cons, List.not_mem_nil, or_false] at h
      rcases h with rfl | rfl | rfl | rfl <;> rfl
    | brace => exact noDigit_cons rfl
  | cons s ss =>
    rw [List.flatMap_cons, List.append_assoc]
    obtain ⟨l, h | h | h⟩ := ending_start t s <;> rw [h] <;> exact noDigit_cons rfl

/-- Every structural type can be read up to where it stops. -/
theorem Structural.readable (ha : t.Structural a) (ho : t.Ordered) (hw : t.WellFormed) :
    t.Readable a := by
  generalize hn : a.index = n
  -- The types inside have smaller indexes.
  induction n using Nat.strong_induction_on generalizing a with
  | h n ih =>
    intro b r r' hb hr hr' h
    have inside : ∀ {p}, TransGen t.Contains a p → t.Structural p ∧ t.Readable p := by
      intro p path
      obtain ⟨structural, smaller⟩ := ha.inner ho hw path
      exact ⟨structural, ih p.index (hn ▸ smaller) structural rfl⟩
    -- Each display is a core and its endings: first the cores are read, then the endings.
    obtain ⟨core, ss, spine⟩ := ha.exists_spine ho hw
    obtain ⟨core', ss', spine'⟩ := hb.exists_spine ho hw
    obtain ⟨d, hd, hcore⟩ := spine.data
    obtain ⟨d', hd', hcore'⟩ := spine'.data
    rw [spine.letters ho hw, spine'.letters ho hw, letters_core ho hw hd hcore,
      letters_core ho hw hd' hcore', List.append_assoc, List.append_assoc] at h
    obtain ⟨rfl, rest⟩ := spell_inj ho hw hcore hcore'
      (fun p mem => inside (.tail' spine.reaches ⟨d, hd, mem⟩))
      (fun p mem => (hb.inner ho hw (.tail' spine'.reaches ⟨d', hd', mem⟩)).1)
      (noDigit_endings hr) (noDigit_endings hr') h
    obtain ⟨rfl, stop⟩ := endings_inj ho hw (fun s hs p hp => inside (spine.inner s hs p hp))
      (fun s hs p hp => (hb.inner ho hw (spine'.inner s hs p hp)).1) hr hr' rest
    have structural : d.isNominal = false := ha.structural spine.reaches hd
    obtain rfl := hw.canonical hd hd' structural
    exact ⟨spine.unique spine' hw, stop⟩

/-- Structural types with the same text are the same type. -/
theorem Structural.eq_of_display_eq (ha : t.Structural a) (hb : t.Structural b) (ho : t.Ordered)
    (hw : t.WellFormed) (h : t.display a = t.display b) : a = b := by
  have same : t.letters a ++ [] = t.letters b ++ [] := by rw [letters, letters, h]
  exact (ha.readable ho hw hb .done .done same).1

/-- A type is structural if no identified struct came before it. -/
theorem Ordered.structural (ho : t.Ordered) (has : t.Has ty)
    (before : ∀ d ∈ t.types.toList.take (ty.index + 1), d.isNominal = false) :
    t.Structural ty := by
  have entry : ∀ {w d}, w.index ≤ ty.index → t.data? w = some d → d.isNominal = false := by
    intro w d smaller hd
    refine before d (List.mem_of_getElem? (i := w.index) ?_)
    rw [List.getElem?_take_of_lt (by omega)]
    simpa [data?, ctx_of_data? hd] using hd
  refine ⟨has, fun {w d} path hd => ?_⟩
  -- By induction on the path: no type on it is newer than the one it starts from.
  have smaller : w.index ≤ ty.index := by
    induction path generalizing d with
    | refl => exact Nat.le_refl _
    | @tail u w _ step ih =>
      obtain ⟨e, he, mem⟩ := step
      have earlier := ih he
      have less := ho.lt he (entry earlier he) w mem
      omega
  exact entry smaller hd

end TypeTable

namespace Context

variable {c : Context}

/-- In every context that a history leads to, structural types with the same text are the same type.
-/
theorem Reachable.display_unambiguous (hc : c.Reachable) {a b : Ty} (ha : c.types.Structural a)
    (hb : c.types.Structural b) (same : c.types.display a = c.types.display b) : a = b :=
  ha.eq_of_display_eq hb hc.ordered hc.sound.types same

/-- For instance, only one of the structural types has the text of a packed struct with a pointer to
a function and an array of pointers. -/
theorem display_unambiguous_of_packed : ∃ c : Context,
    replay [.pointerType ⟨⟨1⟩, 7⟩ 0, .functionType ⟨⟨1⟩, 9⟩ [⟨⟨1⟩, 11⟩] true,
      .pointerType ⟨⟨1⟩, 12⟩ 0, .pointerType ⟨⟨1⟩, 7⟩ 3, .arrayType ⟨⟨1⟩, 14⟩ 4,
      .literalStruct [⟨⟨1⟩, 13⟩, ⟨⟨1⟩, 15⟩] true,
      .createStructWithBody (some "node") [⟨⟨1⟩, 16⟩] false] (.initial ⟨1⟩) = some c ∧
    (c.types.display ⟨⟨1⟩, 16⟩ =
        "<\x7b i32 (i8*, ...)*, [4 x i8 addrspace(3)*] \x7d>" ∧
      (c.types.data? ⟨⟨1⟩, 16⟩).isSome = true ∧
      ∀ d ∈ c.types.types.toList.take 17, d.isNominal = false) ∧
    c.types.Structural ⟨⟨1⟩, 16⟩ ∧ ∀ b, c.types.Structural b →
      c.types.display b = c.types.display ⟨⟨1⟩, 16⟩ → b = ⟨⟨1⟩, 16⟩ := by
  refine exists_replay _ _ (by decide +kernel) fun c hc hP => ?_
  obtain ⟨-, has, before⟩ := hP
  have hc : c.Reachable := hc.mono fun _ _ _ => trivial
  have structural := hc.ordered.structural (Option.isSome_iff_exists.1 has) before
  exact ⟨structural, fun b hb same => Reachable.display_unambiguous hc hb structural same⟩

end Context

end SsaGraph
