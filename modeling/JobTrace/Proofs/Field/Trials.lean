import JobTrace.Field.Trial
import JobTrace.Proofs.Json.Bounds
import JobTrace.Proofs.Json.Members

/-!
# Trying the kinds in order finds the kind

A field value is made of a content in two ways.  The direct one resolves repeated keys, sorts, and
then changes the numbers.  The other one tries one kind after another and does so again for every
part; repeated keys are met only when the parts of a map have been decoded.  Both lead to the same
value, whatever a text holds.

The kinds do not exclude each other: a double may be made of any number.  So it matters that the
integers are tried first, and that an integer is unsigned only where no signed one has room for it.
A text has no other numbers (`Document.sized_of_content?`), a content made by hand might.
-/

namespace JobTrace

namespace FieldValue

namespace Trial

/-- A number is found among the integers or, if it is none of them, among the doubles. -/
theorem draft?_number {n : JsonNumber} (h : n.Sized) :
    draft? (.number n) = some (.number (Number.ofJson n)) := by
  cases n with
  | int n => rfl
  | float x => rfl
  | unsigned n =>
    have hbeyond : ¬ n.toNat < Nat.pow 2 63 := Nat.not_lt.2 h
    have hint : asInt (.number (.unsigned n)) = none := if_neg hbeyond
    simp only [draft?, firstKind, hint]
    rfl

mutual

/-- What the trials find is what resolving the keys and changing the numbers makes. -/
theorem draft?_eq_some : ∀ {c : Content}, (∀ n ∈ c.numbers, n.Sized) →
    draft? c = some (c.normalize.mapScalars id Number.ofJson)
  | .null, _ => rfl
  | .bool b, _ => rfl
  | .number n, h => draft?_number (h n (by simp [Tree.numbers]))
  | .string s, _ => rfl
  | .list ts, h => by
    simp only [Tree.numbers] at h
    have hlist : draft? (.list ts) = (draftItems? ts).map .list := by
      rw [draft?]
      cases draftItems? ts <;> rfl
    rw [hlist, draftItems?_eq_some h, Tree.normalize, Tree.mapScalars, Option.map_some]
  | .map ms, h => by
    simp only [Tree.numbers] at h
    have hmap : draft? (.map ms) = (draftMembers? ms).map collect := by
      rw [draft?]
      cases draftMembers? ms <;> rfl
    rw [hmap, draftMembers?_eq_some h, Tree.normalize, Tree.mapScalars, Option.map_some, collect,
      Tree.mapMembers_eq_map, Tree.mapMembers_eq_map, Entries.sort_map]

theorem draftItems?_eq_some : ∀ {ts : List Content}, (∀ n ∈ Tree.numbersItems ts, n.Sized) →
    draftItems? ts = some (Tree.mapItems id Number.ofJson (Tree.normalizeItems ts))
  | [], _ => rfl
  | t :: ts, h => by
    rw [Tree.numbersItems, List.forall_mem_append] at h
    simp only [draftItems?, draft?_eq_some h.1, draftItems?_eq_some h.2]
    rfl

theorem draftMembers?_eq_some : ∀ {ms : List (String × Content)},
    (∀ n ∈ Tree.numbersMembers ms, n.Sized) →
      draftMembers? ms = some (Tree.mapMembers id Number.ofJson (Tree.normalizeMembers ms))
  | [], _ => rfl
  | (k, t) :: ms, h => by
    rw [Tree.numbersMembers, List.forall_mem_append] at h
    simp only [draftMembers?, draft?_eq_some h.1, draftMembers?_eq_some h.2]
    rfl

end

end Trial

theorem byTrial?_eq_some_iff {c : Content} {v : FieldValue} :
    byTrial? c = some v ↔ Trial.draft? c = some v.tree := by
  unfold byTrial?
  split
  · next d hd =>
    constructor
    · intro h
      obtain rfl := Option.some.inj h
      exact hd
    · intro h
      exact congrArg some (Value.ext (Option.some.inj (hd.symm.trans h)))
  · next hd =>
    constructor
    · intro h
      exact absurd h (by simp)
    · intro h
      exact absurd (hd.symm.trans h) (by simp)

/-- The trials never refuse a content that a text may have, and find its direct value. -/
theorem byTrial?_eq_ofJson {c : Content} (h : ∀ n ∈ c.numbers, n.Sized) :
    byTrial? c = some (ofJson (Value.ofTree c)) :=
  byTrial?_eq_some_iff.2 (Trial.draft?_eq_some h)

/-- An empty list that replaces a null, and a zero with a sign. -/
example :
    (byTrial? (.list [.map [("a", .null), ("a", .list [])], .number (.float (.zero true))])).map
        Value.tree =
      some (.list [.map [("a", .list [])], .number (.float (.zero true))]) := rfl

/-- Decoding by trial and direct decoding give the same field value of every document that a reader
    admits, also where the document is a part of a larger one.  So they give the same of every text,
    or neither of them gives any; and they give none only if the text is badly spelt, nested too
    deeply or has a part without a meaning, so no kind of value is left out. -/
theorem trial_agrees_with_conversion :
    (∀ (depth : Nat) (d : Document), (d.content? depth).bind byTrial? =
      (d.content? depth).map fun c => ofJson (Value.ofTree c)) ∧
    ∀ s : String, (Content.ofText? s).bind byTrial? = ofText? s ∧
      ((Content.ofText? s).bind byTrial? = none ↔ Content.ofText? s = none) := by
  have hagree : ∀ (depth : Nat) (d : Document), (d.content? depth).bind byTrial? =
      (d.content? depth).map fun c => ofJson (Value.ofTree c) := by
    intro depth d
    cases hcontent : d.content? depth with
    | none => rfl
    | some c => exact byTrial?_eq_ofJson (Document.sized_of_content? hcontent)
  have htext : ∀ s : String, (Content.ofText? s).bind byTrial? = ofText? s := by
    intro s
    unfold ofText? Json.ofText? Content.ofText?
    cases Document.ofText? s with
    | none => rfl
    | some d =>
      rw [Option.bind_some, hagree, Option.map_map]
      rfl
  refine ⟨hagree, ?_⟩
  intro s
  refine ⟨htext s, ?_⟩
  rw [htext, ofText?, Json.ofText?, Option.map_eq_none_iff, Option.map_eq_none_iff]

end FieldValue

end JobTrace
