import JobTrace.Json.Document

/-!
JSON values.

A value is a tree in canonical form: keys ascend, so equal values are equal trees and are printed
alike.  The canonical form is part of the type.

A text becomes a value in two steps.  `Document.content?` gives the literals their meaning, where
each of them has one, and limits the depth; what it returns still holds repeated keys.
`Value.ofTree` then resolves them.
-/

namespace JobTrace

/-- A number of a JSON text: an integer as long as it fits sixty-four bits, else a double. -/
inductive JsonNumber where
  | int (n : Int64)
  /-- An integer beyond the signed range. -/
  | unsigned (n : UInt64)
  | float (x : Binary64)
deriving DecidableEq

/-- Numbers that have a spelling. -/
class Spelt (ν : Type) where
  /-- The spelling. -/
  numeral : ν → Numeral

namespace JsonNumber

/-- The number of a numeral.  A numeral with a point or an exponent is a double, and so is the
    negative zero; a double beyond the range does not exist. -/
def ofNumeral? (n : Numeral) : Option JsonNumber :=
  let float := n.toBinary64?.map JsonNumber.float
  let magnitude := n.coefficient
  if n.isWhole then
    if n.negative then
      if 0 < magnitude ∧ magnitude ≤ Nat.pow 2 63 then some (.int (Int64.ofInt (-magnitude)))
      else float
    else if magnitude < Nat.pow 2 63 then some (.int (Int64.ofInt magnitude))
    else if magnitude < Nat.pow 2 64 then some (.unsigned (UInt64.ofNat magnitude))
    else float
  else float

def numeral : JsonNumber → Numeral
  | int n => Numeral.ofInt n.toInt
  | unsigned n => Numeral.ofInt n.toNat
  | float x => Layout.json.numeral x

instance : Spelt JsonNumber := ⟨numeral⟩

/-- The number as a signed integer: a double without its fraction, and beyond the range the
    nearest end of it. -/
def toInt64 : JsonNumber → Int64
  | int n => n
  | unsigned n => (Binary64.ofUInt64 n).toInt64
  | float x => x.toInt64

/-- A 64-bit integer is read back from its spelling. -/
theorem ofNumeral?_numeral_int (n : Int64) : ofNumeral? (numeral (int n)) = some (int n) := by
  have hlo := Int64.le_toInt n
  have hhi := Int64.toInt_lt n
  have hlimit : Nat.pow 2 63 = 9223372036854775808 := rfl
  have hcoef : (Numeral.ofInt n.toInt).coefficient = n.toInt.natAbs := by
    simp [Numeral.coefficient, Numeral.ofInt, Digits.toNat_ofNat]
  have hback : Int64.ofInt n.toInt = n := Int64.ofInt_toInt n
  have hwhole : (Numeral.ofInt n.toInt).isWhole = true := rfl
  have hneg : (Numeral.ofInt n.toInt).negative = decide (n.toInt < 0) := rfl
  simp only [numeral, ofNumeral?, hcoef, hwhole, hneg, if_true]
  by_cases h : n.toInt < 0
  · have h1 : 0 < n.toInt.natAbs ∧ n.toInt.natAbs ≤ Nat.pow 2 63 := by omega
    have h2 : -(n.toInt.natAbs : Int) = n.toInt := by omega
    rw [if_pos (by simpa using h), if_pos h1, h2, hback]
  · have h1 : n.toInt.natAbs < Nat.pow 2 63 := by omega
    have h2 : (n.toInt.natAbs : Int) = n.toInt := by omega
    rw [if_neg (by simpa using h), if_pos h1, h2, hback]

end JsonNumber

/-! ### From documents to contents -/

/-- A tree of decoded strings and numbers, in which keys may be repeated. -/
abbrev Content := Tree String JsonNumber

/-- How many lists and maps may enclose a value. -/
def maxDepth : Nat := 127

/-- The content of a document of limited depth, if every string and number in it has a
    meaning. -/
def Document.content? (depth : Nat) (d : Document) : Option Content :=
  d.interpret? StringLiteral.value? JsonNumber.ofNumeral? depth

def Content.ofText? (s : String) : Option Content :=
  (Document.ofText? s).bind (Document.content? maxDepth)

def Tree.document {ν : Type} [Spelt ν] (t : Tree String ν) : Document :=
  t.mapScalars StringLiteral.quote Spelt.numeral

def Tree.text {ν : Type} [Spelt ν] (t : Tree String ν) : String := t.document.text

/-! ### Values -/

/-- A tree in canonical form. -/
@[ext]
structure Value (ν : Type) where
  tree : Tree String ν
  canonical : tree.Canonical

theorem Tree.ascending_of_canonical_map {ν : Type} {ms : List (String × Tree String ν)}
    (h : (Tree.map ms).Canonical) : Entries.Ascending ms := by
  simp only [Tree.Canonical] at h
  exact h.1

theorem Tree.canonical_of_mem_map {ν : Type} {ms : List (String × Tree String ν)}
    (h : (Tree.map ms).Canonical) : ∀ e ∈ ms, e.2.Canonical := by
  simp only [Tree.Canonical] at h
  exact Tree.canonicalMembers_iff.1 h.2

namespace Value

variable {ν ν' : Type}

instance : Inhabited (Value ν) := ⟨⟨.null, by simp [Tree.Canonical]⟩⟩

/-- The value of a tree: keys sorted, the last member of a key winning. -/
def ofTree (t : Tree String ν) : Value ν := ⟨t.normalize, t.canonical_normalize⟩

def ofBool (b : Bool) : Value ν := ⟨.bool b, by simp [Tree.Canonical]⟩

def ofNumber (n : ν) : Value ν := ⟨.number n, by simp [Tree.Canonical]⟩

def ofString (s : String) : Value ν := ⟨.string s, by simp [Tree.Canonical]⟩

/-- The value of a dictionary: a map with the same entries. -/
def ofDict (d : Dict (Value ν)) : Value ν :=
  ⟨.map (d.entries.map fun e => (e.1, e.2.tree)), by
    simp only [Tree.Canonical, Tree.canonicalMembers_iff, List.mem_map]
    refine ⟨List.pairwise_map.2 d.ascending, ?_⟩
    rintro e ⟨e', _, rfl⟩
    exact e'.2.canonical⟩

/-- The dictionary of a map; other values have none. -/
def toDict? : Value ν → Option (Dict (Value ν))
  | ⟨.map ms, h⟩ =>
    some ⟨ms.pmap (fun e he => (e.1, ⟨e.2, he⟩)) (Tree.canonical_of_mem_map h),
      (Tree.ascending_of_canonical_map h).pmap _ fun _ _ _ _ hab => hab⟩
  | _ => none

@[simp] theorem toDict?_ofDict (d : Dict (Value ν)) : (ofDict d).toDict? = some d := by
  obtain ⟨entries, h⟩ := d
  simp only [ofDict, toDict?, List.pmap_map, Option.some.injEq, Dict.mk.injEq]
  exact (List.pmap_eq_map (f := fun e => e) ..).trans (List.map_id _)

theorem depth_ofDict_le {d : Dict (Value ν)} {n : Nat}
    (h : ∀ e ∈ d.entries, e.2.tree.depth ≤ n) : (ofDict d).tree.depth ≤ n + 1 := by
  simp only [ofDict, Tree.depth]
  refine Nat.succ_le_succ (Tree.depthMembers_le_iff.2 fun e he => ?_)
  obtain ⟨e', he', rfl⟩ := List.mem_map.1 he
  exact h e' he'

theorem exists_of_mem_numbers_ofDict {d : Dict (Value ν)} {n : ν}
    (h : n ∈ (ofDict d).tree.numbers) : ∃ e ∈ d.entries, n ∈ e.2.tree.numbers := by
  simp only [ofDict, Tree.numbers, Tree.mem_numbersMembers] at h
  obtain ⟨e, he, hn⟩ := h
  obtain ⟨e', he', rfl⟩ := List.mem_map.1 he
  exact ⟨e', he', hn⟩

def mapNumbers (v : Value ν) (f : ν → ν') : Value ν' :=
  ⟨v.tree.mapScalars id f, Tree.canonical_mapScalars f v.canonical⟩

/-- The compact text of a value, keys in ascending order. -/
def text [Spelt ν] (v : Value ν) : String := v.tree.text

end Value

abbrev Json := Value JsonNumber

/-- A value whose text tells exactly what it is, also as a part of another value: its numbers are
    64-bit integers, and there is room for one more list or map around it. -/
structure Json.Plain (v : Json) : Prop where
  depth_lt : v.tree.depth < maxDepth
  int_of_mem : ∀ n ∈ v.tree.numbers, ∃ i, n = .int i

def Json.ofText? (s : String) : Option Json := (Content.ofText? s).map Value.ofTree

end JobTrace
