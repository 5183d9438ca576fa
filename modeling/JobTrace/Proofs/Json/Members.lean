import JobTrace.Json.Value

/-!
# What a map holds under a key

A text may repeat the keys of a map, a value may not.  Of several members with one key the last one
in the text counts, and the others are gone before anybody looks at the value.  So the dictionary of
a value answers for a key with the last member of that key, read as a value in its turn.
-/

namespace JobTrace

namespace Entries

variable {α : Type}

/-- The value of the last entry that has the key. -/
def last? (key : String) (entries : List (String × α)) : Option α :=
  ((entries.filter fun e => e.1 = key).getLast?).map (·.2)

theorem find?_eq_head? (key : String) (entries : List (String × α)) :
    find? key entries = ((entries.filter fun e => e.1 = key).head?).map (·.2) := by
  induction entries with
  | nil => rfl
  | cons e rest ih =>
    by_cases hk : e.1 = key
    · simp [find?, hk]
    · simp [find?, hk, ih]

theorem find?_reverse_eq_last? (key : String) (entries : List (String × α)) :
    find? key entries.reverse = last? key entries := by
  rw [find?_eq_head?, List.filter_reverse, List.head?_reverse, last?]

/-- The values of entries do not count when these are sorted. -/
theorem sort_map {β : Type} (f : α → β) (entries : List (String × α)) :
    sort (entries.map fun e => (e.1, f e.2)) = (sort entries).map fun e => (e.1, f e.2) := by
  have hmapped : Ascending ((sort entries).map fun e => (e.1, f e.2)) :=
    List.pairwise_map.2 (ascending_sort entries)
  apply ext_find? (ascending_sort _) hmapped
  intro k
  rw [find?_sort, ← List.map_reverse, find?_map, find?_map, find?_sort]

theorem mem_of_last? {key : String} {v : α} {entries : List (String × α)}
    (h : last? key entries = some v) : (key, v) ∈ entries := by
  rw [← find?_reverse_eq_last?] at h
  exact List.mem_reverse.1 (mem_of_find? h)

end Entries

variable {ν : Type}

theorem Tree.normalizeMembers_eq_map (ms : List (String × Tree String ν)) :
    Tree.normalizeMembers ms = ms.map fun e => (e.1, e.2.normalize) := by
  induction ms with
  | nil => rfl
  | cons e ms ih =>
    obtain ⟨k, t⟩ := e
    rw [Tree.normalizeMembers, ih, List.map_cons]

namespace Value

/-- The dictionary of a map has its members and no others. -/
theorem exists_toDict?_of_map {v : Value ν} {ms : List (String × Tree String ν)}
    (h : v.tree = .map ms) :
    ∃ d, v.toDict? = some d ∧ ∀ key, (d.get? key).map Value.tree = Entries.find? key ms := by
  obtain ⟨t, hcanonical⟩ := v
  subst h
  refine ⟨_, rfl, ?_⟩
  intro key
  rw [Dict.get?, ← Entries.find?_map, List.map_pmap]
  exact congrArg (Entries.find? key) ((List.pmap_eq_map ..).trans (List.map_id ms))

/-- A map is nothing but its dictionary. -/
theorem ofDict_of_toDict? {v : Value ν} {d : Dict (Value ν)} (h : v.toDict? = some d) :
    ofDict d = v := by
  obtain ⟨t, hcanonical⟩ := v
  cases t with
  | map ms =>
    obtain rfl := Option.some.inj h
    apply Value.ext
    show Tree.map _ = Tree.map ms
    rw [List.map_pmap]
    exact congrArg Tree.map ((List.pmap_eq_map ..).trans (List.map_id ms))
  | _ => exact absurd h (by simp [toDict?])

theorem toDict?_eq_none {v : Value ν} (h : ∀ ms, v.tree ≠ .map ms) : v.toDict? = none := by
  obtain ⟨t, hcanonical⟩ := v
  cases t with
  | map ms => exact absurd rfl (h ms)
  | _ => rfl

/-- Of repeated keys the last member counts. -/
theorem exists_toDict?_ofTree_map (ms : List (String × Tree String ν)) :
    ∃ d, (ofTree (.map ms)).toDict? = some d ∧
      ∀ key, d.get? key = (Entries.last? key ms).map ofTree := by
  have hsorted : (ofTree (.map ms)).tree = .map (Entries.sort (Tree.normalizeMembers ms)) := by
    simp only [ofTree, Tree.normalize]
  obtain ⟨d, hd, hget⟩ := exists_toDict?_of_map hsorted
  refine ⟨d, hd, ?_⟩
  intro key
  apply Option.map_injective (f := Value.tree) fun _ _ => Value.ext
  rw [hget, Entries.find?_sort, Tree.normalizeMembers_eq_map, ← List.map_reverse,
    Entries.find?_map, Entries.find?_reverse_eq_last?, Option.map_map]
  rfl

theorem toDict?_ofTree_eq_none {t : Tree String ν} (h : ∀ ms, t ≠ .map ms) :
    (ofTree t).toDict? = none := by
  apply toDict?_eq_none
  intro ms
  cases t with
  | map members => exact absurd rfl (h members)
  | _ => simp [ofTree, Tree.normalize]

end Value

end JobTrace
