import JobTrace.Dict

/-!
Trees of lists and maps over scalars.

A JSON text passes through several forms that have the same branching and differ only in their
scalars: literals as they are spelt, decoded strings and numbers, field values.  All of them are
one type, parametrised by strings and numbers, so that branching is treated once.

A map may hold a key more than once, as a text may.  `normalize` resolves that, the last member
of a key winning, and sorts the keys; a tree is `Canonical` when it has nothing left to resolve.
Canonical trees are what the rest of the library computes with.
-/

namespace JobTrace

/-- A tree of lists and maps over strings and numbers. -/
inductive Tree (σ ν : Type) where
  | null
  | bool (b : Bool)
  | number (n : ν)
  | string (s : σ)
  | list (items : List (Tree σ ν))
  | map (members : List (σ × Tree σ ν))

namespace Tree

variable {σ ν σ' ν' : Type}

instance : Inhabited (Tree σ ν) := ⟨null⟩

/-! ### Depth -/

mutual

/-- How many lists and maps enclose the innermost value, the outermost counted. -/
def depth : Tree σ ν → Nat
  | list ts => depthItems ts + 1
  | map ms => depthMembers ms + 1
  | null | bool _ | number _ | string _ => 0

def depthItems : List (Tree σ ν) → Nat
  | [] => 0
  | t :: ts => max (depth t) (depthItems ts)

def depthMembers : List (σ × Tree σ ν) → Nat
  | [] => 0
  | (_, t) :: ms => max (depth t) (depthMembers ms)

end

/-! ### The scalars -/

mutual

def strings : Tree σ ν → List σ
  | string s => [s]
  | list ts => stringsItems ts
  | map ms => stringsMembers ms
  | null | bool _ | number _ => []

def stringsItems : List (Tree σ ν) → List σ
  | [] => []
  | t :: ts => strings t ++ stringsItems ts

def stringsMembers : List (σ × Tree σ ν) → List σ
  | [] => []
  | (k, t) :: ms => k :: strings t ++ stringsMembers ms

end

mutual

def numbers : Tree σ ν → List ν
  | number n => [n]
  | list ts => numbersItems ts
  | map ms => numbersMembers ms
  | null | bool _ | string _ => []

def numbersItems : List (Tree σ ν) → List ν
  | [] => []
  | t :: ts => numbers t ++ numbersItems ts

def numbersMembers : List (σ × Tree σ ν) → List ν
  | [] => []
  | (_, t) :: ms => numbers t ++ numbersMembers ms

end

theorem depthMembers_le_iff {ms : List (σ × Tree σ ν)} {n : Nat} :
    depthMembers ms ≤ n ↔ ∀ e ∈ ms, e.2.depth ≤ n := by
  induction ms with
  | nil => simp [depthMembers]
  | cons e ms ih =>
    rw [depthMembers, Nat.max_le, List.forall_mem_cons, ih]

theorem mem_numbersMembers {ms : List (σ × Tree σ ν)} {n : ν} :
    n ∈ numbersMembers ms ↔ ∃ e ∈ ms, n ∈ e.2.numbers := by
  induction ms with
  | nil => simp [numbersMembers]
  | cons e ms ih =>
    obtain ⟨k, t⟩ := e
    simp [numbersMembers, ih]

/-! ### Changing the scalars -/

mutual

def mapScalars (f : σ → σ') (g : ν → ν') : Tree σ ν → Tree σ' ν'
  | null => null
  | bool b => bool b
  | number n => number (g n)
  | string s => string (f s)
  | list ts => list (mapItems f g ts)
  | map ms => map (mapMembers f g ms)

def mapItems (f : σ → σ') (g : ν → ν') : List (Tree σ ν) → List (Tree σ' ν')
  | [] => []
  | t :: ts => mapScalars f g t :: mapItems f g ts

def mapMembers (f : σ → σ') (g : ν → ν') : List (σ × Tree σ ν) → List (σ' × Tree σ' ν')
  | [] => []
  | (k, t) :: ms => (f k, mapScalars f g t) :: mapMembers f g ms

end

mutual

/-- Replace every string and every number where all of them have a replacement and the tree is
    at most `depth` deep. -/
def interpret? (f : σ → Option σ') (g : ν → Option ν') :
    (depth : Nat) → Tree σ ν → Option (Tree σ' ν')
  | _, null => some null
  | _, bool b => some (bool b)
  | _, number n => (g n).map number
  | _, string s => (f s).map string
  | 0, list _ => none
  | d + 1, list ts => (interpretItems? f g d ts).map list
  | 0, map _ => none
  | d + 1, map ms => (interpretMembers? f g d ms).map map

def interpretItems? (f : σ → Option σ') (g : ν → Option ν') (depth : Nat) :
    List (Tree σ ν) → Option (List (Tree σ' ν'))
  | [] => some []
  | t :: ts =>
    match interpret? f g depth t with
    | none => none
    | some t' => (interpretItems? f g depth ts).map (t' :: ·)

def interpretMembers? (f : σ → Option σ') (g : ν → Option ν') (depth : Nat) :
    List (σ × Tree σ ν) → Option (List (σ' × Tree σ' ν'))
  | [] => some []
  | (k, t) :: ms =>
    match f k, interpret? f g depth t with
    | some k', some t' => (interpretMembers? f g depth ms).map ((k', t') :: ·)
    | _, _ => none

end

/-! ### Canonical trees -/

mutual

/-- In every map the keys ascend strictly. -/
def Canonical : Tree String ν → Prop
  | list ts => CanonicalItems ts
  | map ms => Entries.Ascending ms ∧ CanonicalMembers ms
  | null | bool _ | number _ | string _ => True

def CanonicalItems : List (Tree String ν) → Prop
  | [] => True
  | t :: ts => Canonical t ∧ CanonicalItems ts

def CanonicalMembers : List (String × Tree String ν) → Prop
  | [] => True
  | (_, t) :: ms => Canonical t ∧ CanonicalMembers ms

end

theorem canonicalMembers_iff {ms : List (String × Tree String ν)} :
    CanonicalMembers ms ↔ ∀ e ∈ ms, e.2.Canonical := by
  induction ms with
  | nil => simp [CanonicalMembers]
  | cons e ms ih => obtain ⟨k, t⟩ := e; simp [CanonicalMembers, ih]

mutual

/-- Sort the members of every map, the last member of a key winning. -/
def normalize : Tree String ν → Tree String ν
  | list ts => list (normalizeItems ts)
  | map ms => map (Entries.sort (normalizeMembers ms))
  | null => null
  | bool b => bool b
  | number n => number n
  | string s => string s

def normalizeItems : List (Tree String ν) → List (Tree String ν)
  | [] => []
  | t :: ts => normalize t :: normalizeItems ts

def normalizeMembers : List (String × Tree String ν) → List (String × Tree String ν)
  | [] => []
  | (k, t) :: ms => (k, normalize t) :: normalizeMembers ms

end

theorem mem_of_mem_insertAll {α : Type} {e : String × α} :
    ∀ {added entries : List (String × α)}, e ∈ Entries.insertAll added entries →
      e ∈ added ∨ e ∈ entries
  | [], _, h => Or.inr h
  | a :: added, entries, h => by
    have h' : e ∈ Entries.insertAll added (Entries.insert a.1 a.2 entries) := h
    rcases mem_of_mem_insertAll h' with h | h
    · exact Or.inl (List.mem_cons_of_mem _ h)
    · rcases Entries.mem_insert h with h | h
      · exact Or.inl (h ▸ List.mem_cons_self ..)
      · exact Or.inr h

mutual

theorem canonical_normalize : ∀ t : Tree String ν, (normalize t).Canonical
  | null | bool _ | number _ | string _ => by simp [normalize, Canonical]
  | list ts => by simpa [normalize, Canonical] using canonical_normalizeItems ts
  | map ms => by
    simp only [normalize, Canonical]
    refine ⟨Entries.ascending_sort _, canonicalMembers_iff.2 fun e he => ?_⟩
    rcases mem_of_mem_insertAll he with h | h
    · exact canonicalMembers_iff.1 (canonical_normalizeMembers ms) e h
    · simp at h

theorem canonical_normalizeItems : ∀ ts : List (Tree String ν),
    CanonicalItems (normalizeItems ts)
  | [] => by simp [normalizeItems, CanonicalItems]
  | t :: ts => by
    simpa [normalizeItems, CanonicalItems] using
      ⟨canonical_normalize t, canonical_normalizeItems ts⟩

theorem canonical_normalizeMembers : ∀ ms : List (String × Tree String ν),
    CanonicalMembers (normalizeMembers ms)
  | [] => by simp [normalizeMembers, CanonicalMembers]
  | (k, t) :: ms => by
    simpa [normalizeMembers, CanonicalMembers] using
      ⟨canonical_normalize t, canonical_normalizeMembers ms⟩

end

mutual

theorem normalize_eq_self : ∀ {t : Tree String ν}, t.Canonical → normalize t = t
  | null, _ | bool _, _ | number _, _ | string _, _ => by simp [normalize]
  | list ts, h => by
    simp only [Canonical] at h
    rw [normalize, normalizeItems_eq_self h]
  | map ms, h => by
    simp only [Canonical] at h
    rw [normalize, normalizeMembers_eq_self h.2, Entries.sort_eq_self h.1]

theorem normalizeItems_eq_self : ∀ {ts : List (Tree String ν)}, CanonicalItems ts →
    normalizeItems ts = ts
  | [], _ => rfl
  | t :: ts, h => by
    simp only [CanonicalItems] at h
    rw [normalizeItems, normalize_eq_self h.1, normalizeItems_eq_self h.2]

theorem normalizeMembers_eq_self : ∀ {ms : List (String × Tree String ν)},
    CanonicalMembers ms → normalizeMembers ms = ms
  | [], _ => rfl
  | (k, t) :: ms, h => by
    simp only [CanonicalMembers] at h
    rw [normalizeMembers, normalize_eq_self h.1, normalizeMembers_eq_self h.2]

end

theorem mapMembers_eq_map (g : ν → ν') (ms : List (String × Tree String ν)) :
    mapMembers id g ms = ms.map fun e => (e.1, mapScalars id g e.2) := by
  induction ms with
  | nil => rfl
  | cons e ms ih => obtain ⟨k, t⟩ := e; simp [mapMembers, ih]

mutual

/-- Changing the numbers leaves the order of keys alone. -/
theorem canonical_mapScalars (g : ν → ν') : ∀ {t : Tree String ν}, t.Canonical →
    (t.mapScalars id g).Canonical
  | null, _ | bool _, _ | number _, _ | string _, _ => by simp [mapScalars, Canonical]
  | list ts, h => by
    simp only [Canonical, mapScalars] at h ⊢
    exact canonicalItems_mapItems g h
  | map ms, h => by
    simp only [Canonical, mapScalars] at h ⊢
    refine ⟨?_, canonicalMembers_mapMembers g h.2⟩
    rw [mapMembers_eq_map]
    exact List.pairwise_map.2 h.1

theorem canonicalItems_mapItems (g : ν → ν') : ∀ {ts : List (Tree String ν)},
    CanonicalItems ts → CanonicalItems (mapItems id g ts)
  | [], _ => by simp [mapItems, CanonicalItems]
  | t :: ts, h => by
    simp only [CanonicalItems, mapItems] at h ⊢
    exact ⟨canonical_mapScalars g h.1, canonicalItems_mapItems g h.2⟩

theorem canonicalMembers_mapMembers (g : ν → ν') : ∀ {ms : List (String × Tree String ν)},
    CanonicalMembers ms → CanonicalMembers (mapMembers id g ms)
  | [], _ => by simp [mapMembers, CanonicalMembers]
  | (k, t) :: ms, h => by
    simp only [CanonicalMembers, mapMembers] at h ⊢
    exact ⟨canonical_mapScalars g h.1, canonicalMembers_mapMembers g h.2⟩

end

end Tree

end JobTrace
