/-!
Finite dictionaries with text keys, kept in ascending key order.

Records, topics, stores and directories are all dictionaries of this one kind, and everything
written from them is written in key order.  Keeping the entries sorted in the type makes the
order a fact about the data instead of a step before printing: two dictionaries that answer
every look-up alike are equal (`Dict.ext_get?`), so what is printed depends on the contents only.

The first part works on bare lists of entries, because the members of a JSON object are such a
list; the second part bundles a list with the proof that it ascends.
-/

namespace JobTrace

/-! ### Lists of entries -/

namespace Entries

variable {α β : Type}

/-- Keys ascend strictly, by code point; so no key occurs twice. -/
def Ascending (entries : List (String × α)) : Prop :=
  entries.Pairwise fun a b => a.1 < b.1

instance (entries : List (String × α)) : Decidable (Ascending entries) :=
  inferInstanceAs (Decidable (List.Pairwise _ _))

/-- The value of a key: the first entry that has it. -/
def find? (key : String) : List (String × α) → Option α
  | [] => none
  | (k, v) :: rest => if k = key then some v else find? key rest

/-- Put an entry at its place, replacing one that has the same key. -/
def insert (key : String) (value : α) : List (String × α) → List (String × α)
  | [] => [(key, value)]
  | (k, v) :: rest =>
    if key < k then (key, value) :: (k, v) :: rest
    else if k < key then (k, v) :: insert key value rest
    else (key, value) :: rest

def erase (key : String) (entries : List (String × α)) : List (String × α) :=
  entries.filter fun e => e.1 ≠ key

/-- Insert every entry of `added`, from left to right. -/
def insertAll (added : List (String × α)) (entries : List (String × α)) :
    List (String × α) :=
  added.foldl (fun es e => insert e.1 e.2 es) entries

/-- Sort entries by key; of several entries with one key the last one stays. -/
def sort (entries : List (String × α)) : List (String × α) :=
  insertAll entries []

theorem eq_of_not_lt {a b : String} (hab : ¬ a < b) (hba : ¬ b < a) : a = b :=
  String.le_antisymm hba hab

theorem ne_of_lt {a b : String} (h : a < b) : a ≠ b :=
  fun e => String.lt_irrefl b (e ▸ h)

theorem mem_insert {key : String} {value : α} {e : String × α} :
    ∀ {entries : List (String × α)}, e ∈ insert key value entries →
      e = (key, value) ∨ e ∈ entries
  | [], h => by simpa [insert] using h
  | (k, v) :: rest, h => by
    unfold insert at h
    split at h
    · simpa using h
    · split at h
      · rcases List.mem_cons.1 h with rfl | h
        · simp
        · rcases mem_insert h with h | h <;> simp [h]
      · rcases List.mem_cons.1 h with h | h <;> simp [h]

theorem ascending_insert (key : String) (value : α) :
    ∀ {entries : List (String × α)}, Ascending entries → Ascending (insert key value entries)
  | [], _ => by simp [insert, Ascending]
  | (k, v) :: rest, h => by
    have hk := List.pairwise_cons.1 h
    unfold insert
    split
    · next hlt =>
      refine List.pairwise_cons.2 ⟨fun e he => ?_, h⟩
      rcases List.mem_cons.1 he with rfl | he
      · exact hlt
      · exact String.lt_trans hlt (hk.1 e he)
    · split
      · next hgt =>
        refine List.pairwise_cons.2 ⟨fun e he => ?_, ascending_insert key value hk.2⟩
        rcases mem_insert he with rfl | he
        · exact hgt
        · exact hk.1 e he
      · next hge hle =>
        have hkey : key = k := eq_of_not_lt hge hle
        exact List.pairwise_cons.2 ⟨fun e he => hkey ▸ hk.1 e he, hk.2⟩

theorem ascending_erase (key : String) {entries : List (String × α)} (h : Ascending entries) :
    Ascending (erase key entries) :=
  List.Pairwise.filter _ h

theorem ascending_insertAll (added : List (String × α)) :
    ∀ {entries : List (String × α)}, Ascending entries →
      Ascending (insertAll added entries) := by
  induction added with
  | nil => exact fun h => h
  | cons e rest ih => exact fun h => ih (ascending_insert e.1 e.2 h)

theorem ascending_sort (entries : List (String × α)) : Ascending (sort entries) :=
  ascending_insertAll entries List.Pairwise.nil

/-- A dictionary answers for an inserted key with the new value and for others as before. -/
theorem find?_insert (key : String) (value : α) (k : String) :
    ∀ (entries : List (String × α)),
      find? k (insert key value entries) = if key = k then some value else find? k entries
  | [] => by simp [insert, find?]
  | (k', v) :: rest => by
    have ih := find?_insert key value k rest
    by_cases hlt : key < k'
    · simp [insert, hlt, find?]
    · by_cases hgt : k' < key
      · by_cases hk : k' = k
        · subst hk
          simp [insert, hlt, hgt, find?, (ne_of_lt hgt).symm]
        · simp [insert, hlt, hgt, find?, hk, ih]
      · have hkey : key = k' := eq_of_not_lt hlt hgt
        subst hkey
        by_cases hk : key = k <;> simp [insert, find?, hk]

theorem find?_erase (key k : String) :
    ∀ (entries : List (String × α)),
      find? k (erase key entries) = if key = k then none else find? k entries
  | [] => by simp [erase, find?]
  | (k', v) :: rest => by
    have ih := find?_erase key k rest
    unfold erase at ih ⊢
    by_cases hk' : k' = key
    · subst hk'
      rw [List.filter_cons_of_neg (by simp), ih]
      by_cases hk : k' = k <;> simp [find?, hk]
    · rw [List.filter_cons_of_pos (by simpa using hk')]
      by_cases hk : k' = k
      · subst hk
        have hne : key ≠ k' := fun e => hk' e.symm
        simp [find?, hne]
      · simp only [find?, hk, if_false, ih]

theorem find?_eq_none {k : String} :
    ∀ {entries : List (String × α)}, (∀ e ∈ entries, e.1 ≠ k) → find? k entries = none
  | [], _ => rfl
  | (k', _) :: rest, h => by
    have hk : k' ≠ k := h _ (List.mem_cons_self ..)
    simp only [find?, hk, if_false]
    exact find?_eq_none fun e he => h e (List.mem_cons_of_mem _ he)

theorem mem_of_find? {k : String} {v : α} :
    ∀ {entries : List (String × α)}, find? k entries = some v → (k, v) ∈ entries
  | [], h => by simp [find?] at h
  | (k', v') :: rest, h => by
    by_cases hk : k' = k
    · simp only [find?, hk, if_true, Option.some.injEq] at h
      simp [hk, h]
    · simp only [find?, hk, if_false] at h
      exact List.mem_cons_of_mem _ (mem_of_find? h)

/-- Without repeated keys every entry is found. -/
theorem find?_of_mem {k : String} {v : α} :
    ∀ {entries : List (String × α)}, (entries.map (·.1)).Nodup → (k, v) ∈ entries →
      find? k entries = some v
  | [], _, h => absurd h List.not_mem_nil
  | (k', v') :: rest, hnodup, h => by
    obtain ⟨hnew, hrest⟩ := List.nodup_cons.1 hnodup
    rcases List.mem_cons.1 h with h | h
    · cases h
      simp [find?]
    · have hk : k' ≠ k := by
        rintro rfl
        exact hnew (List.mem_map.2 ⟨(k', v), h, rfl⟩)
      simp only [find?, hk, if_false]
      exact find?_of_mem hrest h

/-- Sorted entries are determined by their look-ups. -/
theorem ext_find? :
    ∀ {xs ys : List (String × α)}, Ascending xs → Ascending ys →
      (∀ k, find? k xs = find? k ys) → xs = ys
  | [], [], _, _, _ => rfl
  | [], (k, v) :: _, _, _, h => by simpa [find?] using h k
  | (k, v) :: _, [], _, _, h => by simpa [find?] using h k
  | (k, v) :: xs, (k', v') :: ys, hx, hy, h => by
    have hxc := List.pairwise_cons.1 hx
    have hyc := List.pairwise_cons.1 hy
    have hle : ¬ k < k' := fun hlt => by
      have hk := h k
      simp only [find?, if_true, (ne_of_lt hlt).symm, if_false] at hk
      have hmem := mem_of_find? hk.symm
      exact String.lt_asymm hlt (hyc.1 _ hmem)
    have hge : ¬ k' < k := fun hlt => by
      have hk := h k'
      simp only [find?, if_true, (ne_of_lt hlt).symm, if_false] at hk
      have hmem := mem_of_find? hk
      exact String.lt_asymm hlt (hxc.1 _ hmem)
    have hkk : k = k' := eq_of_not_lt hle hge
    subst hkk
    have hv : v = v' := by simpa [find?] using h k
    subst hv
    congr 1
    refine ext_find? hxc.2 hyc.2 fun j => ?_
    by_cases hj : k = j
    · subst hj
      rw [find?_eq_none fun e he => (ne_of_lt (hxc.1 e he)).symm,
        find?_eq_none fun e he => (ne_of_lt (hyc.1 e he)).symm]
    · simpa [find?, hj] using h j

theorem find?_append (k : String) (xs ys : List (String × α)) :
    find? k (xs ++ ys) = (find? k xs).or (find? k ys) := by
  induction xs with
  | nil => simp [find?]
  | cons e rest ih =>
    by_cases hk : e.1 = k <;> simp [find?, hk, ih]

/-- Of several entries with one key the last one wins. -/
theorem find?_insertAll (k : String) :
    ∀ (added entries : List (String × α)),
      find? k (insertAll added entries) = (find? k added.reverse).or (find? k entries) := by
  intro added
  induction added with
  | nil => simp [insertAll, find?]
  | cons e rest ih =>
    intro entries
    have := ih (insert e.1 e.2 entries)
    unfold insertAll at this ⊢
    rw [List.foldl_cons, this, List.reverse_cons, find?_append, find?_insert]
    cases h : find? k rest.reverse with
    | some v => simp
    | none => by_cases hk : e.1 = k <;> simp [find?, hk]

theorem find?_sort (k : String) (entries : List (String × α)) :
    find? k (sort entries) = find? k entries.reverse := by
  simp [sort, find?_insertAll, find?]

/-- Without repeated keys it does not matter which entry of a key would win. -/
theorem find?_reverse {entries : List (String × α)} (h : (entries.map (·.1)).Nodup) (k : String) :
    find? k entries.reverse = find? k entries := by
  induction entries with
  | nil => rfl
  | cons e rest ih =>
    obtain ⟨hnew, hrest⟩ := List.nodup_cons.1 h
    rw [List.reverse_cons, find?_append, ih hrest]
    by_cases hk : e.1 = k
    · have hnone : find? k rest = none := by
        apply find?_eq_none
        intro e' he' hk'
        exact hnew (List.mem_map.2 ⟨e', he', hk'.trans hk.symm⟩)
      simp [find?, hk, hnone]
    · simp [find?, hk]

/-- Entries made from names, each from its name alone. -/
theorem find?_filterMap (f : String → Option α) (k : String) (names : List String) :
    find? k (names.filterMap fun name => (f name).map (name, ·)) =
      if k ∈ names then f k else none := by
  induction names with
  | nil => rfl
  | cons name names ih =>
    by_cases hk : name = k
    · subst hk
      cases hf : f name with
      | none => simp [hf, ih]
      | some v => simp [hf, find?]
    · cases hf : f name <;> simp [hf, find?, hk, Ne.symm hk, ih]

theorem find?_map (f : α → β) (k : String) (entries : List (String × α)) :
    find? k (entries.map fun e => (e.1, f e.2)) = (find? k entries).map f := by
  induction entries with
  | nil => rfl
  | cons e rest ih => by_cases hk : e.1 = k <;> simp [find?, hk, ih]

/-- Inserting behind all the keys puts the entry at the end. -/
theorem insert_last {key : String} {value : α} :
    ∀ {entries : List (String × α)}, (∀ e ∈ entries, e.1 < key) →
      insert key value entries = entries ++ [(key, value)]
  | [], _ => rfl
  | (k, v) :: rest, h => by
    have hlt : k < key := h _ (List.mem_cons_self ..)
    have ih : insert key value rest = rest ++ [(key, value)] :=
      insert_last fun e he => h e (List.mem_cons_of_mem _ he)
    simp [insert, hlt, String.lt_asymm hlt, ih]

theorem sort_eq_self {entries : List (String × α)} (h : Ascending entries) :
    sort entries = entries := by
  suffices hgen : ∀ (done rest : List (String × α)), Ascending (done ++ rest) →
      insertAll rest done = done ++ rest by
    simpa [sort] using hgen [] entries h
  intro done rest
  induction rest generalizing done with
  | nil => simp [insertAll]
  | cons e rest ih =>
    intro hs
    have hlast : insert e.1 e.2 done = done ++ [e] := insert_last fun d hd =>
      (List.pairwise_append.1 hs).2.2 d hd e (List.mem_cons_self ..)
    have := ih (done ++ [e]) (by simpa using hs)
    unfold insertAll at this ⊢
    rw [List.foldl_cons, hlast, this]
    simp

end Entries

/-! ### Dictionaries -/

/-- A finite map from text keys to values, its entries in ascending key order. -/
@[ext]
structure Dict (α : Type) where
  /-- The entries, in ascending key order. -/
  entries : List (String × α)
  /-- The order of the entries. -/
  ascending : Entries.Ascending entries
deriving DecidableEq

namespace Dict

variable {α β : Type}

def empty : Dict α := ⟨[], List.Pairwise.nil⟩

instance : Inhabited (Dict α) := ⟨empty⟩

instance : EmptyCollection (Dict α) := ⟨empty⟩

def get? (d : Dict α) (key : String) : Option α := Entries.find? key d.entries

def contains (d : Dict α) (key : String) : Bool := (d.get? key).isSome

def size (d : Dict α) : Nat := d.entries.length

def isEmpty (d : Dict α) : Bool := d.entries.isEmpty

def keys (d : Dict α) : List String := d.entries.map (·.1)

def insert (d : Dict α) (key : String) (value : α) : Dict α :=
  ⟨Entries.insert key value d.entries, Entries.ascending_insert key value d.ascending⟩

def erase (d : Dict α) (key : String) : Dict α :=
  ⟨Entries.erase key d.entries, Entries.ascending_erase key d.ascending⟩

/-- The dictionary of a list of entries, in which the last entry of a key wins. -/
def ofList (entries : List (String × α)) : Dict α :=
  ⟨Entries.sort entries, Entries.ascending_sort entries⟩

def insertAll (d added : Dict α) : Dict α :=
  ⟨Entries.insertAll added.entries d.entries, Entries.ascending_insertAll _ d.ascending⟩

def filterKeys (d : Dict α) (keep : String → Bool) : Dict α :=
  ⟨d.entries.filter fun e => keep e.1, List.Pairwise.filter _ d.ascending⟩

def mapValues (d : Dict α) (f : α → β) : Dict β :=
  ⟨d.entries.map fun e => (e.1, f e.2), by
    have h := d.ascending
    unfold Entries.Ascending at h ⊢
    exact List.pairwise_map.2 h⟩

/-- Change every value that converts and drop the others. -/
def filterMapValues (d : Dict α) (f : α → Option β) : Dict β :=
  ⟨d.entries.filterMap fun e => (f e.2).map (e.1, ·), by
    have h := d.ascending
    unfold Entries.Ascending at h ⊢
    refine List.pairwise_filterMap.2 (h.imp fun {a b} hab => ?_)
    intro a' ha b' hb
    cases hfa : f a.2 <;> simp [hfa] at ha
    cases hfb : f b.2 <;> simp [hfb] at hb
    subst ha hb
    exact hab⟩

/-- Dictionaries that answer every look-up alike are equal. -/
theorem ext_get? {c d : Dict α} (h : ∀ k, c.get? k = d.get? k) : c = d :=
  Dict.ext (Entries.ext_find? c.ascending d.ascending h)

@[simp] theorem get?_empty (k : String) : (empty : Dict α).get? k = none := rfl

theorem get?_insert (d : Dict α) (key : String) (value : α) (k : String) :
    (d.insert key value).get? k = if key = k then some value else d.get? k :=
  Entries.find?_insert key value k d.entries

theorem get?_erase (d : Dict α) (key k : String) :
    (d.erase key).get? k = if key = k then none else d.get? k :=
  Entries.find?_erase key k d.entries

theorem get?_ofList (entries : List (String × α)) (k : String) :
    (ofList entries).get? k = Entries.find? k entries.reverse :=
  Entries.find?_sort k entries

theorem get?_ofList_of_nodup {entries : List (String × α)} (h : (entries.map (·.1)).Nodup)
    (k : String) : (ofList entries).get? k = Entries.find? k entries := by
  rw [get?_ofList, Entries.find?_reverse h]

/-- The dictionary that names make by a function has no other names, and repeated names change
    nothing. -/
theorem get?_ofList_filterMap (f : String → Option α) (names : List String) (k : String) :
    (ofList (names.filterMap fun name => (f name).map (name, ·))).get? k =
      if k ∈ names then f k else none := by
  rw [get?_ofList, ← List.filterMap_reverse, Entries.find?_filterMap]
  simp only [List.mem_reverse]

theorem get?_ofList_map (f : String → α) (names : List String) (k : String) :
    (ofList (names.map fun name => (name, f name))).get? k =
      if k ∈ names then some (f k) else none := by
  rw [← get?_ofList_filterMap (fun name => some (f name)), ← List.filterMap_eq_map]
  rfl

/-- A key of `added` has its value there, any other key the value it had. -/
theorem get?_insertAll (d added : Dict α) (k : String) :
    (d.insertAll added).get? k = (added.get? k).or (d.get? k) := by
  have hrev : Entries.find? k added.entries.reverse = Entries.find? k added.entries := by
    rw [← Entries.find?_sort, Entries.sort_eq_self added.ascending]
  simp [get?, insertAll, Entries.find?_insertAll, hrev]

theorem get?_filterKeys (d : Dict α) (keep : String → Bool) (k : String) :
    (d.filterKeys keep).get? k = if keep k then d.get? k else none := by
  obtain ⟨entries, _⟩ := d
  simp only [get?, filterKeys]
  induction entries with
  | nil => simp [Entries.find?]
  | cons e rest ih =>
    have ih := ih (List.pairwise_cons.1 ‹_›).2
    by_cases he : keep e.1
    · rw [List.filter_cons_of_pos (by simpa using he)]
      by_cases hk : e.1 = k
      · subst hk; simp [Entries.find?, he]
      · simp [Entries.find?, hk, ih]
    · rw [List.filter_cons_of_neg (by simpa using he), ih]
      by_cases hk : e.1 = k
      · subst hk; simp [he]
      · simp [Entries.find?, hk]

theorem get?_mapValues (d : Dict α) (f : α → β) (k : String) :
    (d.mapValues f).get? k = (d.get? k).map f :=
  Entries.find?_map f k d.entries

theorem get?_filterMapValues (d : Dict α) (f : α → Option β) (k : String) :
    (d.filterMapValues f).get? k = (d.get? k).bind f := by
  obtain ⟨entries, hs⟩ := d
  simp only [get?, filterMapValues]
  induction entries with
  | nil => rfl
  | cons e rest ih =>
    have hc := List.pairwise_cons.1 hs
    have ih := ih hc.2
    by_cases hk : e.1 = k
    · cases hf : f e.2 with
      | some v => simp [Entries.find?, hk, hf]
      | none =>
        have hnone : Entries.find? k rest = none :=
          Entries.find?_eq_none fun e' he' => by
            have := Entries.ne_of_lt (hc.1 e' he')
            exact fun h => this (hk.trans h.symm)
        simp [Entries.find?, hk, hf, ih, hnone]
    · cases hf : f e.2 <;> simp [Entries.find?, hk, hf, ih]

end Dict

end JobTrace
