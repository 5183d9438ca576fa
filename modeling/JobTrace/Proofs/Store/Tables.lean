import Mathlib
import JobTrace.Proofs.Store.Loading

/-!
# The text of a store shows its contents and nothing else

A store may be kept in a hash table.  Where an entry lies there depends on what was written before
it, what was deleted, when the table grew, and on the hash function; the text goes through the
entries as they lie.  `Table` leaves all of that open: every action may put the entries into any
order it likes.

Still the text is that of the sorted store.  One step shows that an action on a table does what it
does to the store that the table holds (`Holds.step`), and the entries of a table are collected by
key before they are written, so only look-ups count (`Table.Holds.text_eq`).  Two histories that end
with the same contents then end with the same text, in which every key stands once and in its place,
inside the values as well.
-/

namespace JobTrace

/-! ### Entries in any order -/

namespace Entries

variable {α : Type}

theorem mem_keys_iff {key : String} {entries : List (String × α)} :
    key ∈ entries.map (·.1) ↔ (find? key entries).isSome = true := by
  induction entries with
  | nil => simp [find?]
  | cons e entries ih =>
    by_cases hk : e.1 = key
    · simp [find?, hk]
    · rw [List.map_cons, List.mem_cons, ih]
      simp [find?, hk, Ne.symm hk]

theorem nodup_keys_of_ascending {entries : List (String × α)} (h : Ascending entries) :
    (entries.map (·.1)).Nodup :=
  List.pairwise_map.2 (h.imp fun hlt => ne_of_lt hlt)

/-- Without repeated keys the order of entries does not count. -/
theorem find?_of_perm {entries entries' : List (String × α)} (h : entries.Perm entries')
    (hnodup : (entries.map (·.1)).Nodup) (key : String) :
    find? key entries = find? key entries' := by
  have hnodup' : (entries'.map (·.1)).Nodup := (h.map (·.1)).nodup_iff.1 hnodup
  apply Option.ext
  intro v
  constructor
  · intro hfind
    exact find?_of_mem hnodup' (h.mem_iff.1 (mem_of_find? hfind))
  · intro hfind
    exact find?_of_mem hnodup (h.mem_iff.2 (mem_of_find? hfind))

/-- Where keys ascend, each of them occurs once. -/
theorem count_keys {entries : List (String × α)} (h : Ascending entries) (key : String) :
    (entries.map (·.1)).count key = if (find? key entries).isSome then 1 else 0 := by
  rw [(nodup_keys_of_ascending h).count]
  simp only [mem_keys_iff]

end Entries

/-! ### Actions -/

/-- What may be done to a store between two looks at its text. -/
inductive StoreAction (α : Type) where
  | write (key : String) (value : α)
  | delete (key : String)
  | clearDirty
  | load (path : Path) (fs : Files)

namespace Store

variable {α : Type} [Storable α]

/-- The store after an action.  A load that fails is no action. -/
def act? (s : Store α) : StoreAction α → Option (Store α)
  | .write key value => some (s.write key value)
  | .delete key => some (s.delete key)
  | .clearDirty => some s.clearDirty
  | .load path fs =>
    match s.load path fs with
    | (.ok _, loaded) => some loaded
    | (.error _, _) => none

def actAll? (s : Store α) (actions : List (StoreAction α)) : Option (Store α) :=
  actions.foldlM act? s

theorem exists_of_act?_load {path : Path} {fs : Files} {s s' : Store α}
    (h : s.act? (.load path fs) = some s') :
    ∃ text contents, fs.read path = .ok text ∧
      (decode path text : Except SnapshotError (Dict α)) = .ok contents := by
  unfold act? load at h
  cases hread : fs.read path with
  | error cause => simp [hread] at h
  | ok text =>
    cases hdecode : (decode path text : Except SnapshotError (Dict α)) with
    | error e => simp [hread, hdecode] at h
    | ok contents => exact ⟨text, contents, rfl, hdecode⟩

theorem act?_load {path : Path} {fs : Files} {text : String} {contents : Dict α} (s : Store α)
    (hread : fs.read path = .ok text) (hdecode : decode path text = .ok contents) :
    s.act? (.load path fs) = some ⟨contents, false⟩ := by
  simp only [act?, load_of_read s hread hdecode]

end Store

/-! ### Tables -/

/-- The entries of a store in the order in which they happen to lie. -/
structure Table (α : Type) where
  entries : List (String × α)
  /-- No key has two entries. -/
  nodup_keys : (entries.map (·.1)).Nodup
  dirty : Bool

namespace Table

variable {α : Type}

def get? (t : Table α) (key : String) : Option α := Entries.find? key t.entries

/-- The table holds what the store holds. -/
structure Holds (t : Table α) (s : Store α) : Prop where
  get?_eq : ∀ key, t.get? key = s.read key
  dirty_eq : t.dirty = s.dirty

theorem get?_of_perm {t : Table α} {entries : List (String × α)} (h : t.entries.Perm entries)
    (key : String) : t.get? key = Entries.find? key entries :=
  Entries.find?_of_perm h t.nodup_keys key

variable [Storable α]

/-- The text of a table: its entries, as they lie, are put into an object one after another. -/
def text (t : Table α) : String :=
  (Value.ofDict (Dict.ofList (t.entries.map fun e => (e.1, Storable.toJson e.2)))).text

/-- An action on a table.  It says which entries there are afterwards, not in which order. -/
inductive Step (t t' : Table α) : StoreAction α → Prop
  | write (key : String) (value : α)
      (entries : t'.entries.Perm ((key, value) :: Entries.erase key t.entries))
      (dirty : t'.dirty = true) : Step t t' (.write key value)
  | delete (key : String) (entries : t'.entries.Perm (Entries.erase key t.entries))
      (dirty : t'.dirty = true) : Step t t' (.delete key)
  | clearDirty (entries : t'.entries.Perm t.entries) (dirty : t'.dirty = false) :
      Step t t' .clearDirty
  | load (path : Path) (fs : Files) (text : String) (contents : Dict α)
      (read : fs.read path = .ok text) (decoded : Store.decode path text = .ok contents)
      (entries : t'.entries.Perm contents.entries) (dirty : t'.dirty = false) :
      Step t t' (.load path fs)

/-- Any number of actions, one after another. -/
inductive Run : Table α → List (StoreAction α) → Table α → Prop
  | nil (t : Table α) : Run t [] t
  | cons {t t' t'' : Table α} {action : StoreAction α} {actions : List (StoreAction α)}
      (first : Step t t' action) (rest : Run t' actions t'') : Run t (action :: actions) t''

/-- An action does to a table what it does to the store that the table holds. -/
theorem Holds.step {t t' : Table α} {s : Store α} {action : StoreAction α} (h : t.Holds s)
    (hstep : Step t t' action) : ∃ s', s.act? action = some s' ∧ t'.Holds s' := by
  cases hstep with
  | write key value entries dirty =>
    refine ⟨s.write key value, rfl, ?_, dirty⟩
    intro k
    rw [get?_of_perm entries, Store.read_write, Entries.find?, Entries.find?_erase, ← h.get?_eq]
    by_cases hk : key = k
    · rw [if_pos hk, if_pos hk]
    · rw [if_neg hk, if_neg hk, if_neg hk]
      rfl
  | delete key entries dirty =>
    refine ⟨s.delete key, rfl, ?_, dirty⟩
    intro k
    rw [get?_of_perm entries, Store.read_delete, Entries.find?_erase, ← h.get?_eq]
    rfl
  | clearDirty entries dirty =>
    refine ⟨s.clearDirty, rfl, ?_, dirty⟩
    intro k
    rw [get?_of_perm entries, Store.read_clearDirty, ← h.get?_eq]
    rfl
  | load path fs text contents read decoded entries dirty =>
    refine ⟨⟨contents, false⟩, Store.act?_load s read decoded, ?_, dirty⟩
    intro k
    rw [get?_of_perm entries]
    rfl

/-- Whatever can be done to a store can be done to a table. -/
theorem exists_step (t : Table α) {s s' : Store α} {action : StoreAction α}
    (hact : s.act? action = some s') : ∃ t', Step t t' action := by
  have herased : ∀ key, ((Entries.erase key t.entries).map (·.1)).Nodup := fun key =>
    t.nodup_keys.sublist ((List.filter_sublist ..).map _)
  cases action with
  | write key value =>
    have hnew : key ∉ (Entries.erase key t.entries).map (·.1) := by
      rw [Entries.mem_keys_iff, Entries.find?_erase, if_pos rfl]
      simp
    exact ⟨⟨(key, value) :: Entries.erase key t.entries, List.nodup_cons.2 ⟨hnew, herased key⟩,
      true⟩, .write key value (.refl _) rfl⟩
  | delete key => exact ⟨⟨_, herased key, true⟩, .delete key (.refl _) rfl⟩
  | clearDirty => exact ⟨⟨_, t.nodup_keys, false⟩, .clearDirty (.refl _) rfl⟩
  | load path fs =>
    obtain ⟨text, contents, hread, hdecode⟩ := Store.exists_of_act?_load hact
    exact ⟨⟨_, Entries.nodup_keys_of_ascending contents.ascending, false⟩,
      .load path fs text contents hread hdecode (.refl _) rfl⟩

theorem Holds.run {t t' : Table α} {s : Store α} {actions : List (StoreAction α)}
    (h : t.Holds s) (hrun : Run t actions t') :
    ∃ s', s.actAll? actions = some s' ∧ t'.Holds s' := by
  induction hrun generalizing s with
  | nil t => exact ⟨s, rfl, h⟩
  | cons first rest ih =>
    obtain ⟨s₁, hact, h₁⟩ := h.step first
    obtain ⟨s', hall, h'⟩ := ih h₁
    refine ⟨s', ?_, h'⟩
    rw [Store.actAll?, List.foldlM_cons, hact]
    exact hall

theorem Holds.exists_run {t : Table α} {s s' : Store α} {actions : List (StoreAction α)}
    (h : t.Holds s) (hall : s.actAll? actions = some s') : ∃ t', Run t actions t' := by
  induction actions generalizing t s with
  | nil => exact ⟨t, .nil t⟩
  | cons action actions ih =>
    rw [Store.actAll?, List.foldlM_cons] at hall
    obtain ⟨s₁, hact, hrest⟩ := Option.bind_eq_some_iff.1 hall
    obtain ⟨t₁, hstep⟩ := t.exists_step hact
    obtain ⟨s₂, hact₂, h₁⟩ := h.step hstep
    obtain rfl : s₁ = s₂ := Option.some.inj (hact.symm.trans hact₂)
    obtain ⟨t', hrun⟩ := ih h₁ hrest
    exact ⟨t', .cons hstep hrun⟩

/-- A table has the text of the store that it holds. -/
theorem Holds.text_eq {t : Table α} {s : Store α} (h : t.Holds s) : t.text = s.text := by
  have hnodup : ((t.entries.map fun e => (e.1, Storable.toJson e.2)).map (·.1)).Nodup := by
    rw [List.map_map]
    exact t.nodup_keys
  have hobject : Dict.ofList (t.entries.map fun e => (e.1, Storable.toJson e.2)) =
      s.contents.mapValues Storable.toJson := by
    apply Dict.ext_get?
    intro key
    rw [Dict.get?_ofList_of_nodup hnodup, Entries.find?_map, Dict.get?_mapValues]
    exact congrArg (Option.map Storable.toJson) (h.get?_eq key)
  rw [text, hobject]
  rfl

end Table

namespace Store

variable {α : Type} [Storable α] {s s' : Store α} {actions : List (StoreAction α)}

/-- In whatever order the entries of a store lie, and wherever the actions put them, a table can
    go through the actions, and its text is this one when it has. -/
structure EndsWithText (s : Store α) (actions : List (StoreAction α)) (text : String) : Prop where
  exists_run : ∀ t : Table α, t.Holds s → ∃ t', Table.Run t actions t'
  text_eq : ∀ t t' : Table α, t.Holds s → Table.Run t actions t' → t'.text = text

theorem endsWithText_of_actAll? (h : s.actAll? actions = some s') :
    s.EndsWithText actions s'.text where
  exists_run _ hholds := hholds.exists_run h
  text_eq t t' hholds hrun := by
    obtain ⟨s₁, hall, hholds'⟩ := hholds.run hrun
    obtain rfl : s' = s₁ := Option.some.inj (h.symm.trans hall)
    exact hholds'.text_eq

/-! ### The order of the text -/

/-- The text is an object with one member for each entry of the store.  Its members, and those of
    every object inside of it, stand in ascending order of their keys. -/
structure InKeyOrder (s : Store α) (text : String) : Prop where
  exists_members : ∃ members : List (String × Content),
    Content.ofText? text = some (.map members) ∧
    (Tree.map members).Canonical ∧
    (members.map (·.1)).Pairwise (· < ·) ∧
    (∀ key, (members.map (·.1)).count key = if s.contains key then 1 else 0) ∧
    ∀ key, Entries.find? key members = (s.read key).map fun v => (Storable.toJson v).tree

theorem inKeyOrder_text (s : Store α) : s.InKeyOrder s.text := by
  have hascending : Entries.Ascending
      ((s.contents.mapValues Storable.toJson).entries.map fun e => (e.1, e.2.tree)) :=
    List.pairwise_map.2 (s.contents.mapValues Storable.toJson).ascending
  have hfind : ∀ key, Entries.find? key
      ((s.contents.mapValues Storable.toJson).entries.map fun e => (e.1, e.2.tree)) =
        (s.read key).map fun v => (Storable.toJson v).tree := by
    intro key
    rw [Entries.find?_map]
    show ((s.contents.mapValues Storable.toJson).get? key).map _ = _
    rw [Dict.get?_mapValues, Option.map_map]
    rfl
  refine ⟨_, content_ofText?_encode s.contents, (Value.ofDict _).canonical, ?_, ?_, hfind⟩
  · exact List.pairwise_map.2 hascending
  · intro key
    rw [Entries.count_keys hascending, hfind, Option.isSome_map]
    rfl

/-- Two histories of writing, deleting, clearing the flag and loading that end with the same
    contents end with one text, whatever stores they began with and however the entries came to
    lie.  It is the text of the sorted store, has each key of that store once and no other, and the
    keys in it ascend. -/
theorem text_of_same_contents {s₁ s₁' s₂ s₂' : Store α} {actions₁ actions₂ : List (StoreAction α)}
    (h₁ : s₁.actAll? actions₁ = some s₁') (h₂ : s₂.actAll? actions₂ = some s₂')
    (hsame : ∀ key, s₁'.read key = s₂'.read key) :
    ∃ text, s₁.EndsWithText actions₁ text ∧ s₂.EndsWithText actions₂ text ∧
      s₁'.text = text ∧ s₂'.text = text ∧ s₁'.InKeyOrder text := by
  have hcontents : s₁'.contents = s₂'.contents := Dict.ext_get? hsame
  have htext : s₁'.text = s₂'.text := congrArg encode hcontents
  refine ⟨s₁'.text, endsWithText_of_actAll? h₁, ?_, rfl, htext.symm, inKeyOrder_text s₁'⟩
  rw [htext]
  exact endsWithText_of_actAll? h₂

/-- A description of two properties. -/
def shortDescription : Dict String := Dict.ofList [("queue", "q"), ("app", "")]

/-- A store of one job without properties. -/
def onlyB : PropertyStore := empty.write "b" Dict.empty

/-- Descriptions of two jobs that are written one after the other, and the same contents where one
    of them comes out of a file, in place of what the store held, and a third is deleted again. -/
theorem text_of_same_contents_loaded :
    ∃ text,
      (empty : PropertyStore).EndsWithText
        [.write "b" Dict.empty, .write "a" shortDescription] text ∧
      (empty.write "c" shortDescription : PropertyStore).EndsWithText
        [.load ⟨"s"⟩ (onlyB.saveTo ⟨"s"⟩ .empty).2, .write "c" Dict.empty,
          .write "a" shortDescription, .delete "c", .clearDirty] text := by
  have hpath : Files.empty.Writable ⟨"s"⟩ :=
    Files.writable_empty (n := "s") (by cbv)
  have htemporary : Files.empty.Writable (⟨"s"⟩ : Path).temporary :=
    Files.writable_empty (n := "s.tmp") (by cbv)
  have hread : (onlyB.saveTo ⟨"s"⟩ .empty).2.read ⟨"s"⟩ = .ok onlyB.text :=
    Files.read_of_find? (Files.find?_saveSnapshot hpath htemporary _)
  have hload : ∀ s : PropertyStore,
      s.act? (.load ⟨"s"⟩ (onlyB.saveTo ⟨"s"⟩ .empty).2) = some onlyB.clearDirty := fun s =>
    act?_load s hread (decode_encode ⟨"s"⟩ onlyB.contents)
  have hwritten : (empty : PropertyStore).actAll?
      [.write "b" Dict.empty, .write "a" shortDescription] = some
        ((empty.write "b" Dict.empty).write "a" shortDescription) := rfl
  have hloaded : (empty.write "c" shortDescription : PropertyStore).actAll?
      [.load ⟨"s"⟩ (onlyB.saveTo ⟨"s"⟩ .empty).2, .write "c" Dict.empty,
        .write "a" shortDescription, .delete "c", .clearDirty] = some
          ((((onlyB.clearDirty.write "c" Dict.empty).write "a" shortDescription).delete
            "c").clearDirty) := by
    rw [actAll?, List.foldlM_cons, hload]
    rfl
  have hsame : ((empty.write "b" Dict.empty).write "a" shortDescription : PropertyStore).contents =
      ((((onlyB.clearDirty.write "c" Dict.empty).write "a" shortDescription).delete
        "c").clearDirty).contents := by decide +kernel
  obtain ⟨text, hfirst, hsecond, -⟩ := text_of_same_contents hwritten hloaded
    fun key => congrArg (Dict.get? · key) hsame
  exact ⟨text, hfirst, hsecond⟩

end Store

end JobTrace
