import JobTrace.Projection

/-!
# Which fields a projection keeps

A topic chooses the fields of a raw message by two lists of names.  Whether a field is kept depends
on its name alone, and on the lists only through the names that are in them: that is what each of
the two filters answers for a single name (`get?_keepFields`, `get?_dropFields`), and all that is
said of order and repetition follows from it, since a dictionary is determined by its look-ups.

The filters can also be carried out name by name, by walking along a list: the first filter takes
the entry of each name out of the record, so that a repeated name finds nothing any more, and the
second one erases each name.  That the walk ends with the same fields is the one induction over a
list here; whatever was taken out before must not be missed by the names that follow.

Routing is not told of the lists at all.
-/

namespace JobTrace

/-! ### Walking along a list of names -/

namespace Dict

variable {α : Type}

/-- The entries of the listed names, each taken out of the dictionary when its name is met. -/
def takeOut (d : Dict α) : List String → List (String × α)
  | [] => []
  | name :: names =>
    match d.get? name with
    | some v => (name, v) :: (d.erase name).takeOut names
    | none => d.takeOut names

theorem find?_reverse_takeOut (d : Dict α) (names : List String) (k : String) :
    Entries.find? k (d.takeOut names).reverse = if k ∈ names then d.get? k else none := by
  induction names generalizing d with
  | nil => rfl
  | cons name names ih =>
    cases hget : d.get? name with
    | none =>
      rw [takeOut, hget]
      simp only [ih, List.mem_cons]
      by_cases hk : k = name
      · subst hk
        simp [hget]
      · simp [hk]
    | some v =>
      rw [takeOut, hget]
      simp only [List.reverse_cons, Entries.find?_append, ih, get?_erase, List.mem_cons]
      by_cases hk : name = k
      · -- Nothing of this name is left for the names behind it.
        subst hk
        simp [hget, Entries.find?]
      · simp [hk, Ne.symm hk, Entries.find?]

theorem get?_foldl_erase (d : Dict α) (names : List String) (k : String) :
    (names.foldl Dict.erase d).get? k = if k ∈ names then none else d.get? k := by
  induction names generalizing d with
  | nil => rfl
  | cons name names ih =>
    rw [List.foldl_cons, ih, get?_erase]
    by_cases hk : name = k
    · simp [hk]
    · simp [hk, Ne.symm hk]

end Dict

/-! ### The two filters -/

theorem get?_keepFields (fields : Dict FieldValue) (names : List String) (k : String) :
    (keepFields fields names).get? k = if names = [] ∨ k ∈ names then fields.get? k else none := by
  unfold keepFields
  by_cases hall : names = []
  · simp [hall]
  · simp [hall, Dict.get?_filterKeys]

theorem get?_dropFields (fields : Dict FieldValue) (names : List String) (k : String) :
    (dropFields fields names).get? k = if k ∈ names then none else fields.get? k := by
  by_cases hk : k ∈ names <;> simp [dropFields, Dict.get?_filterKeys, hk]

/-- Keeping the listed fields is taking them out, one name after another. -/
theorem keepFields_eq_takeOut (fields : Dict FieldValue) (names : List String) :
    keepFields fields names =
      if names = [] then fields else Dict.ofList (fields.takeOut names) := by
  apply Dict.ext_get?
  intro k
  rw [get?_keepFields]
  by_cases hall : names = []
  · simp [hall]
  · simp [hall, Dict.get?_ofList, Dict.find?_reverse_takeOut]

/-- Dropping the listed fields is erasing them, one name after another. -/
theorem dropFields_eq_foldl (fields : Dict FieldValue) (names : List String) :
    dropFields fields names = names.foldl Dict.erase fields := by
  apply Dict.ext_get?
  intro k
  rw [get?_dropFields, Dict.get?_foldl_erase]

/-! ### What they keep together -/

/-- The fields whose names are in the first list, unless that is empty, and not in the second. -/
def selected (fields : Dict FieldValue) (kept dropped : List String) : Dict FieldValue :=
  dropFields (keepFields fields kept) dropped

/-- Whether a field of a given name is selected. -/
def Selects (kept dropped : List String) (name : String) : Prop :=
  (kept = [] ∨ name ∈ kept) ∧ name ∉ dropped

instance (kept dropped : List String) (name : String) : Decidable (Selects kept dropped name) := by
  unfold Selects
  infer_instance

theorem get?_selected (fields : Dict FieldValue) (kept dropped : List String) (k : String) :
    (selected fields kept dropped).get? k =
      if Selects kept dropped k then fields.get? k else none := by
  unfold selected Selects
  rw [get?_dropFields, get?_keepFields]
  by_cases hdropped : k ∈ dropped <;> simp [hdropped]

/-- The lists count only by the names in them. -/
theorem selected_congr (fields : Dict FieldValue) {kept kept' dropped dropped' : List String}
    (hkept : ∀ name, name ∈ kept' ↔ name ∈ kept)
    (hdropped : ∀ name, name ∈ dropped' ↔ name ∈ dropped) :
    selected fields kept' dropped' = selected fields kept dropped := by
  have hnil : kept' = [] ↔ kept = [] := by
    rw [List.eq_nil_iff_forall_not_mem, List.eq_nil_iff_forall_not_mem]
    exact forall_congr' fun name => not_congr (hkept name)
  apply Dict.ext_get?
  intro k
  have hselects : Selects kept' dropped' k ↔ Selects kept dropped k := by
    unfold Selects
    rw [hnil, hkept, hdropped]
  rw [get?_selected, get?_selected]
  simp only [hselects]

theorem keepFields_dropFields (fields : Dict FieldValue) (kept dropped : List String) :
    keepFields (dropFields fields dropped) kept = selected fields kept dropped := by
  apply Dict.ext_get?
  intro k
  rw [get?_selected, get?_keepFields, get?_dropFields]
  unfold Selects
  by_cases hkept : kept = [] ∨ k ∈ kept <;> by_cases hdropped : k ∈ dropped <;>
    simp [hkept, hdropped]

theorem selected_selected (fields : Dict FieldValue) (kept dropped : List String) :
    selected (selected fields kept dropped) kept dropped = selected fields kept dropped := by
  apply Dict.ext_get?
  intro k
  rw [get?_selected, get?_selected]
  by_cases hselects : Selects kept dropped k <;> simp [hselects]

/-! ### Projections -/

/-- The topic with other lists of fields to keep and to drop. -/
def Topic.choosing (topic : Topic) (kept dropped : List String) : Topic :=
  { topic with includeFields := kept, excludeFields := dropped }

/-- The dictionary is the body that an event is projected to for a topic, in whichever way the
    fields are chosen. -/
structure BodyOf (e : Event) (topic : Topic) (body : Dict FieldValue) : Prop where
  /-- The text is the body, and routing sees the whole event. -/
  message : projectRaw e topic =
    ⟨(Value.ofDict body).text, topic.name, Routing.key e.fields topic.routingKeys,
      Routing.properties? e.fields topic.routingKeys⟩
  /-- The body has the selected fields of the event, with their values, and no others. -/
  fields : ∀ name, body.get? name =
    if Selects topic.includeFields topic.excludeFields name then e.get? name else none
  /-- The body is what is left after walking along both lists. -/
  walked : body = topic.excludeFields.foldl Dict.erase
    (if topic.includeFields = [] then e.fields
      else Dict.ofList (e.fields.takeOut topic.includeFields))
  /-- The filters may change places. -/
  kept_dropped : body = dropFields (keepFields e.fields topic.includeFields) topic.excludeFields
  dropped_kept : body = keepFields (dropFields e.fields topic.excludeFields) topic.includeFields
  /-- A second turn of both filters finds nothing to do. -/
  twice : dropFields (keepFields body topic.includeFields) topic.excludeFields = body
  /-- Lists of the same names make the same message. -/
  names_only : ∀ kept dropped, (∀ name, name ∈ kept ↔ name ∈ topic.includeFields) →
    (∀ name, name ∈ dropped ↔ name ∈ topic.excludeFields) →
    projectRaw e (topic.choosing kept dropped) = projectRaw e topic
  /-- Any lists make the same routing key and the same properties. -/
  routing : ∀ kept dropped,
    (projectRaw e (topic.choosing kept dropped)).routingKey = (projectRaw e topic).routingKey ∧
    (projectRaw e (topic.choosing kept dropped)).properties = (projectRaw e topic).properties

/-- The projection of any event for any topic has the selected fields for its body. -/
theorem projectRaw_selects (e : Event) (topic : Topic) :
    BodyOf e topic (selected e.fields topic.includeFields topic.excludeFields) := by
  constructor
  case message => rfl
  case fields => exact get?_selected e.fields topic.includeFields topic.excludeFields
  case walked => rw [← keepFields_eq_takeOut, ← dropFields_eq_foldl, selected]
  case kept_dropped => rfl
  case dropped_kept => rw [keepFields_dropFields]
  case twice => exact selected_selected e.fields topic.includeFields topic.excludeFields
  case names_only =>
    intro kept dropped hkept hdropped
    have hbody : selected e.fields kept dropped =
        selected e.fields topic.includeFields topic.excludeFields :=
      selected_congr e.fields hkept hdropped
    exact congrArg (fun body => (⟨(Value.ofDict body).text, topic.name,
      Routing.key e.fields topic.routingKeys,
      Routing.properties? e.fields topic.routingKeys⟩ : Message)) hbody
  case routing =>
    intro kept dropped
    exact ⟨rfl, rfl⟩

/-- A job in a queue, for a topic that wants its number and routes by its queue. -/
theorem projectRaw_selects_repeated :
    let e : Event := ⟨Dict.ofList [("queue", Value.ofString "q"), ("job_id", FieldValue.ofInt64 7)]⟩
    let topic : Topic := ⟨"jobs", .raw, ["job_id", "queue"], ["queue", "user"], .empty, ["queue"]⟩
    projectRaw e (topic.choosing ["queue", "job_id", "queue"] ["user", "user", "queue"]) =
        projectRaw e topic ∧
      (selected e.fields topic.includeFields topic.excludeFields).keys = ["job_id"] ∧
      (projectRaw e topic).routingKey = "q" := by
  intro e topic
  have hkept : ∀ name, name ∈ ["queue", "job_id", "queue"] ↔ name ∈ topic.includeFields := by
    intro name
    simp only [topic, List.mem_cons, List.not_mem_nil, or_false]
    grind
  have hdropped : ∀ name, name ∈ ["user", "user", "queue"] ↔ name ∈ topic.excludeFields := by
    intro name
    simp only [topic, List.mem_cons, List.not_mem_nil, or_false]
    grind
  exact ⟨(projectRaw_selects e topic).names_only _ _ hkept hdropped, by decide +kernel,
    by decide +kernel⟩

end JobTrace
