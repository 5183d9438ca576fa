import JobTrace.Routing

/-!
# A routing key says by place what the properties say by name

The routing key of a record and its properties are made by separate functions: one goes by the
places of the routing fields and leaves a gap where a field is missing, the other goes by their
names and has nothing to say of a missing field.  Both show the same values.  Read at every place
and joined by points, the properties are the key, also where names are repeated.

The rule for the key is told field by field: the first field starts it, and every later one puts a
point and then its value (`grownKey`).  That this is the joined text is the one induction below.
The limit applies to the key as a whole, in characters; the properties stay when a key is dropped.
-/

namespace JobTrace

namespace Routing

variable (fields : Dict FieldValue)

/-! ### The key, field by field -/

/-- A key and the later fields behind it.  Each of them puts a point, and its value if it is
    there. -/
def growKey (key : String) : List String → String
  | [] => key
  | name :: names =>
    match fields.get? name with
    | some v => growKey (key ++ "." ++ v.display) names
    | none => growKey (key ++ ".") names

/-- The key as it grows from the first field on. -/
def grownKey : List String → String
  | [] => ""
  | first :: names =>
    match fields.get? first with
    | some v => growKey fields v.display names
    | none => growKey fields "" names

/-- A key as it may be sent: of more than 255 characters nothing is left. -/
def limited (key : String) : String := if key.length ≤ 255 then key else ""

variable {fields}

theorem growKey_eq (key : String) (names : List String) :
    growKey fields key names = String.intercalate "." (key :: names.map (segment fields)) := by
  induction names generalizing key with
  | nil => simp [growKey]
  | cons name names ih =>
    -- What is there already may be taken out of the join, point included.
    have hjoin : String.intercalate "." (key :: (name :: names).map (segment fields)) =
        String.intercalate "." ((key ++ "." ++ segment fields name) ::
          names.map (segment fields)) := by
      rw [List.map_cons, String.intercalate_cons_cons, String.intercalate_cons_append]
    rw [hjoin, ← ih, growKey, segment]
    cases fields.get? name with
    | none => exact congrArg (growKey fields · names) (String.append_empty).symm
    | some v => rfl

theorem grownKey_eq (names : List String) :
    grownKey fields names = String.intercalate "." (names.map (segment fields)) := by
  cases names with
  | nil => exact String.intercalate_nil.symm
  | cons first names =>
    rw [List.map_cons, ← growKey_eq, grownKey, segment]
    cases fields.get? first with
    | none => rfl
    | some v => rfl

theorem key_eq (names : List String) :
    key fields names = limited (String.intercalate "." (names.map (segment fields))) := by
  unfold key limited
  by_cases hlong : 255 < (String.intercalate "." (names.map (segment fields))).length
  · rw [if_neg (Nat.not_le.2 hlong)]
    exact if_pos hlong
  · rw [if_pos (Nat.not_lt.1 hlong)]
    exact if_neg hlong

/-! ### The properties, name by name -/

theorem get?_of_properties? {names : List String} {values : Dict String}
    (h : properties? fields names = some values) (name : String) :
    values.get? name =
      if name ∈ names then (fields.get? name).map FieldValue.display else none := by
  unfold properties? at h
  split at h
  · exact absurd h (by simp)
  · obtain rfl := Option.some.inj h
    have hpairs : (fun n => (fields.get? n).map fun v => (n, v.display)) =
        fun n => ((fields.get? n).map FieldValue.display).map (n, ·) := by
      funext n
      rw [Option.map_map]
      rfl
    rw [hpairs]
    exact Dict.get?_ofList_filterMap (fun n => (fields.get? n).map FieldValue.display) names name

/-- At every place of the key stands the property of that name, or nothing. -/
theorem segments_of_properties? {names : List String} {values : Dict String}
    (h : properties? fields names = some values) :
    names.map (segment fields) = names.map fun name => (values.get? name).getD "" := by
  apply List.map_congr_left
  intro name hname
  rw [get?_of_properties? h, if_pos hname, segment]
  cases fields.get? name with
  | none => rfl
  | some v => rfl

/-- Without routing fields there is neither a key nor properties.  With them, the properties are
    the values of those routing fields that are there, by name, and the key is made of these
    properties alone: their texts in the order of the routing fields, joined by points, if that is
    not too long.  In any case the key is the one that grows from field to field. -/
theorem key_properties_agree (fields : Dict FieldValue) (names : List String) :
    (names = [] → key fields names = "" ∧ properties? fields names = none) ∧
    (names ≠ [] → ∃ values, properties? fields names = some values ∧
      (∀ name, values.get? name =
        if name ∈ names then (fields.get? name).map FieldValue.display else none) ∧
      key fields names = limited (String.intercalate "."
        (names.map fun name => (values.get? name).getD ""))) ∧
    key fields names = limited (grownKey fields names) := by
  refine ⟨?_, ?_, ?_⟩
  · rintro rfl
    exact ⟨rfl, rfl⟩
  · intro hnames
    obtain ⟨values, hvalues⟩ : ∃ values, properties? fields names = some values :=
      ⟨_, if_neg hnames⟩
    refine ⟨values, hvalues, get?_of_properties? hvalues, ?_⟩
    rw [key_eq, segments_of_properties? hvalues]
  · rw [key_eq, grownKey_eq]

/-- A record in which one field is null and another is no text. -/
def sparseFields : Dict FieldValue :=
  Dict.ofList [("cluster", Value.ofString "é"), ("job_id", FieldValue.ofInt64 42),
    ("note", ⟨.null, trivial⟩)]

/-- A null field has a property, a missing one has none, and both leave a gap in the key. -/
theorem key_properties_agree_sparse :
    (key sparseFields [] = "" ∧ properties? sparseFields [] = none) ∧
    ["cluster", "note", "job_id", "queue", "cluster"] ≠ [] ∧
    ∃ values,
      properties? sparseFields ["cluster", "note", "job_id", "queue", "cluster"] = some values ∧
      values.get? "note" = some "" ∧ values.get? "queue" = none ∧
      key sparseFields ["cluster", "note", "job_id", "queue", "cluster"] = "é..42..é" := by
  obtain ⟨hnone, -, -⟩ := key_properties_agree sparseFields []
  obtain ⟨-, hsome, -⟩ :=
    key_properties_agree sparseFields ["cluster", "note", "job_id", "queue", "cluster"]
  obtain ⟨values, hvalues, hget, hkey⟩ := hsome (by decide)
  refine ⟨hnone rfl, by decide, values, hvalues, ?_, ?_, ?_⟩
  · rw [hget]
    decide +kernel
  · rw [hget]
    decide +kernel
  · rw [hkey]
    simp only [hget]
    decide +kernel

end Routing

end JobTrace
