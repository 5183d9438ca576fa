import JobTrace.Proofs.Json.Bounds
import JobTrace.Proofs.Json.Legible
import JobTrace.Proofs.Json.Members
import JobTrace.Record.Event

/-!
# Events are read back

An event that has been read from a text is written and read again.  What comes back is the same
event if all of its numbers are integers: the text that is written spells every string and every
64-bit integer, keeps null, truth values, lists and maps apart, and is nested no deeper than the
text that was read, so the reader does not refuse it.

How the first text was spelt does not matter.  It may have had blanks around it, repeated keys, or
escapes that need not be there.
-/

namespace JobTrace

/-! ### Field values -/

/-- The JSON number that a number of a record is written as. -/
def Number.json : Number → JsonNumber
  | int n => .int n
  | float x => .float x

theorem Number.ofJson_json (n : Number) : Number.ofJson n.json = n := by cases n <;> rfl

/-- A number that is no double. -/
def Number.IsInt (n : Number) : Prop := ∃ i, n = .int i

instance : DecidablePred Number.IsInt
  | .int i => isTrue ⟨i, rfl⟩
  | .float x => isFalse (by
    rintro ⟨i, h⟩
    cases h)

namespace Tree

/-- A map is written without blanks around it. -/
theorem trim_text_map {ν : Type} [Spelt ν] (ms : List (String × Tree String ν)) :
    Text.trim (map ms).text = (map ms).text := by
  obtain ⟨cs, htext⟩ := exists_toList_text_map ms
  rw [Text.trim, htext, Text.trimChars_of_ends (by decide) (by decide), ← htext,
    String.ofList_toList]

end Tree

namespace FieldValue

/-- All numbers in a value, however deep, are integers. -/
def Whole (v : FieldValue) : Prop := ∀ n ∈ v.tree.numbers, n.IsInt

instance (v : FieldValue) : Decidable v.Whole :=
  inferInstanceAs (Decidable (∀ n ∈ v.tree.numbers, n.IsInt))

theorem depth_le_of_ofText? {s : String} {v : FieldValue} (h : ofText? s = some v) :
    v.tree.depth ≤ maxDepth := by
  obtain ⟨json, hjson, rfl⟩ := Option.map_eq_some_iff.1 h
  have hdepth : (ofJson json).tree.depth = json.tree.depth :=
    Tree.depth_mapScalars id Number.ofJson json.tree
  rw [hdepth]
  exact Json.depth_le_of_ofText? hjson

theorem Whole.readsAs {v : FieldValue} (h : v.Whole) :
    ∀ n ∈ v.tree.numbers, Spelt.ReadsAs n n.json := by
  intro n hn
  obtain ⟨i, rfl⟩ := h n hn
  exact JsonNumber.readsAs_int i

/-- Sorting does nothing to a value, and its numbers come back as they were. -/
theorem ofJson_ofTree_json (v : FieldValue) :
    ofJson (Value.ofTree (v.tree.mapScalars id Number.json)) = v := by
  have hcanonical := Tree.canonical_mapScalars Number.json v.canonical
  have hback : Number.ofJson ∘ Number.json = id := funext Number.ofJson_json
  apply Value.ext
  show ((v.tree.mapScalars id Number.json).normalize).mapScalars id Number.ofJson = v.tree
  rw [Tree.normalize_eq_self hcanonical, Tree.mapScalars_mapScalars, hback]
  exact Tree.mapScalars_id v.tree

/-- A value without doubles is read back from its text, at any depth that the reader admits. -/
theorem ofText?_text {v : FieldValue} (hdepth : v.tree.depth ≤ maxDepth) (hwhole : v.Whole) :
    ofText? v.text = some v := by
  have hcontent : Content.ofText? v.text = some (v.tree.mapScalars id Number.json) :=
    Tree.content_ofText?_text hdepth hwhole.readsAs
  unfold ofText? Json.ofText?
  rw [hcontent, Option.map_some, Option.map_some, ofJson_ofTree_json]

end FieldValue

/-! ### Events -/

namespace Event

/-- All numbers in an event, however deep, are integers. -/
def Whole (e : Event) : Prop := ∀ field ∈ e.fields.entries, field.2.Whole

instance (e : Event) : Decidable e.Whole :=
  inferInstanceAs (Decidable (∀ field ∈ e.fields.entries, field.2.Whole))

theorem whole_ofDict {e : Event} (h : e.Whole) : FieldValue.Whole (Value.ofDict e.fields) := by
  intro n hn
  obtain ⟨field, hfield, hn⟩ := Value.exists_of_mem_numbers_ofDict hn
  exact h field hfield n hn

/-- An event is what is read between the blanks of a text. -/
theorem ofText_eq_ok_iff {s : String} {e : Event} :
    ofText s = .ok e ↔ FieldValue.ofText? (Text.trim s) = some (Value.ofDict e.fields) := by
  unfold ofText ofJson FieldValue.ofText?
  cases Json.ofText? (Text.trim s) with
  | none => simp
  | some json =>
    simp only [Option.map_some, Option.some.injEq]
    cases hfields : (FieldValue.ofJson json).toDict? with
    | none =>
      constructor
      · intro h
        exact absurd h (by simp)
      · intro h
        rw [h, Value.toDict?_ofDict] at hfields
        exact absurd hfields (by simp)
    | some fields =>
      constructor
      · intro h
        obtain rfl : ⟨fields⟩ = e := by simpa using h
        exact (Value.ofDict_of_toDict? hfields).symm
      · intro h
        rw [h, Value.toDict?_ofDict] at hfields
        obtain rfl := Option.some.inj hfields
        rfl

theorem trim_text (e : Event) : Text.trim e.text = e.text :=
  Tree.trim_text_map (ν := Number) _

/-- An event without doubles is read back from its text, at any depth that the reader admits. -/
theorem ofText_text {e : Event} (hdepth : (Value.ofDict e.fields).tree.depth ≤ maxDepth)
    (hwhole : e.Whole) : ofText e.text = .ok e := by
  rw [ofText_eq_ok_iff, trim_text]
  exact FieldValue.ofText?_text hdepth (whole_ofDict hwhole)

/-- An event that was read from any text and has no doubles in it is read again from the text that
    it is written as. -/
theorem ofText_text_of_ofText {s : String} {e : Event} (h : ofText s = .ok e)
    (hwhole : e.Whole) : ofText e.text = .ok e := by
  have hread := ofText_eq_ok_iff.1 h
  exact ofText_text (FieldValue.depth_le_of_ofText? hread) hwhole

/-- The content of a text that repeats a key. -/
def repeatedRange : Content :=
  .map [("range", .number (.int 0)),
    ("note\"\n\x1f", .list [.null, .bool true, .string "é\\", .list [], .map []]),
    ("range", .map [("min", .number (.int Int64.minValue)),
      ("max", .number (.int Int64.maxValue))])]

def lastRange : Event :=
  ⟨Dict.ofList
    [("note\"\n\x1f", Value.ofTree (.list [.null, .bool true, .string "é\\", .list [], .map []])),
      ("range", Value.ofTree (.map [("max", .number (.int Int64.maxValue)),
        ("min", .number (.int Int64.minValue))]))]⟩

theorem content_ofText?_repeatedRange :
    Content.ofText? repeatedRange.text = some repeatedRange := by
  have hnumbers : ∀ n ∈ repeatedRange.numbers, Spelt.ReadsAs n n := by
    intro n hn
    simp only [repeatedRange, Tree.numbers, Tree.numbersMembers, Tree.numbersItems,
      List.append_nil, List.nil_append, List.cons_append, List.mem_cons, List.not_mem_nil,
      or_false] at hn
    rcases hn with rfl | rfl | rfl
    · exact JsonNumber.readsAs_int 0
    · exact JsonNumber.readsAs_int Int64.minValue
    · exact JsonNumber.readsAs_int Int64.maxValue
  exact Content.ofText?_text (by decide) hnumbers

/-- The text of a record with the limits of the integers, with values of all other kinds, and with
    an outdated value, between blanks that JSON does not know. -/
theorem ofText_text_of_ofText_lastRange :
    ofText ("\u00a0" ++ repeatedRange.text ++ "\u2003") = .ok lastRange ∧ lastRange.Whole ∧
      ofText lastRange.text = .ok lastRange := by
  have hread : ofText ("\u00a0" ++ repeatedRange.text ++ "\u2003") = .ok lastRange := by
    have htrim : Text.trim ("\u00a0" ++ repeatedRange.text ++ "\u2003") = repeatedRange.text := by
      rw [Text.trim_surrounded (List.all_eq_true.1 (by decide)) (List.all_eq_true.1 (by decide))]
      exact Tree.trim_text_map _
    rw [ofText_eq_ok_iff, htrim, FieldValue.ofText?, Json.ofText?, content_ofText?_repeatedRange]
    rfl
  have hwhole : lastRange.Whole := by decide +kernel
  exact ⟨hread, hwhole, ofText_text_of_ofText hread hwhole⟩

end Event

end JobTrace
