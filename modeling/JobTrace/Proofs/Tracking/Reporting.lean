import JobTrace.Tracking.Report

/-!
# What a report says, name by name

Four sources write into the fields of a report: the change itself, the event, the topic, and what
the tracker remembers of the job.  The report is built by writing them over each other, but what
counts is which of them has the last word on a name.  For the body it is the topic's choice of
fields, and under a chosen name the event before the topic (`StateChange.bodyValue?`); for routing
it is the description of the job (`StateChange.routedValue?`).  A dictionary is determined by its
look-ups, so this says what both of them are, and that a name may be chosen twice, or be one that
every report has.
-/

namespace JobTrace

namespace StateChange

/-! ### The values of a report -/

/-- What every report says under a name: the job, its states and the reason, the state before only
    if there is one. -/
def coreValue? (c : StateChange) (name : String) : Option FieldValue :=
  if name = FieldName.cluster then some (Value.ofString c.identity.cluster)
  else if name = FieldName.jobId then some (FieldValue.ofInt64 c.identity.jobId)
  else if name = FieldName.jobIndex then some (FieldValue.ofInt64 c.identity.jobIndex)
  else if name = FieldName.currentStatus then some (Value.ofString c.current.name)
  else if name = FieldName.changeReason then some (Value.ofString c.reason)
  else if name = FieldName.lastStatus then
    c.lastCode.map fun code => Value.ofString (JobState.nameOfCode code)
  else none

/-- What the body of a report says under a name.  A chosen name has the value of the event, or else
    that of the topic, and only if both have none what every report says. -/
def bodyValue? (c : StateChange) (e : Event) (t : Topic) (name : String) : Option FieldValue :=
  if name ∈ t.includeFields then
    ((e.get? name).or (t.addFields.get? name)).or (c.coreValue? name)
  else c.coreValue? name

/-- What routing sees under a name.  If the job is described, the describing fields are those of
    its description, empty where the description lacks them. -/
def routedValue? (c : StateChange) (e : Event) (t : Topic) (name : String) : Option FieldValue :=
  match c.properties with
  | none => c.bodyValue? e t name
  | some description =>
    if name ∈ FieldName.descriptive then
      some (Value.ofString ((description.get? name).getD ""))
    else c.bodyValue? e t name

/-! ### The fields of a report -/

variable (c : StateChange) (e : Event) (t : Topic) (name : String)

theorem get?_coreFields : c.coreFields.get? name = c.coreValue? name := by
  let fixed : List (String × FieldValue) :=
    [(FieldName.cluster, Value.ofString c.identity.cluster),
      (FieldName.jobId, FieldValue.ofInt64 c.identity.jobId),
      (FieldName.jobIndex, FieldValue.ofInt64 c.identity.jobIndex),
      (FieldName.currentStatus, Value.ofString c.current.name),
      (FieldName.changeReason, Value.ofString c.reason)]
  have hnodup : (fixed.map (·.1)).Nodup :=
    show [FieldName.cluster, FieldName.jobId, FieldName.jobIndex, FieldName.currentStatus,
      FieldName.changeReason].Nodup by decide
  have hfixed : (Dict.ofList fixed).get? name = Entries.find? name fixed :=
    Dict.get?_ofList_of_nodup hnodup name
  unfold coreFields coreValue?
  cases c.lastCode with
  | none =>
    refine hfixed.trans ?_
    simp only [fixed, Entries.find?, eq_comm (a := name), Option.map_none, ite_self]
  | some code =>
    refine (Dict.get?_insert ..).trans ?_
    rw [hfixed]
    by_cases hlast : FieldName.lastStatus = name
    · -- The state before is written last, but no other field has its name.
      subst hlast
      simp [FieldName.lastStatus, FieldName.cluster, FieldName.jobId, FieldName.jobIndex,
        FieldName.currentStatus, FieldName.changeReason]
    · rw [if_neg hlast]
      simp only [fixed, Entries.find?, eq_comm (a := name), if_neg hlast]

theorem get?_askedFields :
    (askedFields e t).get? name =
      if name ∈ t.includeFields then (e.get? name).or (t.addFields.get? name) else none :=
  Dict.get?_ofList_filterMap (askedValue? e t) t.includeFields name

theorem get?_body : (c.body e t).get? name = c.bodyValue? e t name := by
  unfold body bodyValue?
  rw [Dict.get?_insertAll, get?_askedFields, get?_coreFields]
  by_cases hasked : name ∈ t.includeFields
  · rw [if_pos hasked, if_pos hasked]
  · rw [if_neg hasked, if_neg hasked, Option.none_or]

theorem get?_routedFields : (c.routedFields e t).get? name = c.routedValue? e t name := by
  unfold routedFields routedValue?
  cases c.properties with
  | none => exact c.get?_body e t name
  | some description =>
    change ((c.body e t).insertAll _).get? name =
      if name ∈ FieldName.descriptive then some (Value.ofString ((description.get? name).getD ""))
      else c.bodyValue? e t name
    rw [Dict.get?_insertAll, Dict.get?_ofList_map, get?_body]
    by_cases hdescribing : name ∈ FieldName.descriptive
    · rw [if_pos hdescribing, if_pos hdescribing, Option.some_or]
    · rw [if_neg hdescribing, if_neg hdescribing, Option.none_or]

/-- A report is made of two dictionaries that are given name by name: its text is the first of
    them, and its routing key and its properties are those of the second one. -/
theorem message_by_name :
    ∃ body routed : Dict FieldValue,
      (∀ name, body.get? name = c.bodyValue? e t name) ∧
      (∀ name, routed.get? name = c.routedValue? e t name) ∧
      c.message e t = ⟨(Value.ofDict body).text, t.name, Routing.key routed t.routingKeys,
        Routing.properties? routed t.routingKeys⟩ :=
  ⟨c.body e t, c.routedFields e t, c.get?_body e t, c.get?_routedFields e t, rfl⟩

end StateChange

end JobTrace
