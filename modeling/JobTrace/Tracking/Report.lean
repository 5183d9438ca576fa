import JobTrace.Message
import JobTrace.Routing
import JobTrace.Topic.Basic
import JobTrace.Tracking.Change

/-!
Reporting changes of state.

The body of a report names the job, its states and the reason, and then the fields that the topic
asks for.  The describing fields of the job are not put into the body, but the routing key and the
properties see them.
-/

namespace JobTrace

namespace StateChange

def coreFields (c : StateChange) : Dict FieldValue :=
  let fields := Dict.ofList
    [(FieldName.cluster, Value.ofString c.identity.cluster),
      (FieldName.jobId, FieldValue.ofInt64 c.identity.jobId),
      (FieldName.jobIndex, FieldValue.ofInt64 c.identity.jobIndex),
      (FieldName.currentStatus, Value.ofString c.current.name),
      (FieldName.changeReason, Value.ofString c.reason)]
  match c.lastCode with
  | none => fields
  | some code => fields.insert FieldName.lastStatus (Value.ofString (JobState.nameOfCode code))

/-- The value that a topic asks for under a name: the event's, or else the topic's own. -/
def askedValue? (e : Event) (t : Topic) (name : String) : Option FieldValue :=
  (e.get? name).or (t.addFields.get? name)

def askedFields (e : Event) (t : Topic) : Dict FieldValue :=
  Dict.ofList (t.includeFields.filterMap fun name => (askedValue? e t name).map (name, ·))

/-- The body of the report; a field asked for wins over one that every report has. -/
def body (c : StateChange) (e : Event) (t : Topic) : Dict FieldValue :=
  c.coreFields.insertAll (askedFields e t)

/-- The fields that routing sees: the body and, over it, the describing fields of the job. -/
def routedFields (c : StateChange) (e : Event) (t : Topic) : Dict FieldValue :=
  match c.properties with
  | none => c.body e t
  | some properties =>
    (c.body e t).insertAll (Dict.ofList (FieldName.descriptive.map fun name =>
      (name, Value.ofString ((properties.get? name).getD ""))))

def message (c : StateChange) (e : Event) (t : Topic) : Message :=
  let routed := c.routedFields e t
  ⟨(Value.ofDict (c.body e t)).text, t.name, Routing.key routed t.routingKeys,
    Routing.properties? routed t.routingKeys⟩

end StateChange

/-- The report that an event gives rise to, if it is a change. -/
def Tracker.report (t : Tracker) (e : Event) (topic : Topic) : Option Message × Tracker :=
  match t.detect e with
  | (some change, t) => (some (change.message e topic), t)
  | (none, t) => (none, t)

end JobTrace
