import JobTrace.Field.Value

/-!
Topics: what is to be sent where.

A topic names a destination and says how a record is turned into a message for it: as the record
itself with fields kept and dropped, or as a report of a change of state.
-/

namespace JobTrace

/-- How a topic turns records into messages. -/
inductive TopicKind where
  /-- Every record, its fields filtered. -/
  | raw
  /-- One message for each change in the state of a job. -/
  | statusTrace
  /-- Any other kind, kept so that one bad entry does not spoil a whole list; such a topic gets no
      messages. -/
  | unsupported
deriving DecidableEq

def TopicKind.name : TopicKind → String
  | raw => "job.raw"
  | statusTrace => "job.status.trace"
  | unsupported => "Unsupported"

def TopicKind.ofName (name : String) : TopicKind :=
  if name = raw.name then raw
  else if name = statusTrace.name then statusTrace
  else unsupported

theorem TopicKind.ofName_name (k : TopicKind) : ofName k.name = k := by cases k <;> decide

/-- A destination and the way to it. -/
@[ext]
structure Topic where
  name : String
  kind : TopicKind
  /-- The fields to keep; without any, all are kept. -/
  includeFields : List String
  /-- The fields to drop from those kept. -/
  excludeFields : List String
  /-- Fields put into each record before anything else. -/
  addFields : Dict FieldValue
  /-- The fields that make up the routing key and the properties, in order. -/
  routingKeys : List String

namespace Topic

def plain (name : String) (kind : TopicKind) : Topic := ⟨name, kind, [], [], Dict.empty, []⟩

/-- The topic with a field added, in place of one of the same name. -/
def addField (t : Topic) (name : String) (value : FieldValue) : Topic :=
  { t with addFields := t.addFields.insert name value }

end Topic

end JobTrace
