import JobTrace.Field.Trial
import JobTrace.Text.Blank

/-!
Events: records after decoding.

An event is a dictionary of field values.  It is read from a JSON text that spells a map; blanks
of any kind may surround the text.  Looking at a field never fails: a missing field reads as the
empty text, or as -1 where a number is asked for.
-/

namespace JobTrace

/-- Why a text is no record. -/
inductive RecordError where
  | invalidJson
  | notAnObject
deriving DecidableEq

/-- The wording of an error, where the wording is this library's own. -/
def RecordError.message? : RecordError → Option String
  | invalidJson => none
  | notAnObject => some "record is not a json object"

/-- A decoded record. -/
@[ext]
structure Event where
  fields : Dict FieldValue

/-! ### Names of fields and event types -/

namespace FieldName

def eventType : String := "event_type"
def cluster : String := "cluster"
def jobId : String := "job_id"
def jobIndex : String := "job_arr_idx"
def jobStatus : String := "job_status"
def exitStatus : String := "exit_status"
def exitInfo : String := "exit_info"
def lastStatus : String := "last_status"
def currentStatus : String := "current_status"
def changeReason : String := "change_reason"

/-- What a job is created with and keeps: its owner, its queue and the groupings it belongs
    to. -/
def descriptive : List String :=
  ["user_name", "queue_name", "job_name", "project_name", "user_group_name", "job_group",
    "app_profile"]

end FieldName

namespace EventType

def jobNew : String := "JOB_NEW"
def jobStartAccept : String := "JOB_START_ACCEPT"
def jobStatus : String := "JOB_STATUS"

end EventType

namespace Event

def empty : Event := ⟨Dict.empty⟩

instance : Inhabited Event := ⟨empty⟩

/-! ### Reading and writing -/

def ofJson (v : Json) : Except RecordError Event :=
  match (FieldValue.ofJson v).toDict? with
  | some fields => .ok ⟨fields⟩
  | none => .error .notAnObject

/-- The event that a text spells; blanks around it do not count. -/
def ofText (s : String) : Except RecordError Event :=
  match Json.ofText? (Text.trim s) with
  | some v => ofJson v
  | none => .error .invalidJson

/-- The event that a text spells, every field decoded by trial.  Only the blanks of JSON may
    surround the text. -/
def byTrial? (s : String) : Option Event :=
  ((Content.ofText? s).bind FieldValue.byTrial?).bind fun v => v.toDict?.map Event.mk

def text (e : Event) : String := (Value.ofDict e.fields).text

/-! ### Fields -/

def get? (e : Event) (name : String) : Option FieldValue := e.fields.get? name

/-- The text of a field, empty when the field is missing. -/
def textOf (e : Event) (name : String) : String :=
  match e.get? name with
  | some v => v.display
  | none => ""

/-- The integer of a field, -1 when the field is missing or is no number. -/
def intOf (e : Event) (name : String) : Int64 :=
  match (e.get? name).bind FieldValue.toInt64? with
  | some n => n
  | none => -1

def eventType (e : Event) : String := e.textOf FieldName.eventType

def insert (e : Event) (name : String) (value : FieldValue) : Event :=
  ⟨e.fields.insert name value⟩

def extend (e : Event) (added : Dict FieldValue) : Event := ⟨e.fields.insertAll added⟩

end Event

end JobTrace
