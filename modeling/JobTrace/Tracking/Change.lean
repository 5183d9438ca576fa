import JobTrace.Job.Classification
import JobTrace.Job.Identity
import JobTrace.Store.Basic

/-!
Detecting changes of state.

The tracker follows every job that is not in a final state.  It remembers the code of the state
reported last and, from the creation of the job on, the fields that describe it.  An event is a
change when its job is not followed or is followed in another state; a final state ends the
following.
-/

namespace JobTrace

abbrev StateStore := Store Int64

abbrev PropertyStore := Store (Dict String)

/-- What is remembered about jobs. -/
@[ext]
structure Tracker where
  states : StateStore
  properties : PropertyStore
deriving DecidableEq

/-- A change in the state of a job. -/
@[ext]
structure StateChange where
  identity : JobIdentity
  /-- The code of the state before, when the job was followed. -/
  lastCode : Option Int64
  current : JobState
  reason : String
  /-- The describing fields, as they were before a final state made the tracker forget them. -/
  properties : Option (Dict String)
deriving DecidableEq

namespace Tracker

def empty : Tracker := ⟨Store.empty, Store.empty⟩

instance : Inhabited Tracker := ⟨empty⟩

/-- The describing fields of an event, empty texts for those that are missing. -/
def describe (e : Event) : Dict String :=
  Dict.ofList (FieldName.descriptive.map fun name => (name, e.textOf name))

/-- Remember the describing fields of a job that is being created. -/
def recordProperties (t : Tracker) (e : Event) : Tracker :=
  if e.eventType = EventType.jobNew then
    { t with properties := t.properties.write (JobIdentity.ofEvent e).key (describe e) }
  else t

def follow (t : Tracker) (key : String) (state : JobState) : Tracker :=
  { t with states := t.states.write key state.code }

def forget (t : Tracker) (key : String) : Tracker :=
  ⟨t.states.delete key, t.properties.delete key⟩

/-- The change that an event means, if it means one, and what is remembered afterwards. -/
def detect (t : Tracker) (e : Event) : Option StateChange × Tracker :=
  let t := t.recordProperties e
  match classify? e with
  | none => (none, t)
  | some c =>
    let identity := JobIdentity.ofEvent e
    let key := identity.key
    let change (lastCode : Option Int64) : StateChange :=
      ⟨identity, lastCode, c.state, c.reason, t.properties.read key⟩
    match t.states.read key with
    | none => (some (change none), if c.state.isFinal then t else t.follow key c.state)
    | some last =>
      if last = c.state.code then (none, t)
      else
        (some (change (some last)),
          if c.state.isFinal then t.forget key else t.follow key c.state)

end Tracker

end JobTrace
