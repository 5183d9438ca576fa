import JobTrace.Message
import JobTrace.Record.Event
import JobTrace.Routing
import JobTrace.Topic.Basic

/-!
Raw projection: a record as it is, some of its fields left out.

Routing looks at the whole record, so a field need not be in the body to appear in the key.
-/

namespace JobTrace

/-- The fields whose names are listed; an empty list keeps every field. -/
def keepFields (fields : Dict FieldValue) (names : List String) : Dict FieldValue :=
  if names = [] then fields else fields.filterKeys names.contains

def dropFields (fields : Dict FieldValue) (names : List String) : Dict FieldValue :=
  fields.filterKeys fun name => ¬ names.contains name

def projectRaw (e : Event) (t : Topic) : Message :=
  let body := dropFields (keepFields e.fields t.includeFields) t.excludeFields
  ⟨(Value.ofDict body).text, t.name, Routing.key e.fields t.routingKeys,
    Routing.properties? e.fields t.routingKeys⟩

end JobTrace
