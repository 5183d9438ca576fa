import JobTrace.Field.Value

/-!
Routing keys and properties.

Both are derived from the same list of fields: the key shows their values in order, separated by
points, and the properties hold the values that are there by name.
-/

namespace JobTrace.Routing

/-- How many characters a routing key may have; brokers refuse longer ones. -/
def maxKeyLength : Nat := 255

/-- The part of the key for one field; an absent field leaves its place empty. -/
def segment (fields : Dict FieldValue) (name : String) : String :=
  match fields.get? name with
  | some v => v.display
  | none => ""

/-- The routing key.  A key that would be too long is dropped. -/
def key (fields : Dict FieldValue) (names : List String) : String :=
  let key := String.intercalate "." (names.map (segment fields))
  if maxKeyLength < key.length then "" else key

/-- The values of the routing fields that are there.  Without routing fields there are no
    properties, not even empty ones. -/
def properties? (fields : Dict FieldValue) (names : List String) : Option (Dict String) :=
  if names = [] then none
  else some (Dict.ofList (names.filterMap fun name =>
    (fields.get? name).map fun v => (name, v.display)))

end JobTrace.Routing
