import JobTrace.Field.Trial
import JobTrace.Json.Parts
import JobTrace.Topic.Basic

/-!
Topics in a configuration.

A topic is written as a map of six parts in a fixed order.  It is read from such a map in any
order, or from the list of the parts alone.  The name and the kind must be there, the other parts
have defaults.  The kind may also be given as a map from its name to null.
-/

namespace JobTrace.Topic

/-- The parts of a topic, in the order in which they are written. -/
def partNames : List String :=
  ["topic_name", "type", "include_fields", "exclude_fields", "add_fields", "routing_keys"]

/-! ### Writing -/

def stringList {ν : Type} (names : List String) : Tree String ν := .list (names.map .string)

def tree (t : Topic) : Tree String Number :=
  .map
    [("topic_name", .string t.name),
      ("type", .string t.kind.name),
      ("include_fields", stringList t.includeFields),
      ("exclude_fields", stringList t.excludeFields),
      ("add_fields", (Value.ofDict t.addFields).tree),
      ("routing_keys", stringList t.routingKeys)]

def text (t : Topic) : String := t.tree.text

/-! ### Reading -/

def kindOfDocument? : Document → Option TopicKind
  | .string s => s.value?.map TopicKind.ofName
  | .map [(k, .null)] => k.value?.map TopicKind.ofName
  | _ => none

/-- The added fields in a document of limited depth. -/
def fieldsOfDocument? (depth : Nat) (d : Document) : Option (Dict FieldValue) :=
  ((d.content? depth).bind FieldValue.byTrial?).bind Value.toDict?

def partOr {α : Type} (parts : List (String × Document)) (name : String) (default : α)
    (read? : Document → Option α) : Option α :=
  match Entries.find? name parts with
  | some d => read? d
  | none => some default

def ofDocument? : (depth : Nat) → Document → Option Topic
  | 0, _ => none
  | depth + 1, d => do
    let parts ← d.parts? partNames
    let name ← (Entries.find? "topic_name" parts).bind Document.string?
    let kind ← (Entries.find? "type" parts).bind kindOfDocument?
    let includeFields ← partOr parts "include_fields" [] Document.strings?
    let excludeFields ← partOr parts "exclude_fields" [] Document.strings?
    let addFields ← partOr parts "add_fields" Dict.empty (fieldsOfDocument? depth)
    let routingKeys ← partOr parts "routing_keys" [] Document.strings?
    return ⟨name, kind, includeFields, excludeFields, addFields, routingKeys⟩

def ofText? (s : String) : Option Topic := (Document.ofText? s).bind (ofDocument? maxDepth)

/-- The topics of a document that is a list of them. -/
def listOfDocument? : (depth : Nat) → Document → Option (List Topic)
  | depth + 1, .list ds => ds.mapM (ofDocument? depth)
  | _, _ => none

def listOfText? (s : String) : Option (List Topic) :=
  (Document.ofText? s).bind (listOfDocument? maxDepth)

end JobTrace.Topic
