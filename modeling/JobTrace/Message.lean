import JobTrace.Field.Value
import JobTrace.Json.Parts

/-!
Messages for the broker.

A message is a text, a destination, and an address derived from the routing keys of its topic.
-/

namespace JobTrace

/-- One message for the broker. -/
@[ext]
structure Message where
  /-- The body. -/
  text : String
  /-- The destination. -/
  topic : String
  /-- Empty when the topic has no routing keys or the key would have been too long. -/
  routingKey : String
  /-- Missing when the topic has no routing keys. -/
  properties : Option (Dict String)
deriving DecidableEq

namespace Message

def payload (m : Message) : ByteArray := m.text.toUTF8

def body? (m : Message) : Option Json := Json.ofText? m.text

/-! ### Written messages -/

/-- The parts of a message, in the order in which they are written. -/
def partNames : List String := ["text", "topic", "routing_key", "properties"]

def textsValue {ν : Type} (d : Dict String) : Value ν := Value.ofDict (d.mapValues Value.ofString)

theorem plain_textsValue (d : Dict String) : Json.Plain (textsValue d) := by
  have htext : ∀ e ∈ (d.mapValues (Value.ofString (ν := JsonNumber))).entries,
      ∃ s, e.2 = Value.ofString s := by
    intro e he
    obtain ⟨e', -, rfl⟩ := List.mem_map.1 he
    exact ⟨e'.2, rfl⟩
  refine ⟨?_, fun n hn => ?_⟩
  · have hdepth : (textsValue d : Json).tree.depth ≤ 0 + 1 := by
      refine Value.depth_ofDict_le fun e he => ?_
      obtain ⟨s, hs⟩ := htext e he
      simp [hs, Value.ofString, Tree.depth]
    exact Nat.lt_of_le_of_lt hdepth (by decide)
  · obtain ⟨e, he, hn⟩ := Value.exists_of_mem_numbers_ofDict hn
    obtain ⟨s, hs⟩ := htext e he
    simp [hs, Value.ofString, Tree.numbers] at hn

def tree (m : Message) : Tree String Number :=
  .map
    [("text", .string m.text),
      ("topic", .string m.topic),
      ("routing_key", .string m.routingKey),
      ("properties", match m.properties with
        | none => .null
        | some d => (textsValue d).tree)]

def json (m : Message) : String := m.tree.text

def textMember? (member : StringLiteral × Document) : Option (String × String) := do
  let key ← member.1.value?
  let value ← member.2.string?
  return (key, value)

/-- The texts under the keys of a map; of a repeated key, the last. -/
def textsOfDocument? : Document → Option (Dict String)
  | .map ms => (ms.mapM textMember?).map Dict.ofList
  | _ => none

/-- The properties in a document: null stands for their absence. -/
def propertiesOfDocument? : Document → Option (Option (Dict String))
  | .null => some none
  | d => (textsOfDocument? d).map some

/-- The message of a document.  A map may leave off the properties, a list may not. -/
def ofDocument? (d : Document) : Option Message := do
  let parts ← d.parts? partNames
  let text ← (Entries.find? "text" parts).bind Document.string?
  let topic ← (Entries.find? "topic" parts).bind Document.string?
  let routingKey ← (Entries.find? "routing_key" parts).bind Document.string?
  let properties ←
    match Entries.find? "properties" parts, d with
    | some p, _ => propertiesOfDocument? p
    | none, .map _ => some none
    | none, _ => none
  return ⟨text, topic, routingKey, properties⟩

def ofText? (s : String) : Option Message := (Document.ofText? s).bind ofDocument?

end Message

end JobTrace
