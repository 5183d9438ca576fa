import JobTrace.Projection
import JobTrace.Tracking.Report

/-!
Processing one record for all of its topics.

A raw record is first turned into JSON text by a parser that the caller supplies, then decoded,
then offered to each topic in turn.  Fields that a topic adds are seen by that topic alone; what
the tracker remembers is shared by all topics and passed on from one to the next.
-/

namespace JobTrace

/-- The kind of file that a raw record was read from. -/
inductive FileType where
  | event
  | stream
  | account
  | status
deriving DecidableEq

def FileType.name : FileType → String
  | event => "event"
  | stream => "stream"
  | account => "account"
  | status => "status"

/-- Turns a raw record into JSON text.  It has no way to refuse a record: what it cannot parse
    becomes a text that is no record.  It may crash, though, and then there is no text at all. -/
structure RecordParser where
  parse? : String → FileType → Option String

def RecordParser.json : RecordParser := ⟨fun raw _ => some (Text.trim raw)⟩

/-- The event as a topic sees it. -/
def Event.seenBy (e : Event) (topic : Topic) : Event :=
  if topic.addFields.isEmpty then e else e.extend topic.addFields

namespace Tracker

def offer (t : Tracker) (e : Event) (topic : Topic) : Option Message × Tracker :=
  match topic.kind with
  | .raw => (some (projectRaw (e.seenBy topic) topic), t)
  | .statusTrace => t.report (e.seenBy topic) topic
  | .unsupported => (none, t)

def fanOut (t : Tracker) (e : Event) : List Topic → List Message × Tracker
  | [] => ([], t)
  | topic :: topics =>
    let (message, t) := t.offer e topic
    let (messages, t) := t.fanOut e topics
    (message.toList ++ messages, t)

/-- The messages of a parsed text, one after another in the order of the topics.  A text that is
    no record has none. -/
def processText (t : Tracker) (text : String) (topics : List Topic) : List Message × Tracker :=
  match Event.ofText text with
  | .ok e => t.fanOut e topics
  | .error _ => ([], t)

/-- The messages of a raw record, unless the parser crashes on it; then nothing is changed. -/
def process (t : Tracker) (parser : RecordParser) (raw : String) (fileType : FileType)
    (topics : List Topic) : Option (List Message) × Tracker :=
  match parser.parse? raw fileType with
  | none => (none, t)
  | some text =>
    let (messages, t) := t.processText text topics
    (some messages, t)

end Tracker

end JobTrace
