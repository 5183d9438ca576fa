import JobTrace.Processing

/-!
The intake of a pipeline: from submitted records to messages.

Records are submitted into a queue of limited length and processed one at a time, in the order in
which they got into the queue.  A submitter that finds the queue full waits for room.  Closing
turns away whoever waits or comes later, but what is in the queue is still processed.

Each operation is one step; who takes which step when is left open, so that every order of steps
can be looked at.
-/

namespace JobTrace

/-- A record on its way, with a ticket by which its submitter knows it. -/
structure Submission where
  ticket : Nat
  raw : String
  fileType : FileType
  topics : List Topic

/-- What a submitter is told. -/
inductive Outcome where
  | messages (ms : List Message)
  /-- The pipeline takes no records any longer. -/
  | closed
  /-- The parser crashed on the record. -/
  | replyDropped
deriving DecidableEq

def Outcome.message? : Outcome → Option String
  | messages _ => none
  | closed => some "pipeline is stopped"
  | replyDropped => some "worker dropped the reply channel"

/-- The queue, those who wait for room in it, and what was told to whom. -/
structure Intake where
  capacity : Nat
  accepting : Bool
  queue : List Submission
  waiting : List Submission
  tracker : Tracker
  outcomes : List (Nat × Outcome)

namespace Intake

/-- An open and empty queue.  There is room for one record at least. -/
def start (capacity : Nat) (tracker : Tracker) : Intake :=
  ⟨max capacity 1, true, [], [], tracker, []⟩

def tell (q : Intake) (s : Submission) (outcome : Outcome) : Intake :=
  { q with outcomes := q.outcomes ++ [(s.ticket, outcome)] }

/-- Submit a record: into the queue if there is room, else behind those who wait. -/
def submit (q : Intake) (s : Submission) : Intake :=
  if ¬ q.accepting then q.tell s .closed
  else if q.queue.length < q.capacity then { q with queue := q.queue ++ [s] }
  else { q with waiting := q.waiting ++ [s] }

/-- The first of those who wait gets the room that a record has left. -/
def fillRoom (q : Intake) : Intake :=
  match q.waiting with
  | [] => q
  | s :: rest => { q with queue := q.queue ++ [s], waiting := rest }

def serve (parser : RecordParser) (q : Intake) : Intake :=
  match q.queue with
  | [] => q
  | s :: rest =>
    match q.tracker.process parser s.raw s.fileType s.topics with
    | (some ms, tracker) =>
      (({ q with queue := rest, tracker } : Intake).tell s (.messages ms)).fillRoom
    | (none, tracker) =>
      (({ q with queue := rest, tracker } : Intake).tell s .replyDropped).fillRoom

def pending (q : Intake) : Nat := q.queue.length + q.waiting.length

/-- Process records until none is under way. -/
def drain (parser : RecordParser) (q : Intake) : Intake :=
  (List.range q.pending).foldl (fun q _ => q.serve parser) q

/-- Take no more records, and turn away those who wait. -/
def close (q : Intake) : Intake :=
  q.waiting.foldl (fun q s => q.tell s .closed) { q with accepting := false, waiting := [] }

def outcome? (q : Intake) (ticket : Nat) : Option Outcome :=
  (q.outcomes.find? fun o => o.1 = ticket).map (·.2)

end Intake

end JobTrace
