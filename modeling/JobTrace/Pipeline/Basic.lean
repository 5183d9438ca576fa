import JobTrace.Flushing
import JobTrace.Pipeline.Config
import JobTrace.Pipeline.Intake

/-!
The pipeline: an intake and a flusher over the same stores.

A pipeline starts from the snapshots, processes what is submitted, writes the snapshots from time
to time, and when it is stopped processes what is still queued and writes them once more.
-/

namespace JobTrace

def Tracker.stateSlot : Slot Tracker :=
  ⟨fun t => t.states.dirty, fun t => { t with states := t.states.clearDirty },
    fun t => t.states.text⟩

def Tracker.propertySlot : Slot Tracker :=
  ⟨fun t => t.properties.dirty, fun t => { t with properties := t.properties.clearDirty },
    fun t => t.properties.text⟩

/-- A pipeline. -/
structure Pipeline where
  parser : RecordParser
  intake : Intake
  flusher : Flusher Tracker

namespace Pipeline

/-- The targets of a pipeline: the states, and the describing fields if they are kept. -/
def targets (config : PipelineConfig) : List (FlushTarget Tracker) :=
  ⟨"job-states", Tracker.stateSlot, config.stateSnapshot⟩ ::
    match config.propertySnapshot with
    | none => []
    | some path => [⟨"job-properties", Tracker.propertySlot, path⟩]

/-- What was remembered about jobs when the snapshots were written. -/
def openTracker (config : PipelineConfig) (fs : Files) : Tracker :=
  ⟨Store.openAt config.stateSnapshot fs,
    match config.propertySnapshot with
    | none => Store.empty
    | some path => Store.openAt path fs⟩

def start (config : PipelineConfig) (parser : RecordParser) (fs : Files) : Pipeline :=
  ⟨parser, Intake.start config.queueCapacity (openTracker config fs),
    Flusher.start (targets config)⟩

def tracker (p : Pipeline) : Tracker := p.intake.tracker

/-- No snapshot attempt crashes by itself. -/
def noCrash : FlushTarget Tracker → Bool := fun _ => false

def withTracker (p : Pipeline) (t : Tracker) : Pipeline :=
  { p with intake := { p.intake with tracker := t } }

def tick (p : Pipeline) (fs : Files) : Pipeline × Files :=
  let r := p.flusher.tick noCrash (FlushRun.start p.tracker fs)
  (p.withTracker r.memory, r.files)

/-- Submit records and process all that is under way. -/
def submitAll (p : Pipeline) (ss : List Submission) : Pipeline :=
  { p with intake := (ss.foldl Intake.submit p.intake).drain p.parser }

/-- Queue records, then stop: what is in the queue is processed, and the flusher writes every
    snapshot a last time. -/
def stopWith (p : Pipeline) (ss : List Submission) (fs : Files) : Pipeline × Files :=
  let intake := (ss.foldl Intake.submit p.intake).close.drain p.parser
  let p := { p with intake }
  let (flusher, r) := p.flusher.stop noCrash (FlushRun.start p.tracker fs)
  ({ p with flusher }.withTracker r.memory, r.files)

def stop (p : Pipeline) (fs : Files) : Pipeline × Files := p.stopWith [] fs

end Pipeline

end JobTrace
