import JobTrace.Files.Path

/-!
Settings of a pipeline.
-/

namespace JobTrace

/-- The settings of a pipeline. -/
structure PipelineConfig where
  /-- How many records may wait in the queue. -/
  queueCapacity : Nat
  /-- Milliseconds between two rounds of the flusher. -/
  flushInterval : Nat
  /-- A timer without any time between its ticks cannot be started, and a flusher whose timer does
      not start ends at once, without a round and without a last flush. -/
  flushInterval_pos : 0 < flushInterval
  /-- Where the states of jobs are kept. -/
  stateSnapshot : Path
  /-- Where the describing fields of jobs are kept, if they are kept beyond a run. -/
  propertySnapshot : Option Path
deriving DecidableEq

namespace PipelineConfig

def standard : PipelineConfig := ⟨100, 1000, by decide, ⟨snapshotFileName⟩, none⟩

def ofEnvironment (directory : Option String) (executable : Option Path) : PipelineConfig :=
  { standard with stateSnapshot := snapshotPath directory executable }

end PipelineConfig

end JobTrace
