import JobTrace.Store.Snapshot

/-!
Flushing: stores are written to their snapshots from time to time.

A flusher has a list of targets, each a store inside some shared memory and the path of its
snapshot.  In every round it visits the targets in order and writes those that have changed; when
it is stopped it writes all of them once more, changed or not.  A target that fails or crashes
does not keep the others from their turn.

The memory is a parameter: a target knows its store only through a `Slot`, so that the same
flusher serves stores of different kinds, and two targets may share a store.

Time is a list of intervals that pass.  It is assumed that the timer of a flusher could be started,
for which an interval must not be zero (`PipelineConfig.flushInterval_pos`).
-/

namespace JobTrace

/-- How a flusher gets at one store inside a memory. -/
structure Slot (μ : Type) where
  isDirty : μ → Bool
  clearDirty : μ → μ
  text : μ → String

/-- A store and the path that it is flushed to. -/
structure FlushTarget (μ : Type) where
  name : String
  slot : Slot μ
  path : Path

/-- How an attempt to write a snapshot ended. -/
inductive FlushOutcome where
  | written
  | failed (e : SnapshotError)
  /-- The attempt crashed before it touched a file. -/
  | crashed
deriving DecidableEq

/-- What a flusher does to a target. -/
inductive FlushCall where
  | askedDirty (name : String) (answer : Bool)
  | clearedDirty (name : String)
  | attempted (name : String) (outcome : FlushOutcome)
deriving DecidableEq

/-- A memory, the files, and the calls made so far. -/
structure FlushRun (μ : Type) where
  memory : μ
  files : Files
  calls : List FlushCall

namespace FlushRun

variable {μ : Type}

def start (memory : μ) (files : Files) : FlushRun μ := ⟨memory, files, []⟩

def attempt (crashes : FlushTarget μ → Bool) (r : FlushRun μ) (t : FlushTarget μ) :
    FlushRun μ :=
  if crashes t then { r with calls := r.calls ++ [.attempted t.name .crashed] }
  else
    match r.files.saveSnapshot t.path (t.slot.text r.memory) with
    | (.ok _, files) => { r with files, calls := r.calls ++ [.attempted t.name .written] }
    | (.error e, files) => { r with files, calls := r.calls ++ [.attempted t.name (.failed e)] }

/-- Write the snapshot of a target if its store has changed.  The flag is cleared first, so that
    a change made while the snapshot is written is not lost. -/
def visit (crashes : FlushTarget μ → Bool) (r : FlushRun μ) (t : FlushTarget μ) :
    FlushRun μ :=
  if t.slot.isDirty r.memory then
    attempt crashes
      { r with
        memory := t.slot.clearDirty r.memory
        calls := r.calls ++ [.askedDirty t.name true, .clearedDirty t.name] }
      t
  else { r with calls := r.calls ++ [.askedDirty t.name false] }

def round (crashes : FlushTarget μ → Bool) (targets : List (FlushTarget μ)) (r : FlushRun μ) :
    FlushRun μ :=
  targets.foldl (visit crashes) r

/-- Attempt to write the snapshots of all targets in order. -/
def final (crashes : FlushTarget μ → Bool) (targets : List (FlushTarget μ)) (r : FlushRun μ) :
    FlushRun μ :=
  targets.foldl (attempt crashes) r

end FlushRun

/-- A flusher: its targets, and whether it still runs. -/
structure Flusher (μ : Type) where
  targets : List (FlushTarget μ)
  running : Bool

namespace Flusher

variable {μ : Type}

/-- A flusher whose timer has started, whatever its interval is. -/
def start (targets : List (FlushTarget μ)) : Flusher μ := ⟨targets, true⟩

/-- One interval passes: a running flusher makes one round. -/
def tick (f : Flusher μ) (crashes : FlushTarget μ → Bool) (r : FlushRun μ) : FlushRun μ :=
  if f.running then r.round crashes f.targets else r

/-- Stop after a last flush of all targets; a flusher that was stopped does nothing. -/
def stop (f : Flusher μ) (crashes : FlushTarget μ → Bool) (r : FlushRun μ) :
    Flusher μ × FlushRun μ :=
  if f.running then ({ f with running := false }, r.final crashes f.targets) else (f, r)

end Flusher

end JobTrace
