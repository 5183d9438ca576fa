import JobTrace.Pipeline.Basic
import JobTrace.Proofs.Flushing.Calls
import JobTrace.Proofs.Pipeline.Handling

/-!
# Stopping a pipeline and what it leaves behind

A pipeline that is stopped finishes what is in its queue and then writes both snapshots, changed or
not.  They decode to what was encoded, and writing the second one leaves the first one alone; so
whoever opens them finds the contents that were remembered.
-/

namespace JobTrace

namespace Pipeline

/-- The intake of a pipeline that is being stopped with these records on their way. -/
def closing (p : Pipeline) (ss : List Submission) : Intake :=
  (ss.foldl Intake.submit p.intake).close

/-- The last flush of a pipeline that is being stopped. -/
def finalRun (p : Pipeline) (ss : List Submission) (fs : Files) : FlushRun Tracker :=
  (p.flusher.stop noCrash (FlushRun.start ((p.closing ss).drain p.parser).tracker fs)).2

theorem files_stopWith (p : Pipeline) (ss : List Submission) (fs : Files) :
    (p.stopWith ss fs).2 = (p.finalRun ss fs).files := rfl

/-- The last flush changes nothing in memory. -/
theorem intake_stopWith (p : Pipeline) (ss : List Submission) (fs : Files) :
    (p.stopWith ss fs).1.intake = (p.closing ss).drain p.parser := by
  have hmemory : (p.finalRun ss fs).memory = ((p.closing ss).drain p.parser).tracker := by
    simp only [finalRun, Flusher.stop]
    split
    · exact FlushRun.memory_final ..
    · rfl
  show { (p.closing ss).drain p.parser with tracker := (p.finalRun ss fs).memory } = _
  rw [hmemory]

/-! ### Nothing under way -/

/-- A pipeline that has nothing under way. -/
structure Ready (config : PipelineConfig) (parser : RecordParser) (p : Pipeline) : Prop where
  parser_eq : p.parser = parser
  flusher_eq : p.flusher = Flusher.start (targets config)
  idle : p.intake.Idle config.queueCapacity

variable {config : PipelineConfig} {parser : RecordParser} {p : Pipeline} {fs : Files}

theorem ready_start (config : PipelineConfig) (parser : RecordParser) (fs : Files) :
    Ready config parser (Pipeline.start config parser fs) :=
  ⟨rfl, rfl, Intake.idle_start ..⟩

theorem ready_submitAll (h : Ready config parser p) (s : Submission) :
    Ready config parser (p.submitAll [s]) ∧
      (p.submitAll [s]).tracker = p.tracker.handleAll parser [s] := by
  obtain ⟨outcomes, hdrain⟩ := Intake.drain_of_noWaiting p.parser
    (q := { p.intake with queue := [s] }) h.idle.waiting_eq
  have hintake : (p.submitAll [s]).intake = (p.intake.submit s).drain p.parser := rfl
  rw [Intake.submit_idle h.idle, hdrain] at hintake
  refine ⟨⟨h.parser_eq, h.flusher_eq, ?_⟩, ?_⟩
  · rw [hintake]
    exact ⟨h.idle.capacity_eq, h.idle.accepting, rfl, h.idle.waiting_eq⟩
  · rw [tracker, hintake, ← h.parser_eq]
    rfl

theorem watch_submit (h : Ready config parser p) (s : Submission) :
    (p.intake.submit s).watch p.parser (p.intake.submit s).pending =
      p.tracker.recount parser [s] := by
  have hsubmit := Intake.submit_idle h.idle s
  have hpending : (p.intake.submit s).pending = (p.intake.submit s).queue.length := by
    simp [hsubmit, Intake.pending, h.idle.waiting_eq]
  rw [hpending, Intake.watch_queue (by rw [hsubmit]; exact h.idle.waiting_eq), hsubmit,
    ← h.parser_eq]
  rfl

/-- Stopping turns away whoever has found no room. -/
theorem closing_eq (h : Ready config parser p) (ss : List Submission) :
    ∃ outcomes, p.closing ss =
      { p.intake with
        accepting := false
        queue := ss.take (max config.queueCapacity 1)
        waiting := []
        outcomes } := by
  rw [closing, Intake.foldl_submit_idle h.idle, Intake.close_eq]
  exact ⟨_, rfl⟩

theorem watch_closing (h : Ready config parser p) (ss : List Submission) :
    (p.closing ss).watch p.parser (p.closing ss).pending =
      p.tracker.recount parser (ss.take (max config.queueCapacity 1)) := by
  obtain ⟨outcomes, hclosing⟩ := closing_eq h ss
  have hpending : (p.closing ss).pending = (p.closing ss).queue.length := by
    simp [hclosing, Intake.pending]
  rw [hpending, Intake.watch_queue (by rw [hclosing]), hclosing, ← h.parser_eq]
  rfl

theorem tracker_drain_closing (h : Ready config parser p) (ss : List Submission) :
    ((p.closing ss).drain p.parser).tracker =
      p.tracker.handleAll parser (ss.take (max config.queueCapacity 1)) := by
  obtain ⟨outcomes, hclosing⟩ := closing_eq h ss
  obtain ⟨outcomes', hdrain⟩ := Intake.drain_of_noWaiting p.parser (q := p.closing ss)
    (by rw [hclosing])
  rw [hdrain, hclosing, ← h.parser_eq]
  rfl

/-! ### Flushing -/

theorem alike_clearDirty {target : FlushTarget Tracker} (h : target ∈ targets config)
    (t : Tracker) : (target.slot.clearDirty t).Alike t := by
  rcases List.mem_cons.1 h with rfl | h
  · exact ⟨rfl, rfl⟩
  · cases hprops : config.propertySnapshot with
    | none => simp [hprops] at h
    | some path =>
      obtain rfl : target = _ := by simpa [hprops] using h
      exact ⟨rfl, rfl⟩

theorem tick_keeps (h : Ready config parser p) (fs : Files) :
    Ready config parser (p.tick fs).1 ∧ (p.tick fs).1.tracker.Alike p.tracker ∧
      fs.SameDirectories (p.tick fs).2 := by
  obtain ⟨hmemory, hsame⟩ := FlushRun.round_keeps noCrash Tracker.Alike.refl
    Tracker.Alike.trans (fun _ => alike_clearDirty) (FlushRun.start p.tracker fs)
  have htick : p.flusher.tick noCrash (FlushRun.start p.tracker fs) =
      (FlushRun.start p.tracker fs).round noCrash (targets config) := by
    rw [h.flusher_eq]
    rfl
  unfold tick
  rw [htick]
  exact ⟨⟨h.parser_eq, h.flusher_eq, ⟨h.idle.capacity_eq, h.idle.accepting, h.idle.queue_eq,
    h.idle.waiting_eq⟩⟩, hmemory, hsame⟩

/-- The snapshots and their temporary siblings are in places of their own. -/
def Separate (config : PipelineConfig) (fs : Files) (properties : Path) : Prop :=
  [config.stateSnapshot, config.stateSnapshot.temporary, properties, properties.temporary].Pairwise
    fs.Apart

theorem Separate.apart {properties : Path} (h : Separate config fs properties) :
    fs.Apart properties config.stateSnapshot ∧
      fs.Apart properties.temporary config.stateSnapshot := by
  have hstate := (List.pairwise_cons.1 h).1
  exact ⟨(hstate properties (by simp)).symm, (hstate properties.temporary (by simp)).symm⟩

theorem Separate.of_sameDirectories {properties : Path} {fs' : Files}
    (h : Separate config fs properties) (hsame : fs.SameDirectories fs') :
    Separate config fs' properties :=
  h.imp hsame.apart

/-- When both snapshots were saved, opening them gives back what was remembered. -/
theorem alike_openTracker {properties : Path} (hprops : config.propertySnapshot = some properties)
    (hseparate : Separate config fs properties) {t : Tracker} {fs' : Files}
    (hsaved : FlushRun.Saved t (targets config) fs fs') : (openTracker config fs').Alike t := by
  have htargets : targets config =
      [⟨"job-states", Tracker.stateSlot, config.stateSnapshot⟩,
        ⟨"job-properties", Tracker.propertySlot, properties⟩] := by
    simp [targets, hprops]
  rw [htargets] at hsaved
  obtain ⟨files, hstates, fs', hproperties, rfl⟩ := hsaved
  have hsame := Files.sameDirectories_saveSnapshot fs config.stateSnapshot t.states.text
  rw [show fs.saveSnapshot config.stateSnapshot t.states.text = (.ok (), files) from hstates]
    at hsame
  -- The second snapshot is saved elsewhere, so the first one is still there.
  have hkept : fs'.find? config.stateSnapshot = files.find? config.stateSnapshot := by
    have hfind := Files.find?_saveSnapshot_apart (hsame.apart hseparate.apart.1)
      (hsame.apart hseparate.apart.2) t.properties.text
    rw [show files.saveSnapshot properties t.properties.text = (.ok (), fs') from hproperties]
      at hfind
    exact hfind
  have hreadStates : files.read config.stateSnapshot = .ok (Store.encode t.states.contents) :=
    Files.read_of_saveSnapshot hstates
  have hreadProperties : fs'.read properties = .ok (Store.encode t.properties.contents) :=
    Files.read_of_saveSnapshot hproperties
  constructor
  · show (Store.openAt config.stateSnapshot fs' : StateStore).contents = t.states.contents
    rw [Store.openAt_eq_of_find?_eq hkept, Store.openAt_of_read hreadStates]
  · simp only [openTracker, hprops]
    rw [Store.openAt_of_read hreadProperties]

end Pipeline

end JobTrace
