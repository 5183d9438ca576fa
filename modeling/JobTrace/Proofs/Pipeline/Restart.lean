import JobTrace.Proofs.Pipeline.Stopping
import Mathlib

/-!
# A restart is not seen

A pipeline that is started again remembers the contents that it was stopped with.  Only the flags
of the stores are new, and nothing that a submitter is told depends on them.  So whoever submits
records cannot tell how often the pipeline was restarted between them.
-/

namespace JobTrace

/-- What happens to a pipeline that is kept in service. -/
inductive ServiceStep where
  /-- A record is submitted, and its outcome is waited for. -/
  | submit (s : Submission)
  /-- One interval of the flusher passes. -/
  | tick
  /-- The pipeline is stopped with these records on their way, and started again. -/
  | restart (queued : List Submission)

/-- A pipeline in service, the files, what was seen so far, and what the last flushes did. -/
structure Service where
  pipeline : Pipeline
  files : Files
  sightings : List Sighting
  finalCalls : List FlushCall

namespace Service

def start (config : PipelineConfig) (parser : RecordParser) (fs : Files) : Service :=
  ⟨Pipeline.start config parser fs, fs, [], []⟩

def step (config : PipelineConfig) (parser : RecordParser) (v : Service) : ServiceStep → Service
  | .submit s =>
    let q := v.pipeline.intake.submit s
    { v with
      pipeline := v.pipeline.submitAll [s]
      sightings := v.sightings ++ q.watch v.pipeline.parser q.pending }
  | .tick =>
    { v with
      pipeline := (v.pipeline.tick v.files).1
      files := (v.pipeline.tick v.files).2 }
  | .restart queued =>
    let q := v.pipeline.closing queued
    let files := (v.pipeline.stopWith queued v.files).2
    ⟨Pipeline.start config parser files, files,
      v.sightings ++ q.watch v.pipeline.parser q.pending,
      v.finalCalls ++ (v.pipeline.finalRun queued v.files).calls⟩

def run (config : PipelineConfig) (parser : RecordParser) (v : Service)
    (steps : List ServiceStep) : Service :=
  steps.foldl (step config parser) v

end Service

namespace ServiceStep

/-- The records that a step gets into the queue.  While the pipeline is being stopped nobody gets
    the room that a record leaves. -/
def taken (config : PipelineConfig) : ServiceStep → List Submission
  | submit s => [s]
  | tick => []
  | restart queued => queued.take (max config.queueCapacity 1)

/-- The same records and intervals without any restart. -/
def uninterrupted (config : PipelineConfig) (steps : List ServiceStep) : List ServiceStep :=
  steps.flatMap fun
    | .restart queued => (taken config (.restart queued)).map submit
    | s => [s]

end ServiceStep

/-! ### In service -/

namespace ServiceStep

theorem taken_map_submit (config : PipelineConfig) (ss : List Submission) :
    (ss.map submit).flatMap (taken config) = ss := by
  induction ss with
  | nil => rfl
  | cons s ss ih => exact congrArg (s :: ·) ih

theorem taken_uninterrupted (config : PipelineConfig) (steps : List ServiceStep) :
    (uninterrupted config steps).flatMap (taken config) = steps.flatMap (taken config) := by
  unfold uninterrupted
  rw [List.flatMap_assoc]
  congr 1
  funext s
  cases s with
  | submit s => simp
  | tick => simp
  | restart queued => exact taken_map_submit config _

theorem ne_restart_of_mem_uninterrupted {config : PipelineConfig} {steps : List ServiceStep}
    {s : ServiceStep} (h : s ∈ uninterrupted config steps) (queued : List Submission) :
    s ≠ restart queued := by
  obtain ⟨s', -, hs⟩ := List.mem_flatMap.1 h
  cases s' with
  | submit r =>
    rw [List.mem_singleton.1 hs]
    simp
  | tick =>
    rw [List.mem_singleton.1 hs]
    simp
  | restart queued' =>
    obtain ⟨r, -, rfl⟩ := List.mem_map.1 hs
    simp

end ServiceStep

namespace Service

variable {config : PipelineConfig} {parser : RecordParser} {properties : Path} {v : Service}
  {t : Tracker}

theorem mem_finalCalls_run {call : FlushCall} (h : call ∈ v.finalCalls)
    (steps : List ServiceStep) : call ∈ (v.run config parser steps).finalCalls := by
  induction steps generalizing v with
  | nil => exact h
  | cons s steps ih =>
    refine ih ?_
    cases s with
    | submit r => exact h
    | tick => exact h
    | restart queued => exact List.mem_append_left _ h

/-- Without restarts there are no last flushes. -/
theorem finalCalls_run {steps : List ServiceStep}
    (h : ∀ s ∈ steps, ∀ queued, s ≠ .restart queued) :
    (v.run config parser steps).finalCalls = v.finalCalls := by
  induction steps generalizing v with
  | nil => rfl
  | cons s steps ih =>
    have hrest := ih (v := v.step config parser s) fun s' hs' => h s' (List.mem_cons_of_mem _ hs')
    refine hrest.trans ?_
    cases s with
    | submit r => rfl
    | tick => rfl
    | restart queued => exact absurd rfl (h _ (List.mem_cons_self ..) queued)

/-- The pipeline has nothing under way, and no directory has come or gone. -/
structure Serving (config : PipelineConfig) (parser : RecordParser) (fs : Files) (v : Service) :
    Prop where
  ready : v.pipeline.Ready config parser
  directories : fs.SameDirectories v.files

theorem serving_start (config : PipelineConfig) (parser : RecordParser) (fs : Files) :
    Serving config parser fs (start config parser fs) :=
  ⟨Pipeline.ready_start .., .refl fs⟩

variable {fs : Files}

/-- The last flush of a service is that of the targets of its pipeline. -/
theorem Serving.finalRun_eq (h : Serving config parser fs v) (queued : List Submission) :
    v.pipeline.finalRun queued v.files =
      (FlushRun.start (v.pipeline.tracker.handleAll parser
          (queued.take (max config.queueCapacity 1))) v.files).final
        Pipeline.noCrash (Pipeline.targets config) := by
  unfold Pipeline.finalRun
  rw [Pipeline.tracker_drain_closing h.ready, h.ready.flusher_eq, Flusher.stop_start]

theorem Serving.of_step (h : Serving config parser fs v) (s : ServiceStep) :
    Serving config parser fs (v.step config parser s) := by
  cases s with
  | submit r => exact ⟨(Pipeline.ready_submitAll h.ready r).1, h.directories⟩
  | tick =>
    obtain ⟨hready, -, hsame⟩ := Pipeline.tick_keeps h.ready v.files
    exact ⟨hready, h.directories.trans hsame⟩
  | restart queued =>
    refine ⟨Pipeline.ready_start .., h.directories.trans ?_⟩
    show v.files.SameDirectories (v.pipeline.stopWith queued v.files).2
    rw [Pipeline.files_stopWith, h.finalRun_eq]
    exact FlushRun.sameDirectories_final (FlushRun.start _ v.files) _

/-- Where the snapshots can be written, the last flushes of a service succeed. -/
theorem written_of_mem_finalCalls (h : Serving config parser fs v)
    (hwritable : ∀ t ∈ Pipeline.targets config,
      fs.Writable t.path ∧ fs.Writable t.path.temporary)
    {steps : List ServiceStep} {call : FlushCall}
    (hcall : call ∈ (v.run config parser steps).finalCalls) :
    call ∈ v.finalCalls ∨ ∃ name, call = .attempted name .written := by
  induction steps generalizing v with
  | nil => exact .inl hcall
  | cons s steps ih =>
    rcases ih (h.of_step s) hcall with hcall | hwritten
    · cases s with
      | submit r => exact .inl hcall
      | tick => exact .inl hcall
      | restart queued =>
        rcases List.mem_append.1 hcall with hcall | hcall
        · exact .inl hcall
        · rw [h.finalRun_eq] at hcall
          have hnow : ∀ t ∈ Pipeline.targets config,
              v.files.Writable t.path ∧ v.files.Writable t.path.temporary := by
            intro t ht
            obtain ⟨hpath, htemporary⟩ := hwritable t ht
            exact ⟨h.directories.writable hpath, h.directories.writable htemporary⟩
          have hfinal := FlushRun.written_of_final (fun _ => rfl) hnow hcall
          exact .inr (hfinal.resolve_left List.not_mem_nil)
    · exact .inr hwritten

/-- One step of a service is seen as its records are by a tracker that remembers the same, and
    both remember the same afterwards. -/
theorem Serving.sightings_step (h : Serving config parser fs v)
    (halike : v.pipeline.tracker.Alike t) (hprops : config.propertySnapshot = some properties)
    (hseparate : Pipeline.Separate config fs properties) (s : ServiceStep)
    (hwritten : ∀ call ∈ (v.step config parser s).finalCalls,
      ∃ name, call = .attempted name .written) :
    (v.step config parser s).sightings = v.sightings ++ t.recount parser (s.taken config) ∧
      (v.step config parser s).pipeline.tracker.Alike (t.handleAll parser (s.taken config)) := by
  cases s with
  | submit r =>
    constructor
    · show v.sightings ++ _ = _
      rw [Pipeline.watch_submit h.ready, halike.recount]
      rfl
    · show (v.pipeline.submitAll [r]).tracker.Alike _
      rw [(Pipeline.ready_submitAll h.ready r).2]
      exact halike.handleAll parser [r]
  | tick =>
    obtain ⟨-, htick, -⟩ := Pipeline.tick_keeps h.ready v.files
    exact ⟨(List.append_nil v.sightings).symm, htick.trans halike⟩
  | restart queued =>
    constructor
    · show v.sightings ++ _ = _
      rw [Pipeline.watch_closing h.ready, halike.recount]
      rfl
    · have hcalls : ∀ call ∈ (v.pipeline.finalRun queued v.files).calls,
          ∃ name, call = .attempted name .written :=
        fun call hcall => hwritten call (List.mem_append_right _ hcall)
      rw [h.finalRun_eq] at hcalls
      have hsaved := FlushRun.saved_of_final hcalls
      rw [← h.finalRun_eq] at hsaved
      have hopen := Pipeline.alike_openTracker hprops
        (hseparate.of_sameDirectories h.directories) hsaved
      exact hopen.trans (halike.handleAll parser _)

/-- What is seen of a service is what one tracker makes of the records that got into the queue. -/
theorem Serving.sightings_run (h : Serving config parser fs v)
    (halike : v.pipeline.tracker.Alike t) (hprops : config.propertySnapshot = some properties)
    (hseparate : Pipeline.Separate config fs properties) {steps : List ServiceStep}
    (hwritten : ∀ call ∈ (v.run config parser steps).finalCalls,
      ∃ name, call = .attempted name .written) :
    (v.run config parser steps).sightings =
      v.sightings ++ t.recount parser (steps.flatMap (ServiceStep.taken config)) := by
  induction steps generalizing v t with
  | nil => exact (List.append_nil v.sightings).symm
  | cons s steps ih =>
    obtain ⟨hsightings, hnext⟩ := h.sightings_step halike hprops hseparate s fun call hcall =>
      hwritten call (mem_finalCalls_run hcall steps)
    have hrest := ih (h.of_step s) hnext hwritten
    rw [hsightings, List.append_assoc, ← Tracker.recount_append] at hrest
    exact hrest

/-- Restarts whose last flushes succeed are not seen: every record is answered as it is by one
    pipeline that handles all of them, and leaves the same contents in both stores. -/
theorem sightings_eq_uninterrupted (config : PipelineConfig) (parser : RecordParser) (fs : Files)
    (properties : Path) (hprops : config.propertySnapshot = some properties)
    (hseparate : Pipeline.Separate config fs properties) (steps : List ServiceStep)
    (hwritten : ∀ call ∈ ((start config parser fs).run config parser steps).finalCalls,
      ∃ name, call = .attempted name .written) :
    ((start config parser fs).run config parser steps).sightings =
      ((start config parser fs).run config parser
        (ServiceStep.uninterrupted config steps)).sightings := by
  have hserving := serving_start config parser fs
  have hnone : ((start config parser fs).run config parser
      (ServiceStep.uninterrupted config steps)).finalCalls = [] :=
    finalCalls_run fun s hs => ServiceStep.ne_restart_of_mem_uninterrupted hs
  rw [hserving.sightings_run (.refl _) hprops hseparate hwritten,
    hserving.sightings_run (.refl _) hprops hseparate (by simp [hnone]),
    ServiceStep.taken_uninterrupted]

/-! ### A job that is followed over a restart -/

/-- Both kinds of contents are kept beside each other. -/
def keepBoth : PipelineConfig :=
  { PipelineConfig.standard with
    queueCapacity := 1
    stateSnapshot := ⟨"s"⟩
    propertySnapshot := some ⟨"p"⟩ }

def bareRecord (ticket : Nat) (eventType : String) : Submission :=
  ⟨ticket, "\x7b\"event_type\":\"" ++ eventType ++ "\"\x7d", .event, [.plain "t" .statusTrace]⟩

/-- The job is created, it starts while the pipeline is being stopped, and its start is told once
    more to the next pipeline. -/
def overnight : List ServiceStep :=
  [.submit (bareRecord 1 EventType.jobNew), .tick,
    .restart [bareRecord 2 EventType.jobStartAccept],
    .submit (bareRecord 3 EventType.jobStartAccept)]

theorem writable_keepBoth : ∀ t ∈ Pipeline.targets keepBoth,
    Files.empty.Writable t.path ∧ Files.empty.Writable t.path.temporary := by
  have hs : (⟨"s"⟩ : Path).temporary = ⟨"s.tmp"⟩ := by cbv
  have hp : (⟨"p"⟩ : Path).temporary = ⟨"p.tmp"⟩ := by cbv
  intro t ht
  rcases List.mem_cons.1 ht with rfl | ht
  · show Files.empty.Writable ⟨"s"⟩ ∧ Files.empty.Writable (⟨"s"⟩ : Path).temporary
    rw [hs]
    exact ⟨Files.writable_empty (n := "s") (by cbv),
      Files.writable_empty (n := "s.tmp") (by cbv)⟩
  · obtain rfl := List.mem_singleton.1 ht
    show Files.empty.Writable ⟨"p"⟩ ∧ Files.empty.Writable (⟨"p"⟩ : Path).temporary
    rw [hp]
    exact ⟨Files.writable_empty (n := "p") (by cbv),
      Files.writable_empty (n := "p.tmp") (by cbv)⟩

theorem separate_keepBoth : Pipeline.Separate keepBoth .empty ⟨"p"⟩ := by
  apply Files.pairwise_apart_of_names_ne
  · decide +kernel
  · decide +kernel

theorem sightings_overnight :
    ((start keepBoth .json .empty).run keepBoth .json overnight).sightings =
      ((start keepBoth .json .empty).run keepBoth .json
        (ServiceStep.uninterrupted keepBoth overnight)).sightings := by
  refine sightings_eq_uninterrupted keepBoth .json .empty ⟨"p"⟩ rfl separate_keepBoth overnight ?_
  intro call hcall
  have hwritten := written_of_mem_finalCalls (serving_start keepBoth .json .empty)
    writable_keepBoth hcall
  exact hwritten.resolve_left List.not_mem_nil

end Service

end JobTrace
