import JobTrace.Proofs.Pipeline.Traffic

/-!
# What a pipeline does is one order of steps

The operations of an intake are traffic: submitting is coming and then getting in or being turned
away, serving a record is taking it, dealing with it and letting somebody else in, and closing turns
away whoever waits.  So what holds of all traffic holds of a pipeline whose operations are called
one after the other (`Traffic.exists_leads_stopWith`).

From wherever the traffic is, the pipeline can be stopped: the worker deals with what is in the
queue and ends, and nobody waits any longer.  What is said here of workers that have ended is
therefore said of every traffic, once it has come to an end.
-/

namespace JobTrace

def TrafficEvent.caller? : TrafficEvent → Option Submission
  | .call s => some s
  | _ => none

namespace Traffic

variable {config : PipelineConfig} {parser : RecordParser} {v v' v'' : Traffic}
  {ss ss' : List Submission} {q q' : Intake}

/-- One traffic may become the other while these submitters come and nobody else does. -/
def Leads (config : PipelineConfig) (parser : RecordParser) (v : Traffic) (ss : List Submission)
    (v' : Traffic) : Prop :=
  ∃ events, events.filterMap TrafficEvent.caller? = ss ∧ v.run config parser events = v'

namespace Leads

theorem refl (v : Traffic) : Leads config parser v [] v := ⟨[], rfl, rfl⟩

theorem trans (h : Leads config parser v ss v') (h' : Leads config parser v' ss' v'') :
    Leads config parser v (ss ++ ss') v'' := by
  obtain ⟨events, rfl, rfl⟩ := h
  obtain ⟨events', rfl, rfl⟩ := h'
  exact ⟨events ++ events', List.filterMap_append, run_append v events events'⟩

theorem call (v : Traffic) (s : Submission) :
    Leads config parser v [s] (v.step config parser (.call s)) := ⟨[.call s], rfl, rfl⟩

theorem next (h : Leads config parser v ss v') (e : TrafficEvent) (he : e.caller? = none) :
    Leads config parser v ss (v'.step config parser e) := by
  have hstep : Leads config parser v' [] (v'.step config parser e) := by
    refine ⟨[e], ?_, rfl⟩
    rw [List.filterMap_cons, he]
    rfl
  have hboth := h.trans hstep
  rwa [List.append_nil] at hboth

theorem queued (h : Leads config parser v ss v') (hqueued : Queued v) : Queued v' := by
  obtain ⟨events, -, rfl⟩ := h
  exact hqueued.run events

end Leads

/-! ### Events whose turn it is -/

section
variable (config parser)

theorem step_enter {front back : List Submission} {s : Submission}
    (hwaiting : v.intake.waiting = front ++ s :: back) (haccepting : v.intake.accepting = true)
    (hroom : v.intake.queue.length < v.intake.capacity) :
    v.step config parser (.enter front.length) =
      { v with
        intake := { v.intake with queue := v.intake.queue ++ [s], waiting := front ++ back }
        accepted := v.accepted ++ [s] } := by
  have hplace : v.intake.waiting[front.length]? = some s := by
    rw [hwaiting, List.getElem?_append_right (Nat.le_refl _), Nat.sub_self]
    rfl
  have herase : v.intake.waiting.eraseIdx front.length = front ++ back := by
    rw [hwaiting, List.eraseIdx_append_of_length_le (Nat.le_refl _), Nat.sub_self]
    rfl
  simp [step, hplace, herase, haccepting, hroom]

theorem step_turnAway {s : Submission} {rest : List Submission}
    (hwaiting : v.intake.waiting = s :: rest) (hclosed : v.intake.accepting = false) :
    v.step config parser (.turnAway 0) =
      { v with
        intake := ({ v.intake with waiting := rest } : Intake).tell s .closed
        refused := v.refused ++ [s] } := by
  simp [step, hwaiting, hclosed]

theorem step_receive_finish {s : Submission} {rest : List Submission} (hready : v.worker = .ready)
    (hqueue : v.intake.queue = s :: rest) :
    (v.step config parser .receive).step config parser .finish =
      { v with
        intake :=
          { v.intake with
            queue := rest
            tracker := (v.intake.tracker.handle parser s).2
            outcomes := v.intake.outcomes ++
              [(s.ticket, .ofMessages? (v.intake.tracker.handle parser s).1)] }
        handled := v.handled ++ [s] } := by
  simp [step, hready, hqueue, Intake.tell]

theorem step_finish {s : Submission} (hbusy : v.worker = .busy s) :
    (v.step config parser .finish).worker = .ready := by
  simp [step, hbusy]

theorem step_leave (hready : v.worker = .ready) (hqueue : v.intake.queue = [])
    (hclosed : v.intake.accepting = false) :
    v.step config parser .leave = { v with worker := .ended } := by
  simp [step, hready, hqueue, hclosed]

theorem step_stop_close (hready : v.worker = .ready) :
    (v.step config parser .stop).step config parser .close =
      { v with stopping := true, intake := { v.intake with accepting := false } } := by
  simp [step, hready]

/-- Whoever waits for a closed queue is turned away. -/
theorem exists_leads_turnAway (hclosed : v.intake.accepting = false) :
    ∃ v', Leads config parser v [] v' ∧ v'.worker = v.worker ∧
      v'.intake =
        { v.intake with
          waiting := []
          outcomes := v.intake.outcomes ++
            v.intake.waiting.map fun s => (s.ticket, .closed) } := by
  generalize hwaiting : v.intake.waiting = ss
  induction ss generalizing v with
  | nil =>
    refine ⟨v, .refl v, rfl, ?_⟩
    rw [List.map_nil, List.append_nil, ← hwaiting]
  | cons s ss ih =>
    have hstep := step_turnAway config parser hwaiting hclosed
    obtain ⟨v', hleads, hworker, hintake⟩ := ih (v := v.step config parser (.turnAway 0))
      (by rw [hstep]; exact hclosed) (by rw [hstep]; rfl)
    refine ⟨v', ((Leads.refl v).next (.turnAway 0) rfl).trans hleads, ?_, ?_⟩
    · rw [hworker, hstep]
    · rw [hintake, hstep]
      simp [Intake.tell]

end

/-! ### The operations of an intake -/

/-- The worker is between two records, and nobody waits for a closed queue. -/
structure Serving (v : Traffic) : Prop where
  ready : v.worker = .ready
  room : v.intake.queue.length ≤ v.intake.capacity
  waiting : v.intake.accepting = false → v.intake.waiting = []

/-- The intake may become this one while these submitters come. -/
def Reaches (config : PipelineConfig) (parser : RecordParser) (v : Traffic) (ss : List Submission)
    (q : Intake) : Prop :=
  ∃ v', Leads config parser v ss v' ∧ Serving v' ∧ v'.intake = q

theorem Leads.reaches (h : Leads config parser v ss v') (h' : Reaches config parser v' ss' q) :
    Reaches config parser v (ss ++ ss') q := by
  obtain ⟨v'', hleads, hserving, hintake⟩ := h'
  exact ⟨v'', h.trans hleads, hserving, hintake⟩

namespace Reaches

theorem refl (h : Serving v) : Reaches config parser v [] v.intake := ⟨v, .refl v, h, rfl⟩

theorem trans (h : Reaches config parser v ss q)
    (hnext : ∀ v', Serving v' → v'.intake = q → Reaches config parser v' ss' q') :
    Reaches config parser v (ss ++ ss') q' := by
  obtain ⟨v', hleads, hserving, hintake⟩ := h
  exact hleads.reaches (hnext v' hserving hintake)

theorem foldl {α : Type} {f : Intake → α → Intake} {callers : α → List Submission}
    (hstep : ∀ v x, Serving v → Reaches config parser v (callers x) (f v.intake x))
    (h : Serving v) (xs : List α) :
    Reaches config parser v (xs.flatMap callers) (xs.foldl f v.intake) := by
  induction xs generalizing v with
  | nil => exact refl h
  | cons x xs ih =>
    refine (hstep v x h).trans ?_
    intro v' hserving hintake
    rw [List.foldl_cons, ← hintake]
    exact ih hserving

end Reaches

namespace Serving

theorem start (config : PipelineConfig) (parser : RecordParser) (fs : Files) :
    Serving (Traffic.start config parser fs) :=
  ⟨rfl, Nat.zero_le _, fun _ => rfl⟩

theorem submit (h : Serving v) (s : Submission) :
    Reaches config parser v [s] (v.intake.submit s) := by
  have hcall : Leads config parser v [s] _ := .call v s
  cases haccepting : v.intake.accepting with
  | false =>
    have hnobody := h.waiting haccepting
    have hsubmit : v.intake.submit s = v.intake.tell s .closed := by
      simp [Intake.submit, haccepting]
    have hwaiting : (v.step config parser (.call s)).intake.waiting = [s] := by
      simp only [step, hnobody, List.nil_append]
    have hstep := step_turnAway config parser hwaiting haccepting
    refine ⟨_, hcall.next (.turnAway 0) rfl, ?_, ?_⟩
    · rw [hstep]
      exact ⟨h.ready, h.room, fun _ => rfl⟩
    · rw [hstep, hsubmit]
      simp [step, Intake.tell, hnobody]
  | true =>
    have hopen : ∀ {p : Prop}, v.intake.accepting = false → p := by
      intro p hclosed
      exact absurd (haccepting.symm.trans hclosed) (by decide)
    by_cases hroom : v.intake.queue.length < v.intake.capacity
    · have hsubmit : v.intake.submit s = { v.intake with queue := v.intake.queue ++ [s] } := by
        simp [Intake.submit, haccepting, hroom]
      have hwaiting : (v.step config parser (.call s)).intake.waiting =
          v.intake.waiting ++ s :: [] := rfl
      have hstep := step_enter config parser hwaiting haccepting hroom
      refine ⟨_, hcall.next (.enter v.intake.waiting.length) rfl, ?_, ?_⟩
      · rw [hstep]
        refine ⟨h.ready, ?_, hopen⟩
        show (v.intake.queue ++ [s]).length ≤ v.intake.capacity
        rw [List.length_append]
        exact hroom
      · rw [hstep, hsubmit]
        simp [step]
    · have hsubmit : v.intake.submit s = { v.intake with waiting := v.intake.waiting ++ [s] } := by
        simp [Intake.submit, haccepting, hroom]
      exact ⟨_, hcall, ⟨h.ready, h.room, hopen⟩, hsubmit.symm⟩

theorem fillRoom (h : Serving v) (hroom : v.intake.queue.length < v.intake.capacity) :
    Reaches config parser v [] v.intake.fillRoom := by
  cases hwaiting : v.intake.waiting with
  | nil =>
    have hfill : v.intake.fillRoom = v.intake := by simp [Intake.fillRoom, hwaiting]
    rw [hfill]
    exact .refl h
  | cons s rest =>
    have haccepting : v.intake.accepting = true := by
      cases hclosed : v.intake.accepting with
      | false => exact absurd (hwaiting.symm.trans (h.waiting hclosed)) (by simp)
      | true => rfl
    have hfill : v.intake.fillRoom =
        { v.intake with queue := v.intake.queue ++ [s], waiting := rest } := by
      simp [Intake.fillRoom, hwaiting]
    have hfirst : v.intake.waiting = [] ++ s :: rest := hwaiting
    have hstep := step_enter config parser hfirst haccepting hroom
    rw [List.length_nil, List.nil_append] at hstep
    refine ⟨_, (Leads.refl v).next (.enter 0) rfl, ?_, ?_⟩
    · rw [hstep]
      refine ⟨h.ready, ?_, ?_⟩
      · show (v.intake.queue ++ [s]).length ≤ v.intake.capacity
        rw [List.length_append]
        exact hroom
      · intro hclosed
        exact absurd (haccepting.symm.trans hclosed) (by decide)
    · rw [hstep, hfill]

theorem serve (h : Serving v) : Reaches config parser v [] (v.intake.serve parser) := by
  cases hqueue : v.intake.queue with
  | nil =>
    have hserve : v.intake.serve parser = v.intake := by simp [Intake.serve, hqueue]
    rw [hserve]
    exact .refl h
  | cons s rest =>
    have hdealt : Leads config parser v [] _ := ((Leads.refl v).next .receive rfl).next .finish rfl
    have hroom := h.room
    rw [hqueue, List.length_cons] at hroom
    rw [step_receive_finish config parser h.ready hqueue] at hdealt
    rw [Intake.serve_cons parser hqueue]
    exact hdealt.reaches (fillRoom ⟨h.ready, Nat.le_of_succ_le hroom, h.waiting⟩ hroom)

theorem submits (h : Serving v) (ss : List Submission) :
    Reaches config parser v ss (ss.foldl Intake.submit v.intake) := by
  have hsubmit : ∀ v (s : Submission), Serving v →
      Reaches config parser v [s] (v.intake.submit s) := fun v s h => h.submit s
  have hall := Reaches.foldl hsubmit h ss
  rwa [List.flatMap_singleton'] at hall

theorem drain (h : Serving v) : Reaches config parser v [] (v.intake.drain parser) := by
  have hserve : ∀ v (_ : Nat), Serving v →
      Reaches config parser v [] (v.intake.serve parser) := fun v _ h => h.serve
  have hall := Reaches.foldl (f := fun q _ => q.serve parser) hserve h
    (List.range v.intake.pending)
  rwa [List.flatMap_eq_nil_iff.2 fun _ _ => rfl] at hall

end Serving

/-! ### Coming to an end -/

theorem reaches_close (hready : v.worker = .ready)
    (hroom : v.intake.queue.length ≤ v.intake.capacity) :
    Reaches config parser v [] v.intake.close := by
  have hclosing : Leads config parser v [] _ := ((Leads.refl v).next .stop rfl).next .close rfl
  rw [step_stop_close config parser hready] at hclosing
  obtain ⟨v', hleads, hworker, hintake⟩ := exists_leads_turnAway config parser
    (v := { v with stopping := true, intake := { v.intake with accepting := false } }) rfl
  refine ⟨v', hclosing.trans hleads, ⟨hworker.trans hready, ?_, ?_⟩, ?_⟩
  · rw [hintake]
    exact hroom
  · intro _
    rw [hintake]
  · rw [hintake, Intake.close_eq]

/-- The worker closes the queue, deals with what is in it, and ends. -/
theorem exists_leads_ended_of_ready (hready : v.worker = .ready)
    (hroom : v.intake.queue.length ≤ v.intake.capacity) :
    ∃ v', Leads config parser v [] v' ∧ v'.worker = .ended ∧
      v'.intake = v.intake.close.drain parser := by
  have hclose : Reaches config parser v [] v.intake.close := reaches_close hready hroom
  have hdrain : Reaches config parser v [] (v.intake.close.drain parser) := by
    refine hclose.trans ?_
    intro v' hserving hintake
    rw [← hintake]
    exact hserving.drain
  obtain ⟨v', hleads, hserving, hintake⟩ := hdrain
  obtain ⟨hclosed, hqueue, -⟩ := v.intake.drain_close parser
  have hleave := step_leave config parser hserving.ready (by rw [hintake, hqueue])
    (by rw [hintake, hclosed])
  refine ⟨_, hleads.next .leave rfl, ?_, ?_⟩
  · rw [hleave]
  · rw [hleave, hintake]

/-! ### Every traffic can come to its end -/

theorem Queued.exists_leads_ended (h : Queued v) :
    ∃ v', Leads config parser v [] v' ∧ v'.worker = .ended ∧ v'.intake.waiting = [] := by
  cases hworker : v.worker with
  | ready =>
    obtain ⟨v', hleads, hended, hintake⟩ := exists_leads_ended_of_ready hworker h.room
    exact ⟨v', hleads, hended, by rw [hintake, (v.intake.drain_close parser).2.2]⟩
  | busy s =>
    have hfinish : Leads config parser v [] _ := (Leads.refl v).next .finish rfl
    have hready := step_finish config parser hworker
    obtain ⟨v', hleads, hended, hintake⟩ := exists_leads_ended_of_ready hready
      (hfinish.queued h).room
    exact ⟨v', hfinish.trans hleads, hended, by rw [hintake, (Intake.drain_close parser _).2.2]⟩
  | ended =>
    -- The worker has left nothing in the queue, but somebody may still wait for room.
    obtain ⟨hclosed, -⟩ := h.ended hworker
    obtain ⟨v', hleads, hsame, hintake⟩ := exists_leads_turnAway config parser hclosed
    refine ⟨v', hleads, hsame.trans hworker, ?_⟩
    rw [hintake]

/-! ### Clearing flags -/

/-- The tracker of a pipeline may change from one to the other when flags are cleared. -/
def Clears (config : PipelineConfig) (parser : RecordParser) (t' t : Tracker) : Prop :=
  ∀ v, Serving v → v.intake.tracker = t →
    Reaches config parser v [] { v.intake with tracker := t' }

namespace Clears

variable {t t' t'' : Tracker}

theorem refl (t : Tracker) : Clears config parser t t := by
  intro v h ht
  rw [← ht]
  exact .refl h

theorem trans (hlast : Clears config parser t t') (hfirst : Clears config parser t' t'') :
    Clears config parser t t'' := by
  intro v h ht
  refine (hfirst v h ht).trans ?_
  intro v' h' hintake
  have hreach := hlast v' h' (by rw [hintake])
  rwa [hintake] at hreach

theorem of_target {target : FlushTarget Tracker} (htarget : target ∈ Pipeline.targets config)
    (t : Tracker) : Clears config parser (target.slot.clearDirty t) t := by
  intro v h ht
  obtain ⟨place, hplace⟩ := List.getElem?_of_mem htarget
  have hstep : v.step config parser (.clearFlag place) =
      { v with
        intake := { v.intake with tracker := target.slot.clearDirty v.intake.tracker }
        flushed := true } := by
    simp [step, hplace]
  refine ⟨_, (Leads.refl v).next (.clearFlag place) rfl, ?_, ?_⟩
  · rw [hstep]
    exact ⟨h.ready, h.room, h.waiting⟩
  · rw [hstep, ← ht]

end Clears

/-! ### A pipeline and its traffic -/

/-- The traffic of a pipeline whose operations are called one after the other. -/
structure Mirrors (config : PipelineConfig) (parser : RecordParser) (p : Pipeline) (v : Traffic) :
    Prop where
  parser_eq : p.parser = parser
  targets_eq : p.flusher.targets = Pipeline.targets config
  intake_eq : v.intake = p.intake
  serving : Serving v

namespace Mirrors

variable {p : Pipeline}

theorem start (config : PipelineConfig) (parser : RecordParser) (fs : Files) :
    Mirrors config parser (Pipeline.start config parser fs) (Traffic.start config parser fs) :=
  ⟨rfl, rfl, rfl, Serving.start config parser fs⟩

theorem submitAll (h : Mirrors config parser p v) (ss : List Submission) :
    ∃ v', Leads config parser v ss v' ∧ Mirrors config parser (p.submitAll ss) v' := by
  have hsubmit : Reaches config parser v ss _ := h.serving.submits ss
  obtain ⟨v', hsubmitted, hserving, hv'⟩ := hsubmit
  have hdrain : Reaches config parser v' [] _ := hserving.drain
  obtain ⟨v'', hleads, hserving', hv''⟩ := hsubmitted.reaches hdrain
  rw [List.append_nil] at hleads
  refine ⟨v'', hleads, h.parser_eq, h.targets_eq, ?_, hserving'⟩
  rw [hv'', hv', h.intake_eq, ← h.parser_eq]
  rfl

theorem tick (h : Mirrors config parser p v) (fs : Files) :
    ∃ v', Leads config parser v [] v' ∧ Mirrors config parser (p.tick fs).1 v' := by
  have htick : Clears config parser
      (p.flusher.tick Pipeline.noCrash (FlushRun.start p.tracker fs)).memory p.tracker := by
    rw [Flusher.tick, h.targets_eq]
    split
    · exact (FlushRun.round_keeps Pipeline.noCrash Clears.refl Clears.trans
        (fun _ => Clears.of_target) (FlushRun.start p.tracker fs)).1
    · exact .refl p.tracker
  obtain ⟨v', hleads, hserving, hintake⟩ := htick v h.serving (congrArg Intake.tracker h.intake_eq)
  refine ⟨v', hleads, h.parser_eq, h.targets_eq, ?_, hserving⟩
  rw [hintake, h.intake_eq]
  rfl

theorem stopWith (h : Mirrors config parser p v) (ss : List Submission) (fs : Files) :
    ∃ v', Leads config parser v ss v' ∧ v'.worker = .ended ∧
      v'.intake = (p.stopWith ss fs).1.intake := by
  have hsubmit : Reaches config parser v ss _ := h.serving.submits ss
  obtain ⟨v', hsubmitted, hserving, hv'⟩ := hsubmit
  obtain ⟨v'', hstopped, hended, hv''⟩ := exists_leads_ended_of_ready hserving.ready hserving.room
  refine ⟨v'', ?_, hended, ?_⟩
  · have hboth := hsubmitted.trans hstopped
    rwa [List.append_nil] at hboth
  · rw [hv'', hv', h.intake_eq, Pipeline.intake_stopWith, Pipeline.closing, h.parser_eq]

end Mirrors

/-- What is done to a pipeline that runs. -/
inductive PipelineCall where
  | submitAll (ss : List Submission)
  | tick (fs : Files)

namespace PipelineCall

def submitters : PipelineCall → List Submission
  | submitAll ss => ss
  | tick _ => []

def apply (p : Pipeline) : PipelineCall → Pipeline
  | submitAll ss => p.submitAll ss
  | tick fs => (p.tick fs).1

end PipelineCall

theorem Mirrors.calls {p : Pipeline} (h : Mirrors config parser p v) (calls : List PipelineCall) :
    ∃ v', Leads config parser v (calls.flatMap PipelineCall.submitters) v' ∧
      Mirrors config parser (calls.foldl PipelineCall.apply p) v' := by
  induction calls generalizing p v with
  | nil => exact ⟨v, .refl v, h⟩
  | cons c calls ih =>
    have hcall : ∃ v', Leads config parser v c.submitters v' ∧
        Mirrors config parser (c.apply p) v' := by
      cases c with
      | submitAll ss => exact h.submitAll ss
      | tick fs => exact h.tick fs
    obtain ⟨v', hleads, hmirrors⟩ := hcall
    obtain ⟨v'', hrest, hlast⟩ := ih hmirrors
    exact ⟨v'', hleads.trans hrest, hlast⟩

/-- A pipeline that is used for a while and then stopped goes one of the ways that its traffic can
    go. -/
theorem exists_leads_stopWith (config : PipelineConfig) (parser : RecordParser) (fs : Files)
    (calls : List PipelineCall) (ss : List Submission) (fs' : Files) :
    let p := calls.foldl PipelineCall.apply (Pipeline.start config parser fs)
    ∃ v, Leads config parser (start config parser fs)
        (calls.flatMap PipelineCall.submitters ++ ss) v ∧
      v.worker = .ended ∧ v.intake = (p.stopWith ss fs').1.intake := by
  intro p
  obtain ⟨v, hleads, hmirrors⟩ := (Mirrors.start config parser fs).calls calls
  obtain ⟨v', hstop, hended, hintake⟩ := hmirrors.stopWith ss fs'
  exact ⟨v', hleads.trans hstop, hended, hintake⟩

/-! ### One record after the other -/

theorem Queued.handled_of_ended (h : Queued v) (hended : v.worker = .ended) :
    v.handled = v.accepted := by
  obtain ⟨-, hqueue⟩ := h.ended hended
  rw [h.order, hqueue, List.append_nil]
  simp [inHand, hended]

theorem Settled.outcomes_perm {t : Tracker} (h : Settled parser t v) :
    v.intake.outcomes.Perm
      (t.replies parser v.handled ++ v.refused.map fun s => (s.ticket, .closed)) := by
  have hboth := List.filter_append_perm (fun o => decide (o.2 ≠ .closed)) v.intake.outcomes
  have hrest : (v.intake.outcomes.filter fun o => !decide (o.2 ≠ .closed)) =
      v.intake.outcomes.filter fun o => o.2 = .closed := by
    congr 1
    funext o
    simp
  rw [hrest, h.replies, h.refusals] at hboth
  exact hboth.symm

theorem Settled.told_once {t : Tracker} (h : Settled parser t v) :
    (v.intake.outcomes.map Prod.fst).Perm ((v.handled ++ v.refused).map Submission.ticket) := by
  have htickets := h.outcomes_perm.map Prod.fst
  rw [List.map_append, Tracker.tickets_replies, List.map_map] at htickets
  rw [List.map_append]
  exact htickets

/-- In whatever order the steps of submitters, worker, flusher and stopping are taken, a pipeline
    does what processing the accepted records one after the other does.  Once the queue is closed no
    record is accepted any longer, and when the worker has ended all that were accepted have been
    processed. -/
theorem traffic_in_order (config : PipelineConfig) (parser : RecordParser) (fs : Files)
    (events : List TrafficEvent) :
    let t := Pipeline.openTracker config fs
    let v := (start config parser fs).run config parser events
    Queued v ∧ Settled parser t v ∧
      (v.intake.outcomes.map Prod.fst).Perm ((v.handled ++ v.refused).map Submission.ticket) ∧
      (v.intake.accepting = false →
        ∀ later, (v.run config parser later).accepted = v.accepted) ∧
      (v.worker = .ended →
        v.stopping = true ∧ v.handled = v.accepted ∧
          v.intake.tracker.Alike (t.handleAll parser v.accepted) ∧
          v.intake.outcomes.Perm
            (t.replies parser v.accepted ++ v.refused.map fun s => (s.ticket, .closed))) ∧
      (∀ (u : Tracker) (s : Submission),
        ((u.handle parser s).1 = none ↔ parser.parse? s.raw s.fileType = none) ∧
          (parser.parse? s.raw s.fileType = none → (u.handle parser s).2 = u)) ∧
      ∃ v', Leads config parser v [] v' ∧ v'.worker = .ended ∧ v'.intake.waiting = [] := by
  intro t v
  have hqueued : Queued v := (queued_start config parser fs).run events
  have hsettled : Settled parser t v := (settled_start config parser fs).run events
  refine ⟨hqueued, hsettled, hsettled.told_once, ?_, ?_, Tracker.handle_crash parser,
    hqueued.exists_leads_ended⟩
  · intro hclosed later
    exact (accepted_run_of_closed hclosed later).1
  · intro hended
    have hhandled := hqueued.handled_of_ended hended
    obtain ⟨hclosed, -⟩ := hqueued.ended hended
    refine ⟨hqueued.closed hclosed, hhandled, ?_, ?_⟩
    · rw [← hhandled]
      exact hsettled.contents
    · rw [← hhandled]
      exact hsettled.outcomes_perm

end Traffic

end JobTrace
