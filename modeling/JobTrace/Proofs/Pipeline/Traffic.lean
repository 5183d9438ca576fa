import JobTrace.Proofs.Pipeline.Stopping

/-!
# Traffic through a pipeline

Submitters, the queue, the worker, the flusher and whoever stops the pipeline go on side by side.
A `Traffic` is what all of them see, and a `TrafficEvent` is what one of them does next; an event
whose turn it is not does nothing.  Every list of events is then an order of steps, and every order
is one.

A submitter first comes and then, in a step of its own, gets into the queue or is turned away;
whoever waits may be next.  The worker takes a record from the queue, and others may go on until it
has dealt with the record.  That the pipeline is being stopped is seen by the worker between two
records, and until it sees it the queue takes records: it closes the queue then, handles what is
still in it, and ends.  It has no other way to end: whoever can stop the pipeline could still submit
something, so the queue does not run out of submitters before.

The histories at the end of a `Traffic` record what happened and decide nothing.

`Queued` and `Settled` hold of every traffic: records go through the queue in the order in which
they were accepted, and what is told and remembered is what comes of them one after the other.
-/

namespace JobTrace

inductive WorkerStage where
  | ready
  | busy (s : Submission)
  | ended

/-- The intake of a pipeline, its worker, and what has happened so far. -/
structure Traffic where
  intake : Intake
  worker : WorkerStage
  stopping : Bool
  called : List Submission
  accepted : List Submission
  refused : List Submission
  handled : List Submission
  flushed : Bool

/-- What may happen next.  Submitters are known by their places among those who wait, and targets
    of the flusher by their places among the targets. -/
inductive TrafficEvent where
  | call (s : Submission)
  | enter (place : Nat)
  | turnAway (place : Nat)
  | receive
  | finish
  | stop
  | close
  | leave
  | clearFlag (target : Nat)

namespace Traffic

def start (config : PipelineConfig) (parser : RecordParser) (fs : Files) : Traffic :=
  ⟨(Pipeline.start config parser fs).intake, .ready, false, [], [], [], [], false⟩

/-- The record that the worker has taken and not yet dealt with. -/
def inHand (v : Traffic) : List Submission :=
  match v.worker with
  | .busy s => [s]
  | _ => []

def step (config : PipelineConfig) (parser : RecordParser) (v : Traffic) :
    TrafficEvent → Traffic
  | .call s =>
    { v with
      intake := { v.intake with waiting := v.intake.waiting ++ [s] }
      called := v.called ++ [s] }
  | .enter place =>
    match v.intake.waiting[place]? with
    | some s =>
      if v.intake.accepting ∧ v.intake.queue.length < v.intake.capacity then
        { v with
          intake :=
            { v.intake with
              queue := v.intake.queue ++ [s]
              waiting := v.intake.waiting.eraseIdx place }
          accepted := v.accepted ++ [s] }
      else v
    | none => v
  | .turnAway place =>
    match v.intake.waiting[place]? with
    | some s =>
      if v.intake.accepting then v
      else
        { v with
          intake := ({ v.intake with waiting := v.intake.waiting.eraseIdx place } : Intake).tell s
            .closed
          refused := v.refused ++ [s] }
    | none => v
  | .receive =>
    match v.worker, v.intake.queue with
    | .ready, s :: rest => { v with intake := { v.intake with queue := rest }, worker := .busy s }
    | _, _ => v
  | .finish =>
    match v.worker with
    | .busy s =>
      let (ms?, tracker) := v.intake.tracker.handle parser s
      { v with
        intake := ({ v.intake with tracker } : Intake).tell s (.ofMessages? ms?)
        worker := .ready
        handled := v.handled ++ [s] }
    | _ => v
  | .stop => { v with stopping := true }
  -- The worker looks for this between two records only, and may take further ones before it does.
  | .close =>
    match v.worker with
    | .ready =>
      if v.stopping then { v with intake := { v.intake with accepting := false } } else v
    | _ => v
  -- What was queued when the queue was closed is still received.
  | .leave =>
    match v.worker, v.intake.queue with
    | .ready, [] => if v.intake.accepting then v else { v with worker := .ended }
    | _, _ => v
  | .clearFlag target =>
    match (Pipeline.targets config)[target]? with
    | some t =>
      { v with
        intake := { v.intake with tracker := t.slot.clearDirty v.intake.tracker }
        flushed := true }
    | none => v

def run (config : PipelineConfig) (parser : RecordParser) (v : Traffic)
    (events : List TrafficEvent) : Traffic :=
  events.foldl (step config parser) v

variable {config : PipelineConfig} {parser : RecordParser} {v v' : Traffic}

theorem run_append (v : Traffic) (events later : List TrafficEvent) :
    v.run config parser (events ++ later) =
      (v.run config parser events).run config parser later := List.foldl_append ..

/-! ### What an event can do -/

/-- What an event can do. -/
inductive Moves (config : PipelineConfig) (parser : RecordParser) (v : Traffic) :
    Traffic → Prop where
  | stay : Moves config parser v v
  | call (s : Submission) :
      Moves config parser v
        { v with
          intake := { v.intake with waiting := v.intake.waiting ++ [s] }
          called := v.called ++ [s] }
  | enter (front : List Submission) (s : Submission) (back : List Submission)
      (hwaiting : v.intake.waiting = front ++ s :: back) (haccepting : v.intake.accepting = true)
      (hroom : v.intake.queue.length < v.intake.capacity) :
      Moves config parser v
        { v with
          intake := { v.intake with queue := v.intake.queue ++ [s], waiting := front ++ back }
          accepted := v.accepted ++ [s] }
  | turnAway (front : List Submission) (s : Submission) (back : List Submission)
      (hwaiting : v.intake.waiting = front ++ s :: back)
      (hclosed : v.intake.accepting = false) :
      Moves config parser v
        { v with
          intake := ({ v.intake with waiting := front ++ back } : Intake).tell s .closed
          refused := v.refused ++ [s] }
  | receive (s : Submission) (rest : List Submission) (hready : v.worker = .ready)
      (hqueue : v.intake.queue = s :: rest) :
      Moves config parser v
        { v with intake := { v.intake with queue := rest }, worker := .busy s }
  | finish (s : Submission) (hbusy : v.worker = .busy s) :
      Moves config parser v
        { v with
          intake := ({ v.intake with tracker := (v.intake.tracker.handle parser s).2 } :
            Intake).tell s (.ofMessages? (v.intake.tracker.handle parser s).1)
          worker := .ready
          handled := v.handled ++ [s] }
  | stop : Moves config parser v { v with stopping := true }
  | close (hready : v.worker = .ready) (hstopping : v.stopping = true) :
      Moves config parser v { v with intake := { v.intake with accepting := false } }
  | leave (hready : v.worker = .ready) (hqueue : v.intake.queue = [])
      (hclosed : v.intake.accepting = false) :
      Moves config parser v { v with worker := .ended }
  | clearFlag (t : FlushTarget Tracker) (ht : t ∈ Pipeline.targets config) :
      Moves config parser v
        { v with
          intake := { v.intake with tracker := t.slot.clearDirty v.intake.tracker }
          flushed := true }

theorem eraseIdx_of_getElem? {α : Type} {xs : List α} {place : Nat} {x : α}
    (h : xs[place]? = some x) :
    ∃ front back, xs = front ++ x :: back ∧ xs.eraseIdx place = front ++ back := by
  obtain ⟨hlt, rfl⟩ := List.getElem?_eq_some_iff.1 h
  refine ⟨xs.take place, xs.drop (place + 1), ?_, List.eraseIdx_eq_take_drop_succ ..⟩
  rw [List.getElem_cons_drop, List.take_append_drop]

theorem moves_step (config : PipelineConfig) (parser : RecordParser) (v : Traffic)
    (e : TrafficEvent) : Moves config parser v (v.step config parser e) := by
  cases e with
  | call s => exact .call s
  | enter place =>
    simp only [step]
    split
    · next s hs =>
      obtain ⟨front, back, hwaiting, herase⟩ := eraseIdx_of_getElem? hs
      split
      · next h =>
        rw [herase]
        exact .enter front s back hwaiting h.1 h.2
      · exact .stay
    · exact .stay
  | turnAway place =>
    simp only [step]
    split
    · next s hs =>
      obtain ⟨front, back, hwaiting, herase⟩ := eraseIdx_of_getElem? hs
      split
      · exact .stay
      · next h =>
        rw [herase]
        exact .turnAway front s back hwaiting (by simpa using h)
    · exact .stay
  | receive =>
    simp only [step]
    split
    · next s rest hready hqueue => exact .receive s rest hready hqueue
    · exact .stay
  | finish =>
    simp only [step]
    split
    · next s hbusy => exact .finish s hbusy
    · exact .stay
  | stop => exact .stop
  | close =>
    simp only [step]
    split
    · next hready =>
      split
      · next hstopping => exact .close hready hstopping
      · exact .stay
    · exact .stay
  | leave =>
    simp only [step]
    split
    · next hready hqueue =>
      split
      · exact .stay
      · next h => exact .leave hready hqueue (by simpa using h)
    · exact .stay
  | clearFlag target =>
    simp only [step]
    split
    · next t ht => exact .clearFlag t (List.mem_of_getElem? ht)
    · exact .stay

/-! ### Through the queue in order -/

/-- The records that were accepted are those handled, the one in hand and those in the queue, in
    this order; and the worker ends only behind the last of them. -/
structure Queued (v : Traffic) : Prop where
  order : v.accepted = v.handled ++ v.inHand ++ v.intake.queue
  room : v.intake.queue.length ≤ v.intake.capacity
  closed : v.intake.accepting = false → v.stopping = true
  ended : v.worker = .ended → v.intake.accepting = false ∧ v.intake.queue = []

theorem queued_start (config : PipelineConfig) (parser : RecordParser) (fs : Files) :
    Queued (start config parser fs) := by
  refine ⟨rfl, Nat.zero_le _, ?_, ?_⟩
  · intro h
    exact absurd h (by simp [start, Pipeline.start, Intake.start])
  · intro h
    exact absurd h (by simp [start])

theorem inHand_of_ready (h : v.worker = .ready) : v.inHand = [] := by
  simp [inHand, h]

theorem Queued.of_moves (h : Queued v) (hmoves : Moves config parser v v') : Queued v' := by
  cases hmoves with
  | stay => exact h
  | call s => exact ⟨h.order, h.room, h.closed, h.ended⟩
  | enter front s back hwaiting haccepting hroom =>
    refine ⟨?_, ?_, h.closed, ?_⟩
    · show v.accepted ++ [s] = v.handled ++ v.inHand ++ (v.intake.queue ++ [s])
      rw [h.order, List.append_assoc]
    · show (v.intake.queue ++ [s]).length ≤ v.intake.capacity
      rw [List.length_append]
      exact hroom
    · intro hended
      -- Nothing gets in behind a worker that has ended, for it has closed the queue.
      obtain ⟨hclosed, -⟩ := h.ended hended
      rw [haccepting] at hclosed
      exact absurd hclosed (by decide)
  | turnAway front s back hwaiting hclosed => exact ⟨h.order, h.room, h.closed, h.ended⟩
  | receive s rest hready hqueue =>
    refine ⟨?_, ?_, h.closed, ?_⟩
    · show v.accepted = v.handled ++ [s] ++ rest
      rw [h.order, inHand_of_ready hready, hqueue, List.append_nil, List.append_assoc]
      rfl
    · show rest.length ≤ v.intake.capacity
      have hroom := h.room
      rw [hqueue, List.length_cons] at hroom
      omega
    · intro hended
      exact absurd hended (by simp)
  | finish s hbusy =>
    refine ⟨?_, h.room, h.closed, ?_⟩
    · show v.accepted = v.handled ++ [s] ++ [] ++ v.intake.queue
      rw [h.order, List.append_nil]
      simp [inHand, hbusy]
    · intro hended
      exact absurd hended (by simp)
  | stop => exact ⟨h.order, h.room, fun _ => rfl, h.ended⟩
  | close hready hstopping =>
    refine ⟨h.order, h.room, fun _ => hstopping, ?_⟩
    intro hended
    exact ⟨rfl, (h.ended hended).2⟩
  | leave hready hqueue hclosed =>
    refine ⟨?_, h.room, h.closed, ?_⟩
    · show v.accepted = v.handled ++ [] ++ v.intake.queue
      rw [h.order, inHand_of_ready hready]
    · intro _
      exact ⟨hclosed, hqueue⟩
  | clearFlag t ht => exact ⟨h.order, h.room, h.closed, h.ended⟩

theorem Queued.run (h : Queued v) (events : List TrafficEvent) :
    Queued (v.run config parser events) := by
  induction events generalizing v with
  | nil => exact h
  | cons e events ih => exact ih (h.of_moves (moves_step config parser v e))

theorem Moves.accepted_of_closed (hmoves : Moves config parser v v')
    (h : v.intake.accepting = false) :
    v'.accepted = v.accepted ∧ v'.intake.accepting = false := by
  cases hmoves with
  | enter front s back hwaiting haccepting hroom =>
    rw [h] at haccepting
    exact absurd haccepting (by decide)
  | close hready hstopping => exact ⟨rfl, rfl⟩
  | _ => exact ⟨rfl, h⟩

/-- Nothing is accepted once the queue is closed. -/
theorem accepted_run_of_closed (h : v.intake.accepting = false) (events : List TrafficEvent) :
    (v.run config parser events).accepted = v.accepted ∧
      (v.run config parser events).intake.accepting = false := by
  induction events generalizing v with
  | nil => exact ⟨rfl, h⟩
  | cons e events ih =>
    obtain ⟨haccepted, hclosed⟩ := (moves_step config parser v e).accepted_of_closed h
    obtain ⟨hrest, hlast⟩ := ih hclosed
    exact ⟨hrest.trans haccepted, hlast⟩

end Traffic

/-! ### What is told and remembered -/

namespace Tracker

/-- What the submitters are told when their records are processed one after the other. -/
def replies (parser : RecordParser) (t : Tracker) (ss : List Submission) : List (Nat × Outcome) :=
  (t.recount parser ss).flatMap Sighting.told

theorem handleAll_append_singleton (parser : RecordParser) (t : Tracker) (ss : List Submission)
    (s : Submission) :
    t.handleAll parser (ss ++ [s]) = ((t.handleAll parser ss).handle parser s).2 := by
  rw [handleAll, List.foldl_append]
  rfl

theorem replies_append_singleton (parser : RecordParser) (t : Tracker) (ss : List Submission)
    (s : Submission) :
    t.replies parser (ss ++ [s]) = t.replies parser ss ++
      [(s.ticket, .ofMessages? ((t.handleAll parser ss).handle parser s).1)] := by
  rw [replies, recount_append, List.flatMap_append]
  rfl

theorem tickets_replies (parser : RecordParser) (t : Tracker) (ss : List Submission) :
    (t.replies parser ss).map Prod.fst = ss.map Submission.ticket := by
  induction ss generalizing t with
  | nil => rfl
  | cons s ss ih => exact congrArg (s.ticket :: ·) (ih (t.handle parser s).2)

/-- Only a record that the parser crashes on has no messages, and it changes nothing. -/
theorem handle_crash (parser : RecordParser) (t : Tracker) (s : Submission) :
    ((t.handle parser s).1 = none ↔ parser.parse? s.raw s.fileType = none) ∧
      (parser.parse? s.raw s.fileType = none → (t.handle parser s).2 = t) := by
  simp only [handle, process]
  cases parser.parse? s.raw s.fileType with
  | none => exact ⟨by simp, fun _ => rfl⟩
  | some text => exact ⟨by simp, fun h => absurd h (by simp)⟩

end Tracker

theorem Outcome.ofMessages?_ne_closed (ms? : Option (List Message)) :
    Outcome.ofMessages? ms? ≠ .closed := by
  cases ms? with
  | none => exact Outcome.noConfusion
  | some ms => exact Outcome.noConfusion

namespace Traffic

variable {config : PipelineConfig} {parser : RecordParser} {t : Tracker} {v v' : Traffic}

/-- Everybody who came was accepted, was refused or waits; the refused were told so, and what the
    others were told and what is remembered comes of the records handled so far, one after the
    other, for a tracker that remembered `t` at the beginning. -/
structure Settled (parser : RecordParser) (t : Tracker) (v : Traffic) : Prop where
  called : v.called.Perm (v.accepted ++ v.refused ++ v.intake.waiting)
  replies : (v.intake.outcomes.filter fun o => o.2 ≠ .closed) = t.replies parser v.handled
  refusals : (v.intake.outcomes.filter fun o => o.2 = .closed) =
    v.refused.map fun s => (s.ticket, .closed)
  contents : v.intake.tracker.Alike (t.handleAll parser v.handled)
  flags : v.flushed = false → v.intake.tracker = t.handleAll parser v.handled

theorem settled_start (config : PipelineConfig) (parser : RecordParser) (fs : Files) :
    Settled parser (Pipeline.openTracker config fs) (start config parser fs) :=
  ⟨.refl _, rfl, rfl, .refl _, fun _ => rfl⟩

theorem Settled.of_moves (h : Settled parser t v) (hmoves : Moves config parser v v') :
    Settled parser t v' := by
  cases hmoves with
  | stay => exact h
  | call s =>
    refine ⟨?_, h.replies, h.refusals, h.contents, h.flags⟩
    show (v.called ++ [s]).Perm (v.accepted ++ v.refused ++ (v.intake.waiting ++ [s]))
    rw [← List.append_assoc]
    exact h.called.append_right [s]
  | enter front s back hwaiting haccepting hroom =>
    refine ⟨?_, h.replies, h.refusals, h.contents, h.flags⟩
    have hcalled := h.called
    rw [hwaiting] at hcalled
    calc List.Perm v.called (v.accepted ++ v.refused ++ (front ++ s :: back)) := hcalled
      _ = v.accepted ++ (v.refused ++ front ++ s :: back) := by simp
      List.Perm _ (v.accepted ++ s :: (v.refused ++ front ++ back)) :=
        List.perm_middle.append_left v.accepted
      _ = v.accepted ++ [s] ++ v.refused ++ (front ++ back) := by simp
  | turnAway front s back hwaiting hclosed =>
    refine ⟨?_, ?_, ?_, h.contents, h.flags⟩
    · have hcalled := h.called
      rw [hwaiting] at hcalled
      refine hcalled.trans ?_
      show (v.accepted ++ v.refused ++ (front ++ s :: back)).Perm
        (v.accepted ++ (v.refused ++ [s]) ++ (front ++ back))
      rw [← List.append_assoc v.accepted, List.append_assoc _ [s]]
      exact List.perm_middle.append_left _
    · show (v.intake.outcomes ++ [(s.ticket, Outcome.closed)]).filter _ = _
      rw [List.filter_append, h.replies]
      simp
    · show (v.intake.outcomes ++ [(s.ticket, Outcome.closed)]).filter _ = _
      rw [List.filter_append, h.refusals]
      simp
  | receive s rest hready hqueue => exact ⟨h.called, h.replies, h.refusals, h.contents, h.flags⟩
  | finish s hbusy =>
    -- The flags may differ from those of the sequential run, but no record sees the flags.
    obtain ⟨hmessages, hnext⟩ := h.contents.process parser s.raw s.fileType s.topics
    have hreply : (v.intake.tracker.handle parser s).1 =
        ((t.handleAll parser v.handled).handle parser s).1 := hmessages
    have hne := Outcome.ofMessages?_ne_closed ((t.handleAll parser v.handled).handle parser s).1
    refine ⟨h.called, ?_, ?_, ?_, ?_⟩
    · show (v.intake.outcomes ++ [_]).filter _ = t.replies parser (v.handled ++ [s])
      rw [List.filter_append, h.replies, Tracker.replies_append_singleton, hreply]
      simp [hne]
    · show (v.intake.outcomes ++ [_]).filter _ = _
      rw [List.filter_append, h.refusals, hreply]
      simp [hne]
    · rw [Tracker.handleAll_append_singleton]
      exact hnext
    · intro hflushed
      rw [Tracker.handleAll_append_singleton, ← h.flags hflushed]
      rfl
  | stop => exact ⟨h.called, h.replies, h.refusals, h.contents, h.flags⟩
  | close hready hstopping => exact ⟨h.called, h.replies, h.refusals, h.contents, h.flags⟩
  | leave hready hqueue hclosed => exact ⟨h.called, h.replies, h.refusals, h.contents, h.flags⟩
  | clearFlag target htarget =>
    refine ⟨h.called, h.replies, h.refusals, ?_, ?_⟩
    · exact (Pipeline.alike_clearDirty htarget _).trans h.contents
    · intro hflushed
      exact absurd hflushed (by simp)

theorem Settled.run (h : Settled parser t v) (events : List TrafficEvent) :
    Settled parser t (v.run config parser events) := by
  induction events generalizing v with
  | nil => exact h
  | cons e events ih => exact ih (h.of_moves (moves_step config parser v e))

end Traffic

end JobTrace
