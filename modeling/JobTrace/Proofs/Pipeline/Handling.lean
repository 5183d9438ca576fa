import JobTrace.Pipeline.Intake
import JobTrace.Proofs.Tracking.Contents

/-!
# Records are handled one after the other

What is seen of an intake is what the submitters are told and what the stores hold after every
record.  For records in the queue this is a function of the tracker alone, `Tracker.recount`: the
queue only decides which records get in.
-/

namespace JobTrace

/-- What is seen when a record has been dealt with: what was told, and what the stores hold. -/
structure Sighting where
  told : List (Nat × Outcome)
  states : Dict Int64
  properties : Dict (Dict String)
deriving DecidableEq

/-- What a submitter is told when the parser gave these messages, or crashed. -/
def Outcome.ofMessages? : Option (List Message) → Outcome
  | some ms => .messages ms
  | none => .replyDropped

namespace Tracker

def handle (parser : RecordParser) (t : Tracker) (s : Submission) :
    Option (List Message) × Tracker :=
  t.process parser s.raw s.fileType s.topics

/-- What is remembered after records were processed. -/
def handleAll (parser : RecordParser) (t : Tracker) (ss : List Submission) : Tracker :=
  ss.foldl (fun t s => (t.handle parser s).2) t

/-- What is seen of records that are processed one after the other. -/
def recount (parser : RecordParser) (t : Tracker) : List Submission → List Sighting
  | [] => []
  | s :: ss =>
    let (ms?, t) := t.handle parser s
    ⟨[(s.ticket, .ofMessages? ms?)], t.states.contents, t.properties.contents⟩ ::
      t.recount parser ss

theorem handleAll_cons (parser : RecordParser) (t : Tracker) (s : Submission)
    (ss : List Submission) :
    t.handleAll parser (s :: ss) = (t.handle parser s).2.handleAll parser ss := rfl

theorem recount_append (parser : RecordParser) (t : Tracker) (ss ss' : List Submission) :
    t.recount parser (ss ++ ss') =
      t.recount parser ss ++ (t.handleAll parser ss).recount parser ss' := by
  induction ss generalizing t with
  | nil => rfl
  | cons s ss ih => simp only [List.cons_append, recount, handleAll_cons, ih]

namespace Alike

variable {t u : Tracker} (parser : RecordParser)

theorem handleAll (h : Alike t u) (ss : List Submission) :
    Alike (t.handleAll parser ss) (u.handleAll parser ss) := by
  induction ss generalizing t u with
  | nil => exact h
  | cons s ss ih => exact ih (h.process parser s.raw s.fileType s.topics).2

/-- Trackers with the same contents are not told apart by any records. -/
theorem recount (h : Alike t u) (ss : List Submission) :
    t.recount parser ss = u.recount parser ss := by
  induction ss generalizing t u with
  | nil => rfl
  | cons s ss ih =>
    obtain ⟨hmessages, hnext⟩ := h.process parser s.raw s.fileType s.topics
    simp only [Tracker.recount, Tracker.handle]
    rw [hmessages, hnext.states, hnext.properties, ih hnext]

end Alike

end Tracker

namespace Intake

variable {q : Intake} {parser : RecordParser}

def seen (q q' : Intake) : Sighting :=
  ⟨q'.outcomes.drop q.outcomes.length, q'.tracker.states.contents,
    q'.tracker.properties.contents⟩

/-- What is seen while so many records are served. -/
def watch (parser : RecordParser) : Nat → Intake → List Sighting
  | 0, _ => []
  | n + 1, q => q.seen (q.serve parser) :: watch parser n (q.serve parser)

/-- Nobody waits, the queue is empty, and there is room for a record. -/
structure Idle (capacity : Nat) (q : Intake) : Prop where
  capacity_eq : q.capacity = max capacity 1
  accepting : q.accepting = true
  queue_eq : q.queue = []
  waiting_eq : q.waiting = []

theorem idle_start (capacity : Nat) (t : Tracker) : Idle capacity (start capacity t) :=
  ⟨rfl, rfl, rfl, rfl⟩

/-! ### Getting into the queue -/

theorem foldl_submit_full (hopen : q.accepting = true) (hfull : q.queue.length = q.capacity)
    (ss : List Submission) :
    ss.foldl submit q = { q with waiting := q.waiting ++ ss } := by
  induction ss generalizing q with
  | nil => simp
  | cons s ss ih =>
    have hsubmit : q.submit s = { q with waiting := q.waiting ++ [s] } := by
      simp [submit, hopen, hfull]
    have hnext := ih (q := { q with waiting := q.waiting ++ [s] }) hopen hfull
    rw [List.foldl_cons, hsubmit, hnext]
    simp

/-- The first records get in as long as there is room. -/
theorem foldl_submit (hopen : q.accepting = true) (hroom : q.queue.length ≤ q.capacity)
    (hwaiting : q.waiting = []) (ss : List Submission) :
    ss.foldl submit q =
      { q with
        queue := q.queue ++ ss.take (q.capacity - q.queue.length)
        waiting := ss.drop (q.capacity - q.queue.length) } := by
  induction ss generalizing q with
  | nil =>
    obtain ⟨capacity, accepting, queue, waiting, tracker, outcomes⟩ := q
    obtain rfl : waiting = [] := hwaiting
    simp
  | cons s ss ih =>
    by_cases hlt : q.queue.length < q.capacity
    · have hsubmit : q.submit s = { q with queue := q.queue ++ [s] } := by
        simp [submit, hopen, hlt]
      obtain ⟨room, hroom'⟩ : ∃ room, q.capacity - q.queue.length = room + 1 :=
        ⟨q.capacity - q.queue.length - 1, by omega⟩
      have hrest : q.capacity - (q.queue.length + 1) = room := by omega
      have hnext := ih (q := { q with queue := q.queue ++ [s] }) hopen
        (by rw [List.length_append]; exact hlt) hwaiting
      rw [List.foldl_cons, hsubmit, hnext]
      simp [hroom', hrest]
    · have hfull : q.queue.length = q.capacity := Nat.le_antisymm hroom (Nat.not_lt.1 hlt)
      rw [foldl_submit_full hopen hfull]
      simp [hfull, hwaiting]

/-- An idle intake takes as many records as it has room for. -/
theorem foldl_submit_idle {capacity : Nat} (h : Idle capacity q) (ss : List Submission) :
    ss.foldl submit q =
      { q with queue := ss.take (max capacity 1), waiting := ss.drop (max capacity 1) } := by
  have hroom : q.queue.length ≤ q.capacity := by simp [h.queue_eq]
  rw [foldl_submit h.accepting hroom h.waiting_eq, h.queue_eq, h.capacity_eq]
  simp

theorem submit_idle {capacity : Nat} (h : Idle capacity q) (s : Submission) :
    q.submit s = { q with queue := [s] } := by
  have hone := foldl_submit_idle h [s]
  have hroom : [s].length ≤ max capacity 1 := Nat.le_max_right ..
  rw [List.foldl_cons, List.foldl_nil, List.take_of_length_le hroom,
    List.drop_of_length_le hroom] at hone
  rw [hone, ← h.waiting_eq]

theorem foldl_tell (ss : List Submission) (outcome : Outcome) :
    ss.foldl (fun q s => q.tell s outcome) q =
      { q with outcomes := q.outcomes ++ ss.map fun s => (s.ticket, outcome) } := by
  induction ss generalizing q with
  | nil => simp
  | cons s ss ih =>
    rw [List.foldl_cons, ih]
    simp [tell]

theorem close_eq (q : Intake) :
    q.close =
      { q with
        accepting := false
        waiting := []
        outcomes := q.outcomes ++ q.waiting.map fun s => (s.ticket, .closed) } := by
  rw [close, foldl_tell]

/-! ### Serving what is in the queue -/

theorem serve_cons (parser : RecordParser) {s : Submission} {rest : List Submission}
    (hqueue : q.queue = s :: rest) :
    q.serve parser =
      ({ q with
        queue := rest
        tracker := (q.tracker.handle parser s).2
        outcomes := q.outcomes ++
          [(s.ticket, .ofMessages? (q.tracker.handle parser s).1)] } : Intake).fillRoom := by
  simp only [serve, Tracker.handle, hqueue]
  generalize q.tracker.process parser s.raw s.fileType s.topics = processed
  obtain ⟨ms?, t⟩ := processed
  cases ms? with
  | none => rfl
  | some ms => rfl

theorem serve_of_queue (parser : RecordParser) {s : Submission} {rest : List Submission}
    (hqueue : q.queue = s :: rest) (hwaiting : q.waiting = []) :
    q.serve parser =
      { q with
        queue := rest
        tracker := (q.tracker.handle parser s).2
        outcomes := q.outcomes ++
          [(s.ticket, .ofMessages? (q.tracker.handle parser s).1)] } := by
  rw [serve_cons parser hqueue]
  simp [fillRoom, hwaiting]

/-- As long as nobody waits, what is seen is what the tracker makes of the queue. -/
theorem watch_queue (hwaiting : q.waiting = []) :
    q.watch parser q.queue.length = q.tracker.recount parser q.queue := by
  generalize hqueue : q.queue = ss
  induction ss generalizing q with
  | nil => rfl
  | cons s ss ih =>
    have hserve := serve_of_queue parser hqueue hwaiting
    simp only [List.length_cons, watch, Tracker.recount]
    rw [ih (q := q.serve parser) (by rw [hserve]; exact hwaiting) (by rw [hserve]), hserve]
    simp [seen]

theorem drain_of_noWaiting (parser : RecordParser) (hwaiting : q.waiting = []) :
    ∃ outcomes, q.drain parser =
      { q with
        queue := []
        tracker := q.tracker.handleAll parser q.queue
        outcomes } := by
  have hserveAll : ∀ (turns : List Nat) (q : Intake), q.waiting = [] →
      turns.length = q.queue.length →
        ∃ outcomes, turns.foldl (fun q _ => q.serve parser) q =
          { q with queue := [], tracker := q.tracker.handleAll parser q.queue, outcomes } := by
    intro turns
    induction turns with
    | nil =>
      intro q hwaiting hlength
      obtain ⟨capacity, accepting, queue, waiting, tracker, outcomes⟩ := q
      obtain rfl : queue = [] := List.length_eq_zero_iff.1 hlength.symm
      exact ⟨outcomes, rfl⟩
    | cons turn turns ih =>
      intro q hwaiting hlength
      cases hqueue : q.queue with
      | nil =>
        rw [hqueue] at hlength
        exact absurd hlength (by simp)
      | cons s rest =>
        have hserve := serve_of_queue parser hqueue hwaiting
        obtain ⟨outcomes, hrest⟩ := ih (q.serve parser) (by rw [hserve]; exact hwaiting)
          (by rw [hserve]; simpa [hqueue] using hlength)
        refine ⟨outcomes, ?_⟩
        rw [List.foldl_cons, hrest, hserve, Tracker.handleAll_cons]
  refine hserveAll (List.range q.pending) q hwaiting ?_
  simp [pending, hwaiting]

/-- Nothing is left under way behind a queue that was closed. -/
theorem drain_close (parser : RecordParser) (q : Intake) :
    (q.close.drain parser).accepting = false ∧ (q.close.drain parser).queue = [] ∧
      (q.close.drain parser).waiting = [] := by
  rw [close_eq]
  obtain ⟨outcomes, hdrain⟩ := drain_of_noWaiting parser
    (q := { q with
      accepting := false
      waiting := []
      outcomes := q.outcomes ++ q.waiting.map fun s => (s.ticket, .closed) }) rfl
  rw [hdrain]
  exact ⟨rfl, rfl, rfl⟩

end Intake

end JobTrace
