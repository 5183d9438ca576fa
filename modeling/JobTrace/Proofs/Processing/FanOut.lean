import JobTrace.Proofs.Tracking.Upkeep

/-!
# One record, many topics

The messages of a record are one list, in which a topic that gets no message leaves no trace.  To
speak of what a single topic is given, the answers are kept apart here, one for each topic
(`answers`, and `answersTo` for a whole call); the messages are the answers without the gaps
(`Tracker.messages_process`).

Topics share the tracker, and the only topics that change it are those that report changes of
state.  So offering an event to a list of topics is, for the tracker, a run of detections over the
event as these topics see it (`reportViews`), and the answer of a topic is the one that it would get
from the tracker after the part of this run that comes before it (`getElem?_answers`).
-/

namespace JobTrace

/-- The event as the topics that report changes of state see it, one after the other. -/
def reportViews (e : Event) (topics : List Topic) : List Event :=
  (topics.filter fun topic => topic.kind = .statusTrace).map e.seenBy

theorem reportViews_append (e : Event) (topics topics' : List Topic) :
    reportViews e (topics ++ topics') = reportViews e topics ++ reportViews e topics' := by
  rw [reportViews, List.filter_append, List.map_append]
  rfl

/-- A topic that adds no fields sees the event as it is. -/
theorem Event.seenBy_of_addFields_empty (e : Event) {topic : Topic}
    (h : topic.addFields = Dict.empty) : e.seenBy topic = e := by
  unfold seenBy
  rw [h]
  rfl

/-- The event of a call, unless the parser crashes or what it gives is no record. -/
def ProcessCall.event? (call : ProcessCall) : Option Event :=
  (call.parser.parse? call.raw call.fileType).bind fun text => (Event.ofText text).toOption

/-- The same record for one topic only. -/
def ProcessCall.only (call : ProcessCall) (topic : Topic) : ProcessCall :=
  { call with topics := [topic] }

@[simp] theorem ProcessCall.topics_only (call : ProcessCall) (topic : Topic) :
    (call.only topic).topics = [topic] := rfl

namespace Tracker

def processCall (t : Tracker) (call : ProcessCall) : Option (List Message) × Tracker :=
  t.process call.parser call.raw call.fileType call.topics

/-- What each topic is given for an event, in the order of the topics. -/
def answers (t : Tracker) (e : Event) : List Topic → List (Option Message)
  | [] => []
  | topic :: topics => (t.offer e topic).1 :: (t.offer e topic).2.answers e topics

/-- What each topic of a call is given; without a record, nothing. -/
def answersTo (t : Tracker) (call : ProcessCall) : List (Option Message) :=
  match call.event? with
  | some e => t.answers e call.topics
  | none => call.topics.map fun _ => none

/-! ### One topic -/

theorem report_eq (t : Tracker) (e : Event) (topic : Topic) :
    t.report e topic =
      ((t.detect e).1.map fun change => change.message e topic, (t.detect e).2) := by
  unfold report
  generalize t.detect e = detected
  obtain ⟨change, t'⟩ := detected
  cases change with
  | none => rfl
  | some change => rfl

theorem offer_of_trace (t : Tracker) (e : Event) {topic : Topic} (h : topic.kind = .statusTrace) :
    t.offer e topic =
      ((t.detect (e.seenBy topic)).1.map fun change => change.message (e.seenBy topic) topic,
        (t.detect (e.seenBy topic)).2) := by
  rw [offer, h]
  exact report_eq t (e.seenBy topic) topic

/-- Topics of the other kinds are answered without the tracker. -/
theorem offer_of_ne_trace (e : Event) {topic : Topic} (h : topic.kind ≠ .statusTrace) :
    ∃ answer, ∀ t : Tracker, t.offer e topic = (answer, t) := by
  cases hkind : topic.kind with
  | raw =>
    refine ⟨some (projectRaw (e.seenBy topic) topic), ?_⟩
    intro t
    rw [offer, hkind]
  | statusTrace => exact absurd hkind h
  | unsupported =>
    refine ⟨none, ?_⟩
    intro t
    rw [offer, hkind]

theorem tracker_offer (t : Tracker) (e : Event) (topic : Topic) :
    (t.offer e topic).2 = (t.detectAll (reportViews e [topic])).2 := by
  by_cases htrace : topic.kind = .statusTrace
  · rw [offer_of_trace t e htrace]
    simp [reportViews, htrace, detectAll]
  · obtain ⟨answer, hoffer⟩ := offer_of_ne_trace e htrace
    rw [hoffer]
    simp [reportViews, htrace, detectAll]

/-! ### All topics -/

theorem fanOut_eq (t : Tracker) (e : Event) (topics : List Topic) :
    t.fanOut e topics =
      ((t.answers e topics).filterMap id, (t.detectAll (reportViews e topics)).2) := by
  induction topics generalizing t with
  | nil => rfl
  | cons topic topics ih =>
    have hviews : reportViews e (topic :: topics) =
        reportViews e [topic] ++ reportViews e topics := reportViews_append e [topic] topics
    rw [hviews, detectAll_append, ← tracker_offer]
    simp only [fanOut, answers, ih]
    cases (t.offer e topic).1 <;> rfl

theorem getElem?_answers (t : Tracker) (e : Event) (topics : List Topic) (n : Nat) :
    (t.answers e topics)[n]? = topics[n]?.map fun topic =>
      ((t.detectAll (reportViews e (topics.take n))).2.offer e topic).1 := by
  induction topics generalizing t n with
  | nil => rfl
  | cons topic topics ih =>
    cases n with
    | zero => rfl
    | succ n =>
      have hviews : reportViews e ((topic :: topics).take (n + 1)) =
          reportViews e [topic] ++ reportViews e (topics.take n) :=
        reportViews_append e [topic] (topics.take n)
      rw [hviews, detectAll_append, ← tracker_offer]
      exact ih (t.offer e topic).2 n

/-! ### Whole calls -/

theorem process_of_event (t : Tracker) {call : ProcessCall} {e : Event}
    (h : call.event? = some e) :
    t.processCall call =
      (some ((t.answers e call.topics).filterMap id),
        (t.detectAll (reportViews e call.topics)).2) := by
  unfold ProcessCall.event? at h
  cases hparsed : call.parser.parse? call.raw call.fileType with
  | none =>
    rw [hparsed] at h
    exact absurd h (by simp)
  | some text =>
    rw [hparsed, Option.bind_some] at h
    cases hread : Event.ofText text with
    | error cause =>
      rw [hread] at h
      exact absurd h (by simp [Except.toOption])
    | ok e' =>
      rw [hread] at h
      obtain rfl : e' = e := by simpa [Except.toOption] using h
      simp only [processCall, process, hparsed, processText, hread, fanOut_eq]

/-- Without a record there are no messages, and nothing is changed. -/
theorem process_of_noEvent (t : Tracker) {call : ProcessCall} (h : call.event? = none) :
    t.processCall call =
      ((call.parser.parse? call.raw call.fileType).map fun _ => [], t) := by
  unfold ProcessCall.event? at h
  cases hparsed : call.parser.parse? call.raw call.fileType with
  | none => simp only [processCall, process, hparsed, Option.map_none]
  | some text =>
    rw [hparsed, Option.bind_some] at h
    cases hread : Event.ofText text with
    | error cause => simp only [processCall, process, hparsed, processText, hread, Option.map_some]
    | ok e =>
      rw [hread] at h
      exact absurd h (by simp [Except.toOption])

theorem answersTo_of_event (t : Tracker) {call : ProcessCall} {e : Event}
    (h : call.event? = some e) : t.answersTo call = t.answers e call.topics := by
  rw [answersTo, h]

theorem answersTo_of_noEvent (t : Tracker) {call : ProcessCall} (h : call.event? = none) :
    t.answersTo call = call.topics.map fun _ => none := by
  rw [answersTo, h]

/-- The messages of a call are the answers to its topics, unless the parser crashes. -/
theorem messages_process (t : Tracker) (call : ProcessCall) :
    (t.processCall call).1 =
      (call.parser.parse? call.raw call.fileType).map fun _ =>
        (t.answersTo call).filterMap id := by
  cases h : call.event? with
  | none =>
    have hgaps : (call.topics.map fun _ => (none : Option Message)).filterMap id = [] := by simp
    rw [process_of_noEvent t h, answersTo_of_noEvent t h, hgaps]
  | some e =>
    rw [process_of_event t h, answersTo_of_event t h]
    have hparsed : ∃ text, call.parser.parse? call.raw call.fileType = some text := by
      unfold ProcessCall.event? at h
      obtain ⟨text, htext, -⟩ := Option.bind_eq_some_iff.1 h
      exact ⟨text, htext⟩
    obtain ⟨text, htext⟩ := hparsed
    rw [htext]
    rfl

end Tracker

end JobTrace
