import Mathlib
import JobTrace.Proofs.Processing.FanOut
import JobTrace.Proofs.Tracking.Streams

/-!
# Projections and reports, woven together

Of the topics of a record, those for raw records need the record and nothing else, and those that
report changes of state share the tracker among themselves.  So a call does to the tracker what a
call for its report topics alone would do, and its messages are those of this smaller call with the
projections woven in between, every message at the place of its topic (`weave`).

What is woven are answers and not messages, because a report topic that gets no message must not
take the place of a later one.  That the answers are those of the smaller call is said through its
own shorter calls: the first so many report topics get the first so many answers, gaps left out.
-/

namespace JobTrace

/-! ### What a topic sees -/

/-- A topic sees the event with its own fields added, also if it has none. -/
theorem Event.seenBy_eq_extend (e : Event) (topic : Topic) :
    e.seenBy topic = e.extend topic.addFields := by
  unfold seenBy
  split
  · next hempty =>
    have hnone : topic.addFields = Dict.empty := Dict.ext (List.isEmpty_iff.1 hempty)
    rw [hnone]
    rfl
  · rfl

/-! ### Report topics alone -/

/-- The topics that report changes of state. -/
def reportTopics (topics : List Topic) : List Topic :=
  topics.filter fun topic => topic.kind = .statusTrace

theorem reportViews_reportTopics (e : Event) (topics : List Topic) :
    reportViews e (reportTopics topics) = reportViews e topics := by
  unfold reportViews reportTopics
  rw [List.filter_filter]
  simp only [Bool.and_self]

/-- The same record for its report topics only. -/
def ProcessCall.reportsOnly (call : ProcessCall) : ProcessCall :=
  { call with topics := reportTopics call.topics }

/-- The same record for its first topics only. -/
def ProcessCall.firstTopics (call : ProcessCall) (n : Nat) : ProcessCall :=
  { call with topics := call.topics.take n }

/-! ### Weaving -/

/-- The messages for a list of topics in their order: the projection of the event for a raw topic,
    the next of the given answers for a report topic, and nothing for any other topic. -/
def weave (e : Event) : List Topic → List (Option Message) → List Message
  | [], _ => []
  | topic :: topics, answers =>
    match topic.kind with
    | .raw => projectRaw (e.extend topic.addFields) topic :: weave e topics answers
    | .statusTrace => answers.head?.join.toList ++ weave e topics answers.tail
    | .unsupported => weave e topics answers

namespace Tracker

theorem length_answers (t : Tracker) (e : Event) (topics : List Topic) :
    (t.answers e topics).length = topics.length := by
  induction topics generalizing t with
  | nil => rfl
  | cons topic topics ih => exact congrArg (· + 1) (ih (t.offer e topic).2)

/-- Later topics do not change what the first ones are given. -/
theorem answers_take (t : Tracker) (e : Event) (topics : List Topic) (n : Nat) :
    t.answers e (topics.take n) = (t.answers e topics).take n := by
  induction topics generalizing t n with
  | nil => simp [answers]
  | cons topic topics ih =>
    cases n with
    | zero => rfl
    | succ n => exact congrArg (_ :: ·) (ih (t.offer e topic).2 n)

/-- The answers without the gaps are those of the report topics alone, the projections woven in. -/
theorem filterMap_answers_eq_weave (t : Tracker) (e : Event) (topics : List Topic) :
    (t.answers e topics).filterMap id = weave e topics (t.answers e (reportTopics topics)) := by
  induction topics generalizing t with
  | nil => rfl
  | cons topic topics ih =>
    cases hkind : topic.kind with
    | raw =>
      have hoffer : t.offer e topic = (some (projectRaw (e.extend topic.addFields) topic), t) := by
        rw [offer, hkind, ← e.seenBy_eq_extend]
      have hreports : reportTopics (topic :: topics) = reportTopics topics := by
        simp [reportTopics, hkind]
      rw [hreports]
      simp only [answers, hoffer, weave, hkind]
      exact congrArg (_ :: ·) (ih t)
    | statusTrace =>
      have hreports : reportTopics (topic :: topics) = topic :: reportTopics topics := by
        simp [reportTopics, hkind]
      -- The topic takes its turn at the tracker in the smaller call as well.
      rw [hreports]
      simp only [answers, weave, hkind, List.head?_cons, List.tail_cons, ← ih]
      cases (t.offer e topic).1 <;> rfl
    | unsupported =>
      have hoffer : t.offer e topic = (none, t) := by rw [offer, hkind]
      have hreports : reportTopics (topic :: topics) = reportTopics topics := by
        simp [reportTopics, hkind]
      rw [hreports]
      simp only [answers, hoffer, weave, hkind]
      exact ih t

/-! ### Whole calls -/

/-- A call for a record is woven from the record itself and the call for its report topics. -/
structure Woven (t : Tracker) (call : ProcessCall) (e : Event) : Prop where
  messages : (t.processCall call).1 =
    some (weave e call.topics (t.answersTo call.reportsOnly))
  /-- Only the report topics touch what is remembered. -/
  tracker : (t.processCall call).2 = (t.processCall call.reportsOnly).2
  /-- Every report topic has one answer. -/
  length_eq : (t.answersTo call.reportsOnly).length = call.reportsOnly.topics.length
  /-- The answers are the messages of the report topics, place by place. -/
  answers : ∀ n, (t.processCall (call.reportsOnly.firstTopics n)).1 =
    some (((t.answersTo call.reportsOnly).take n).filterMap id)

theorem woven_of_event (t : Tracker) {call : ProcessCall} {e : Event}
    (h : call.event? = some e) : Woven t call e := by
  have hreports : call.reportsOnly.event? = some e := h
  have hfirst : ∀ n, (call.reportsOnly.firstTopics n).event? = some e := fun _ => h
  constructor
  case messages =>
    rw [process_of_event t h, answersTo_of_event t hreports, filterMap_answers_eq_weave]
    rfl
  case tracker =>
    rw [process_of_event t h, process_of_event t hreports]
    show _ = (t.detectAll (reportViews e (reportTopics call.topics))).2
    rw [reportViews_reportTopics]
  case length_eq =>
    rw [answersTo_of_event t hreports, length_answers]
  case answers =>
    intro n
    rw [process_of_event t (hfirst n), answersTo_of_event t hreports, ← answers_take]
    rfl

/-- Whatever is remembered, whatever the record and its topics: a text that is no record has no
    messages and changes nothing, and a call for a record is woven. -/
theorem processCall_woven (t : Tracker) (call : ProcessCall) :
    (∀ text cause, call.parser.parse? call.raw call.fileType = some text →
      Event.ofText text = .error cause → t.processCall call = (some [], t)) ∧
    ∀ e, call.event? = some e → Woven t call e := by
  constructor
  · intro text cause hparsed hread
    have hevent : call.event? = none := by
      simp [ProcessCall.event?, hparsed, hread, Except.toOption]
    rw [process_of_noEvent t hevent, hparsed]
    rfl
  · intro e hevent
    exact woven_of_event t hevent

/-- A call with topics of all kinds, some of them with fields of their own. -/
def mixedCall (raw : String) : ProcessCall :=
  ⟨.json, raw, .event,
    [(Topic.plain "records" .raw).addField "site" (Value.ofString "east"),
      .plain "changes" .statusTrace, .plain "metrics" .unsupported,
      (Topic.plain "elsewhere" .statusTrace).addField FieldName.cluster (Value.ofString "b"),
      .plain "repeats" .statusTrace, .plain "archive" .raw]⟩

theorem event?_mixedCall {raw : String} {e : Event}
    (h : Event.ofText (Text.trim raw) = .ok e) : (mixedCall raw).event? = some e := by
  show ((some (Text.trim raw)).bind fun text => (Event.ofText text).toOption) = some e
  rw [Option.bind_some, h]
  rfl

/-- A list is no record.  The start of a job is one, and four of six topics get a message of it:
    both raw topics, the first report topic, and the one that sees another job. -/
theorem processCall_woven_mixed :
    (Event.ofText "[1]" = .error .notAnObject ∧
      empty.processCall (mixedCall "[1]") = (some [], empty)) ∧
    (mixedCall (statusOf "a" "RUN").text).event? = some (statusOf "a" "RUN") ∧
      Woven empty (mixedCall (statusOf "a" "RUN").text) (statusOf "a" "RUN") ∧
      (empty.processCall (mixedCall (statusOf "a" "RUN").text)).1.map (List.map Message.topic) =
        some ["records", "changes", "elsewhere", "archive"] := by
  have hlist : Event.ofText "[1]" = .error .notAnObject := rfl
  have hparsed : (mixedCall "[1]").parser.parse? "[1]" .event = some "[1]" := by cbv
  have hread : Event.ofText (Text.trim (statusOf "a" "RUN").text) = .ok (statusOf "a" "RUN") := by
    cbv
  have hevent : (mixedCall (statusOf "a" "RUN").text).event? = some (statusOf "a" "RUN") :=
    event?_mixedCall hread
  refine ⟨⟨hlist, ?_⟩, hevent, ?_, ?_⟩
  · exact (processCall_woven empty (mixedCall "[1]")).1 "[1]" .notAnObject hparsed hlist
  · exact (processCall_woven empty (mixedCall (statusOf "a" "RUN").text)).2 _ hevent
  · rw [process_of_event empty hevent]
    decide +kernel

end Tracker

end JobTrace
