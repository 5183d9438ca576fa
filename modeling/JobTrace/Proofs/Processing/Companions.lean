import Mathlib
import JobTrace.Proofs.Processing.FanOut
import JobTrace.Proofs.Tracking.Repeats

/-!
# Report topics side by side

The topics of one record that report changes of state share the tracker, and each of them makes it
detect the event once more.  The first one is served as if it were alone.  For a later one the event
is a repetition, so what it is told follows from what is known of the second of two reports: it is
told nothing, unless the state is final; and a final state is told once more, but by then the
tracker has forgotten what the job was before (`told_again`).

Topics that add fields may see another job, or no report of a state at all.  They stand in nobody's
way as long as what they see tells nothing about the job of the record.
-/

namespace JobTrace

namespace Tracker

variable {t : Tracker} {e : Event} {topic first : Topic} {m n : Nat}

/-! ### A topic that sees the event as it is -/

/-- What a report topic at a place is told when it sees the event as it is: the event is detected
    once more, after it was detected for the report topics before. -/
def told (t : Tracker) (e : Event) (topics : List Topic) (n : Nat) : Option StateChange :=
  ((t.detectAll (reportViews e (topics.take n))).2.detect e).1

theorem getElem?_answers_of_trace (topics : List Topic) (hn : topics[n]? = some topic)
    (htrace : topic.kind = .statusTrace) (hplain : topic.addFields = Dict.empty) :
    (t.answers e topics)[n]? =
      some ((t.told e topics n).map fun change => change.message e topic) := by
  rw [getElem?_answers, hn, Option.map_some, offer_of_trace _ e htrace,
    e.seenBy_of_addFields_empty hplain]
  rfl

/-- As long as nobody was told about the job, a topic is told what it would be told alone. -/
theorem told_of_silent {topics : List Topic}
    (hsilent : ∀ f ∈ reportViews e (topics.take n),
      observation? (JobIdentity.ofEvent e) f = none) :
    t.told e topics n = (t.detect e).1 := by
  have hagree : Agree t (t.detectAll (reportViews e (topics.take n))).2
      (JobIdentity.ofEvent e).key := agree_detectAll_of_silent hsilent t
  exact (answer_eq_of_agree hagree).symm

/-- Nobody is told of an event that does not classify. -/
theorem told_of_unclassified (topics : List Topic) (n : Nat) (hc : classify? e = none) :
    t.told e topics n = none := by
  rw [told, detect_of_unclassified hc]

/-! ### Two topics that see the event as it is -/

/-- The part of a list before a place, split at an element that stands there. -/
theorem take_eq_append_cons {α : Type} {l : List α} {a : α} (hmn : m < n) (hm : l[m]? = some a) :
    l.take n = l.take m ++ a :: (l.take n).drop (m + 1) := by
  have hm' : (l.take n)[m]? = some a := by
    rw [List.getElem?_take_of_lt hmn]
    exact hm
  obtain ⟨hlt, hget⟩ := List.getElem?_eq_some_iff.1 hm'
  have hsplit : (l.take n).take m ++ (l.take n).drop m = l.take n := List.take_append_drop m _
  rw [List.drop_eq_getElem_cons hlt, hget, List.take_take, Nat.min_eq_left (Nat.le_of_lt hmn)]
    at hsplit
  exact hsplit.symm

section Two

variable {topics : List Topic} (hmn : m < n)
variable (hm : topics[m]? = some first) (hfirst : first.kind = .statusTrace)
variable (hfirstPlain : first.addFields = Dict.empty)

include hmn hm hfirst hfirstPlain

/-- What the topics before a place see, split at one of them that sees the event as it is. -/
theorem reportViews_take_eq :
    reportViews e (topics.take n) =
      reportViews e (topics.take m) ++ e :: reportViews e ((topics.take n).drop (m + 1)) := by
  have hview : reportViews e [first] = [e] := by
    simp [reportViews, hfirst, e.seenBy_of_addFields_empty hfirstPlain]
  calc reportViews e (topics.take n)
      = reportViews e (topics.take m ++ ([first] ++ (topics.take n).drop (m + 1))) :=
        congrArg (reportViews e) (take_eq_append_cons hmn hm)
    _ = reportViews e (topics.take m) ++ e :: reportViews e ((topics.take n).drop (m + 1)) := by
        rw [reportViews_append, reportViews_append, hview]
        rfl

/-- The later of two topics is told what the earlier one is told, once more. -/
theorem told_again {c : Classification} (hc : classify? e = some c)
    (hsilent : ∀ f ∈ reportViews e ((topics.take n).drop (m + 1)),
      observation? (JobIdentity.ofEvent e) f = none) :
    t.told e topics n =
      if c.state.isFinal then (t.told e topics m).map StateChange.retold else none := by
  have hagain : t.told e topics n =
      (t.detectAll (reportViews e (topics.take m))).2.answerAgain e
        (reportViews e ((topics.take n).drop (m + 1))) e := by
    rw [told, reportViews_take_eq hmn hm hfirst hfirstPlain, detectAll_append]
    rfl
  rw [hagain]
  exact answerAgain_self hc hsilent

end Two

/-! ### Calls -/

/-- What a report topic without fields of its own is given beside the other topics of a call.  It
    is served as if it were alone when the event does not classify, or when the report topics
    before it see nothing about the job.  Next behind a topic of its kind it is given nothing as
    long as the state is not final; and a final state is told to it as it is told to the topic
    before it, but for a job that was followed without the state before and without the
    describing fields. -/
theorem answersTo_beside {t : Tracker} {call : ProcessCall} {e : Event} {topic : Topic} {n : Nat}
    (he : call.event? = some e) (hn : call.topics[n]? = some topic)
    (htrace : topic.kind = .statusTrace) (hplain : topic.addFields = Dict.empty) :
    ((classify? e = none ∨ ∀ f ∈ reportViews e (call.topics.take n),
        observation? (JobIdentity.ofEvent e) f = none) →
      (t.answersTo call)[n]? = (t.answersTo (call.only topic))[0]?) ∧
    ∀ (c : Classification) (m : Nat) (first : Topic), classify? e = some c → m < n →
      call.topics[m]? = some first → first.kind = .statusTrace → first.addFields = Dict.empty →
      (∀ f ∈ reportViews e ((call.topics.take n).drop (m + 1)),
        observation? (JobIdentity.ofEvent e) f = none) →
      (t.answersTo call)[m]? =
          some ((t.told e call.topics m).map fun change => change.message e first) ∧
        (t.answersTo call)[n]? =
          some ((if c.state.isFinal then (t.told e call.topics m).map StateChange.retold
            else none).map fun change => change.message e topic) := by
  have honly : (call.only topic).event? = some e := he
  rw [answersTo_of_event t he, answersTo_of_event t honly, ProcessCall.topics_only,
    getElem?_answers_of_trace call.topics hn htrace hplain,
    getElem?_answers_of_trace [topic] rfl htrace hplain]
  constructor
  · rintro (hc | hsilent)
    · rw [told_of_unclassified call.topics n hc, told_of_unclassified [topic] 0 hc]
    · rw [told_of_silent hsilent]
      rfl
  · intro c m first hc hmn hm hfirst hfirstPlain hsilent
    constructor
    · exact getElem?_answers_of_trace call.topics hm hfirst hfirstPlain
    · rw [told_again hmn hm hfirst hfirstPlain hc hsilent]

/-- A record that is reported to two topics. -/
def reportTwice (e : Event) : ProcessCall :=
  ⟨.json, e.text, .event, [.plain "a" .statusTrace, .plain "b" .statusTrace]⟩

theorem event?_reportTwice :
    (reportTwice (statusOf "a" "RUN")).event? = some (statusOf "a" "RUN") := by cbv

theorem classify?_statusOf_run : classify? (statusOf "a" "RUN") = some ⟨.run, ""⟩ := by
  decide +kernel

/-- The start of a job is reported to the first of two topics only. -/
theorem answersTo_beside_run :
    (reportTwice (statusOf "a" "RUN")).event? = some (statusOf "a" "RUN") ∧
      classify? (statusOf "a" "RUN") = some ⟨.run, ""⟩ ∧
      (empty.answersTo (reportTwice (statusOf "a" "RUN")))[1]? = some none := by
  have hbeside := (answersTo_beside (t := empty) (n := 1) event?_reportTwice rfl rfl rfl).2 _ 0 _
    classify?_statusOf_run Nat.zero_lt_one rfl rfl rfl (by simp [reportTwice, reportViews])
  exact ⟨event?_reportTwice, classify?_statusOf_run, hbeside.2⟩

/-- Report topics are not served as if each were alone: alone, the second topic would be told of
    the start as well. -/
theorem not_forall_answersTo_only :
    ¬ ∀ (t : Tracker) (call : ProcessCall) (n : Nat) (topic : Topic),
      call.topics[n]? = some topic → topic.kind = .statusTrace → topic.addFields = Dict.empty →
      (t.answersTo call)[n]? = (t.answersTo (call.only topic))[0]? := by
  intro h
  have hsame := h empty (reportTwice (statusOf "a" "RUN")) 1 (.plain "b" .statusTrace) rfl rfl rfl
  have honly : ((reportTwice (statusOf "a" "RUN")).only (.plain "b" .statusTrace)).event? =
      some (statusOf "a" "RUN") := event?_reportTwice
  have hbeside : empty.told (statusOf "a" "RUN") (reportTwice (statusOf "a" "RUN")).topics 1 =
      none :=
    told_again Nat.zero_lt_one rfl rfl rfl classify?_statusOf_run
      (by simp [reportTwice, reportViews])
  have halone : empty.told (statusOf "a" "RUN") [.plain "b" .statusTrace] 0 ≠ none := by
    rw [told, ne_eq, detect_eq_none_iff classify?_statusOf_run]
    decide +kernel
  rw [answersTo_of_event empty event?_reportTwice, answersTo_of_event empty honly,
    ProcessCall.topics_only, getElem?_answers_of_trace _ rfl rfl rfl, hbeside,
    getElem?_answers_of_trace [_] rfl rfl rfl, Option.map_none, Option.some.injEq] at hsame
  exact halone (Option.map_eq_none_iff.1 hsame.symm)

end Tracker

end JobTrace
