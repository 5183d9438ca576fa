import JobTrace.Proofs.Processing.FanOut
import JobTrace.Proofs.Tracking.Streams

/-!
# Descriptions only route

The describing fields that the tracker remembers of a job reach a report in one place: the fields
that its routing key and its properties are derived from.  Neither the text of a message nor where
it goes nor what is remembered of the states depends on them.

So two trackers that remember the same of the states, whatever descriptions they hold, cannot be
told apart by the contents of their messages.  The argument is a relation between two runs: each
event keeps the states of both equal and changes them by the same change, descriptions apart, and
every topic makes the same content of it.
-/

namespace JobTrace

/-- What a message says and where it goes, but not how it is routed. -/
def Message.content (m : Message) : String × String := (m.text, m.topic)

/-- A change without the describing fields of the job. -/
def StateChange.undescribed (c : StateChange) : StateChange := { c with properties := none }

/-- The content of a report is made without the describing fields. -/
theorem StateChange.content_message (c : StateChange) (e : Event) (topic : Topic) :
    (c.message e topic).content = (c.undescribed.message e topic).content := rfl

namespace Tracker

variable {t u : Tracker}

/-! ### One event -/

theorem detect_of_states_eq (h : t.states = u.states) (e : Event) :
    (t.detect e).1.map StateChange.undescribed = (u.detect e).1.map StateChange.undescribed ∧
      (t.detect e).2.states = (u.detect e).2.states := by
  cases hc : classify? e with
  | none =>
    rw [detect_of_unclassified hc, detect_of_unclassified hc, states_recordProperties,
      states_recordProperties]
    exact ⟨rfl, h⟩
  | some c =>
    have hchange : ∀ last, (t.changeTo e c last).undescribed = (u.changeTo e c last).undescribed :=
      fun last => rfl
    have hmove : (t.moveTo e c.state).states = (u.moveTo e c.state).states := by
      rw [states_moveTo, states_moveTo, h]
    have hrecord : (t.recordProperties e).states = (u.recordProperties e).states := by
      rw [states_recordProperties, states_recordProperties, h]
    cases hread : t.states.read (JobIdentity.ofEvent e).key with
    | none =>
      rw [detect_of_unfollowed hc hread, detect_of_unfollowed hc (h ▸ hread)]
      refine ⟨congrArg some (hchange none), ?_⟩
      cases c.state.isFinal with
      | true => exact hrecord
      | false => exact hmove
    | some last =>
      by_cases hsame : last = c.state.code
      · subst hsame
        rw [detect_of_repeated hc hread, detect_of_repeated hc (h ▸ hread)]
        exact ⟨rfl, hrecord⟩
      · rw [detect_of_moved hc hread hsame, detect_of_moved hc (h ▸ hread) hsame]
        refine ⟨congrArg some (hchange (some last)), ?_⟩
        cases c.state.isFinal with
        | true => exact congrArg (fun s : StateStore => s.delete _) hrecord
        | false => exact hmove

theorem states_detectAll_of_eq (h : t.states = u.states) (es : List Event) :
    (t.detectAll es).2.states = (u.detectAll es).2.states := by
  induction es generalizing t u with
  | nil => exact h
  | cons e es ih => exact ih (detect_of_states_eq h e).2

/-! ### One topic -/

theorem content_offer_of_states_eq (h : t.states = u.states) (e : Event) (topic : Topic) :
    (t.offer e topic).1.map Message.content = (u.offer e topic).1.map Message.content := by
  by_cases htrace : topic.kind = .statusTrace
  · obtain ⟨hchange, -⟩ := detect_of_states_eq h (e.seenBy topic)
    -- The content of a report factors through the change without its description.
    have hfactor : ∀ change? : Option StateChange,
        (change?.map fun c => c.message (e.seenBy topic) topic).map Message.content =
          (change?.map StateChange.undescribed).map fun c =>
            (c.message (e.seenBy topic) topic).content := by
      intro change?
      cases change? with
      | none => rfl
      | some c => exact congrArg some (c.content_message _ topic)
    rw [offer_of_trace t e htrace, offer_of_trace u e htrace, hfactor, hfactor, hchange]
  · obtain ⟨answer, hoffer⟩ := offer_of_ne_trace e htrace
    rw [hoffer t, hoffer u]

/-! ### All topics -/

theorem map_content_answers_of_states_eq (h : t.states = u.states) (e : Event)
    (topics : List Topic) :
    (t.answers e topics).map (Option.map Message.content) =
      (u.answers e topics).map (Option.map Message.content) := by
  apply List.ext_getElem?
  intro n
  rw [List.getElem?_map, List.getElem?_map, getElem?_answers, getElem?_answers]
  cases topics[n]? with
  | none => rfl
  | some topic =>
    have hviews := states_detectAll_of_eq h (reportViews e (topics.take n))
    exact congrArg some (content_offer_of_states_eq hviews e topic)

/-- A topic that reports no changes of state is given the very same message. -/
theorem getElem?_answers_of_ne_trace {topics : List Topic} {n : Nat} {topic : Topic}
    (hn : topics[n]? = some topic) (hkind : topic.kind ≠ .statusTrace) (t u : Tracker)
    (e : Event) : (t.answers e topics)[n]? = (u.answers e topics)[n]? := by
  obtain ⟨answer, hoffer⟩ := offer_of_ne_trace e hkind
  rw [getElem?_answers, getElem?_answers, hn, Option.map_some, Option.map_some, hoffer, hoffer]

/-! ### All records -/

/-- A call differs from one tracker to the other in the routing of reports at most. -/
structure SameBesideRouting (t u : Tracker) (call : ProcessCall) : Prop where
  /-- The messages are as many, and one by one they say the same and go to the same place. -/
  contents : (t.processCall call).1.map (List.map Message.content) =
    (u.processCall call).1.map (List.map Message.content)
  /-- Messages that are no reports are the same altogether. -/
  others : ∀ (n : Nat) (topic : Topic), call.topics[n]? = some topic →
    topic.kind ≠ .statusTrace → (t.answersTo call)[n]? = (u.answersTo call)[n]?
  /-- The same is remembered of the states, and both stores of them have the same flag. -/
  states : (t.processCall call).2.states = (u.processCall call).2.states

theorem sameBesideRouting_of_states_eq (h : t.states = u.states) (call : ProcessCall) :
    SameBesideRouting t u call := by
  cases hevent : call.event? with
  | none =>
    constructor
    · rw [process_of_noEvent t hevent, process_of_noEvent u hevent]
    · intro n topic _ _
      rw [answersTo_of_noEvent t hevent, answersTo_of_noEvent u hevent]
    · rw [process_of_noEvent t hevent, process_of_noEvent u hevent]
      exact h
  | some e =>
    have hgaps : ∀ answers : List (Option Message),
        (answers.filterMap id).map Message.content =
          (answers.map (Option.map Message.content)).filterMap id := by
      intro answers
      rw [List.map_filterMap, List.filterMap_map]
      rfl
    constructor
    · rw [process_of_event t hevent, process_of_event u hevent, Option.map_some, Option.map_some,
        hgaps, hgaps, map_content_answers_of_states_eq h]
    · intro n topic hn hkind
      rw [answersTo_of_event t hevent, answersTo_of_event u hevent]
      exact getElem?_answers_of_ne_trace hn hkind t u e
    · rw [process_of_event t hevent, process_of_event u hevent]
      exact states_detectAll_of_eq h (reportViews e call.topics)

theorem states_processAll_of_eq (h : t.states = u.states) (calls : List ProcessCall) :
    (t.processAll calls).states = (u.processAll calls).states := by
  induction calls generalizing t u with
  | nil => exact h
  | cons call calls ih => exact ih (sameBesideRouting_of_states_eq h call).states

/-- Whatever descriptions two trackers start with, and whatever records they have both processed
    since then: the next record has the same messages in both, the routing of reports apart, and
    the same is remembered of the states. -/
theorem descriptions_only_route (states : StateStore) (properties properties' : PropertyStore)
    (calls : List ProcessCall) (call : ProcessCall) :
    SameBesideRouting ((⟨states, properties⟩ : Tracker).processAll calls)
      ((⟨states, properties'⟩ : Tracker).processAll calls) call := by
  have hstart :
      (⟨states, properties⟩ : Tracker).states = (⟨states, properties'⟩ : Tracker).states := rfl
  exact sameBesideRouting_of_states_eq (states_processAll_of_eq hstart calls) call

/-- To the routing key they do make a difference. -/
example :
    let topic : Topic := { Topic.plain "t" .statusTrace with routingKeys := ["user_name"] }
    let described : PropertyStore :=
      Store.empty.write "a_-1_-1" (Dict.ofList [("user_name", "alice")])
    ((⟨Store.empty, described⟩ : Tracker).offer (statusOf "a" "RUN") topic).1.map
        (fun message => message.routingKey) = some "alice" ∧
      (empty.offer (statusOf "a" "RUN") topic).1.map (fun message => message.routingKey) =
        some "" := by
  decide +kernel

end Tracker

end JobTrace
