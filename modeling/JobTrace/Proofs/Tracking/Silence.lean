import JobTrace.Proofs.Tracking.Streams

/-!
# Events that change nothing

An event is silent when it is no change: it tells of no state, or its job is followed in the state
that it tells of.  What is remembered of states does not notice a silent event, and the flag does
not either, since nothing is written and nothing is deleted.  The describing fields do not notice it
unless it creates a job, for these are captured before it is known whether the event is a change.
So a run of silent events that create no job ends with the stores that it began with, whatever its
length (`Tracker.detectAll_of_silent`).

Silent or not, an event touches its own job alone.
-/

namespace JobTrace

theorem JobState.ofName?_eq_none_iff {name : String} :
    ofName? name = none ↔ ∀ s : JobState, s.name ≠ name := by
  unfold ofName?
  rw [List.find?_eq_none]
  constructor
  · intro h s hs
    exact h s s.mem_all (decide_eq_true hs)
  · intro h s _ hs
    exact h s (of_decide_eq_true hs)

/-- An event tells of no state if its type is none of three, or if it reports a status that is the
    name of no state. -/
theorem classify?_eq_none_iff {e : Event} :
    classify? e = none ↔
      e.eventType ∉ [EventType.jobNew, EventType.jobStartAccept, EventType.jobStatus] ∨
      e.eventType = EventType.jobStatus ∧
        ∀ s : JobState, s.name ≠ e.textOf FieldName.jobStatus := by
  rw [← JobState.ofName?_eq_none_iff]
  unfold classify?
  by_cases hnew : e.eventType = EventType.jobNew
  · have hne : EventType.jobNew ≠ EventType.jobStatus := by decide
    rw [if_pos hnew]
    simp [hnew, hne]
  · by_cases hstart : e.eventType = EventType.jobStartAccept
    · have hne : EventType.jobStartAccept ≠ EventType.jobStatus := by decide
      rw [if_neg hnew, if_pos hstart]
      simp [hstart, hne]
    · by_cases hstatus : e.eventType = EventType.jobStatus
      · rw [if_neg hnew, if_neg hstart, if_pos hstatus]
        simp [hstatus]
      · rw [if_neg hnew, if_neg hstart, if_neg hstatus]
        simp [hnew, hstart, hstatus]

namespace Tracker

variable {t : Tracker} {e : Event}

/-- All that a silent event can do is to have its describing fields captured. -/
theorem snd_detect_of_silent (h : (t.detect e).1 = none) :
    (t.detect e).2 = t.recordProperties e := by
  cases hc : classify? e with
  | none => rw [detect_of_unclassified hc]
  | some c => rw [detect_of_repeated hc ((detect_eq_none_iff hc).1 h)]

theorem detect_of_silent (h : (t.detect e).1 = none) (hother : e.eventType ≠ EventType.jobNew) :
    (t.detect e).2 = t := by
  rw [snd_detect_of_silent h, recordProperties_of_other hother]

/-- Nothing is noticed of any number of silent events that create no job. -/
theorem detectAll_of_silent {es : List Event} (h : ∀ answer ∈ (t.detectAll es).1, answer = none)
    (hother : ∀ e ∈ es, e.eventType ≠ EventType.jobNew) : (t.detectAll es).2 = t := by
  induction es with
  | nil => rfl
  | cons e es ih =>
    simp only [detectAll, List.forall_mem_cons] at h hother ⊢
    rw [detect_of_silent h.1 hother.1] at h ⊢
    exact ih h.2 hother.2

/-- What an event does not touch, whatever is remembered and whatever the event is.  The stores are
    compared with their flags.  If the event is silent, the states are the same as before, and the
    describing fields too unless it creates a job.  Silent or not, it leaves every entry of another
    job.  And an event of an unknown type or of an unknown status leaves all as it was. -/
theorem detect_leaves_alone (t : Tracker) (e : Event) :
    ((t.detect e).1 = none →
      (t.detect e).2.states = t.states ∧
      (e.eventType ≠ EventType.jobNew → (t.detect e).2.properties = t.properties)) ∧
    (∀ key, key ≠ (JobIdentity.ofEvent e).key →
      (t.detect e).2.states.read key = t.states.read key ∧
      (t.detect e).2.properties.read key = t.properties.read key) ∧
    (e.eventType ∉ [EventType.jobNew, EventType.jobStartAccept, EventType.jobStatus] ∨
        e.eventType = EventType.jobStatus ∧
          (∀ s : JobState, s.name ≠ e.textOf FieldName.jobStatus) →
      t.detect e = (none, t)) := by
  refine ⟨?_, ?_, ?_⟩
  · intro hsilent
    constructor
    · rw [snd_detect_of_silent hsilent, states_recordProperties]
    · intro hother
      rw [detect_of_silent hsilent hother]
  · intro key hkey
    have hagree : Agree t (t.detect e).2 key := agree_detect_of_ne t hkey.symm
    exact ⟨hagree.states.symm, hagree.properties.symm⟩
  · intro hunknown
    have hc : classify? e = none := classify?_eq_none_iff.2 hunknown
    rw [detect_of_unclassified hc, recordProperties_of_unclassified hc]

/-- A job that runs is reported to run, then to have a status that is none. -/
theorem detect_leaves_alone_running :
    (((empty.follow "a_-1_-1" .run).detect (statusOf "a" "RUN")).2.states =
        (empty.follow "a_-1_-1" .run).states ∧
      ((empty.follow "a_-1_-1" .run).detect (statusOf "a" "RUN")).2.properties =
        (empty.follow "a_-1_-1" .run).properties) ∧
    ((empty.follow "a_-1_-1" .run).detect (statusOf "b" "EXIT")).2.states.read "a_-1_-1" =
      some 2 ∧
    (empty.follow "a_-1_-1" .run).detect (statusOf "a" "BOGUS") =
      (none, empty.follow "a_-1_-1" .run) := by
  refine ⟨?_, ?_, ?_⟩
  · have hsilent : ((empty.follow "a_-1_-1" .run).detect (statusOf "a" "RUN")).1 = none := by
      decide +kernel
    have hother : (statusOf "a" "RUN").eventType ≠ EventType.jobNew := by decide +kernel
    obtain ⟨hstates, hproperties⟩ := (detect_leaves_alone _ _).1 hsilent
    exact ⟨hstates, hproperties hother⟩
  · have hkey : "a_-1_-1" ≠ (JobIdentity.ofEvent (statusOf "b" "EXIT")).key := by decide +kernel
    rw [((detect_leaves_alone _ _).2.1 _ hkey).1]
    decide +kernel
  · have hstatus : (statusOf "a" "BOGUS").eventType = EventType.jobStatus := by decide +kernel
    have hname : ∀ s : JobState, s.name ≠ (statusOf "a" "BOGUS").textOf FieldName.jobStatus := by
      intro s
      cases s <;> decide +kernel
    exact (detect_leaves_alone _ _).2.2 (.inr ⟨hstatus, hname⟩)

end Tracker

end JobTrace
