import JobTrace.Processing
import JobTrace.Proofs.Tracking.Detection

/-!
# Only the contents of the stores count

The flags of the stores are for the flusher.  Nothing that is reported about a job, and nothing
that is remembered about it, depends on them: two trackers with the same contents give the same
messages and have the same contents afterwards.
-/

namespace JobTrace

namespace Store

variable {α : Type}

@[simp] theorem contents_write (s : Store α) (key : String) (value : α) :
    (s.write key value).contents = s.contents.insert key value := rfl

@[simp] theorem contents_delete (s : Store α) (key : String) :
    (s.delete key).contents = s.contents.erase key := rfl

end Store

namespace Tracker

/-- The stores hold the same; their flags may differ. -/
structure Alike (t u : Tracker) : Prop where
  states : t.states.contents = u.states.contents
  properties : t.properties.contents = u.properties.contents

namespace Alike

variable {t u : Tracker}

theorem refl (t : Tracker) : Alike t t := ⟨rfl, rfl⟩

theorem trans {v : Tracker} (h : Alike t u) (h' : Alike u v) : Alike t v :=
  ⟨h.states.trans h'.states, h.properties.trans h'.properties⟩

theorem read_states (h : Alike t u) (key : String) : t.states.read key = u.states.read key :=
  congrArg (fun d => d.get? key) h.states

theorem read_properties (h : Alike t u) (key : String) :
    t.properties.read key = u.properties.read key :=
  congrArg (fun d => d.get? key) h.properties

/-! ### Detecting -/

theorem recordProperties (h : Alike t u) (e : Event) :
    Alike (t.recordProperties e) (u.recordProperties e) := by
  unfold Tracker.recordProperties
  split
  · exact ⟨h.states, by simp [h.properties]⟩
  · exact h

theorem follow (h : Alike t u) (key : String) (state : JobState) :
    Alike (t.follow key state) (u.follow key state) :=
  ⟨by simp [h.states], h.properties⟩

theorem forget (h : Alike t u) (key : String) : Alike (t.forget key) (u.forget key) :=
  ⟨by simp [h.states], by simp [h.properties]⟩

theorem moveTo (h : Alike t u) (e : Event) (state : JobState) :
    Alike (t.moveTo e state) (u.moveTo e state) :=
  (h.recordProperties e).follow _ _

theorem changeTo (h : Alike t u) (e : Event) (c : Classification) (last : Option Int64) :
    t.changeTo e c last = u.changeTo e c last := by
  unfold Tracker.changeTo
  rw [(h.recordProperties e).read_properties]

theorem detect (h : Alike t u) (e : Event) :
    (t.detect e).1 = (u.detect e).1 ∧ Alike (t.detect e).2 (u.detect e).2 := by
  have hrecorded := h.recordProperties e
  cases hc : classify? e with
  | none =>
    rw [detect_of_unclassified hc, detect_of_unclassified hc]
    exact ⟨rfl, hrecorded⟩
  | some c =>
    have hread := h.read_states (JobIdentity.ofEvent e).key
    cases ht : t.states.read (JobIdentity.ofEvent e).key with
    | none =>
      rw [detect_of_unfollowed hc ht, detect_of_unfollowed hc (hread ▸ ht)]
      refine ⟨congrArg some (h.changeTo e c none), ?_⟩
      cases c.state.isFinal
      · exact h.moveTo e c.state
      · exact hrecorded
    | some last =>
      by_cases hlast : last = c.state.code
      · subst hlast
        rw [detect_of_repeated hc ht, detect_of_repeated hc (hread ▸ ht)]
        exact ⟨rfl, hrecorded⟩
      · rw [detect_of_moved hc ht hlast, detect_of_moved hc (hread ▸ ht) hlast]
        refine ⟨congrArg some (h.changeTo e c (some last)), ?_⟩
        cases c.state.isFinal
        · exact h.moveTo e c.state
        · exact hrecorded.forget _

/-! ### Processing a record -/

theorem report (h : Alike t u) (e : Event) (topic : Topic) :
    (t.report e topic).1 = (u.report e topic).1 ∧
      Alike (t.report e topic).2 (u.report e topic).2 := by
  obtain ⟨hchange, hnext⟩ := h.detect e
  unfold Tracker.report
  generalize t.detect e = dt at *
  generalize u.detect e = du at *
  obtain ⟨change, t'⟩ := dt
  obtain ⟨change', u'⟩ := du
  obtain rfl : change = change' := hchange
  cases change with
  | none => exact ⟨rfl, hnext⟩
  | some change => exact ⟨rfl, hnext⟩

theorem offer (h : Alike t u) (e : Event) (topic : Topic) :
    (t.offer e topic).1 = (u.offer e topic).1 ∧
      Alike (t.offer e topic).2 (u.offer e topic).2 := by
  unfold Tracker.offer
  cases topic.kind with
  | raw => exact ⟨rfl, h⟩
  | statusTrace => exact h.report _ topic
  | unsupported => exact ⟨rfl, h⟩

theorem fanOut (h : Alike t u) (e : Event) (topics : List Topic) :
    (t.fanOut e topics).1 = (u.fanOut e topics).1 ∧
      Alike (t.fanOut e topics).2 (u.fanOut e topics).2 := by
  induction topics generalizing t u with
  | nil => exact ⟨rfl, h⟩
  | cons topic topics ih =>
    obtain ⟨hmessage, hnext⟩ := h.offer e topic
    obtain ⟨hmessages, hlast⟩ := ih hnext
    simp only [Tracker.fanOut]
    rw [hmessage, hmessages]
    exact ⟨rfl, hlast⟩

theorem processText (h : Alike t u) (text : String) (topics : List Topic) :
    (t.processText text topics).1 = (u.processText text topics).1 ∧
      Alike (t.processText text topics).2 (u.processText text topics).2 := by
  unfold Tracker.processText
  generalize Event.ofText text = parsed
  cases parsed with
  | error e => exact ⟨rfl, h⟩
  | ok e => exact h.fanOut e topics

theorem process (h : Alike t u) (parser : RecordParser) (raw : String) (fileType : FileType)
    (topics : List Topic) :
    (t.process parser raw fileType topics).1 = (u.process parser raw fileType topics).1 ∧
      Alike (t.process parser raw fileType topics).2
        (u.process parser raw fileType topics).2 := by
  unfold Tracker.process
  generalize parser.parse? raw fileType = parsed
  cases parsed with
  | none => exact ⟨rfl, h⟩
  | some text =>
    obtain ⟨hmessages, hnext⟩ := h.processText text topics
    simp only
    rw [hmessages]
    exact ⟨rfl, hnext⟩

end Alike

end Tracker

end JobTrace
