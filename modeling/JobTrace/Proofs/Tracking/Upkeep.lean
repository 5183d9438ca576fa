import JobTrace.Processing
import JobTrace.Proofs.Tracking.Detection

/-!
# The stores stay in step

Both stores are changed by calls of their own, in different branches, and the describing fields are
captured before it is clear what the event means.  Still, after every record only jobs that are
followed are described, they are followed in states that are not final, and a description has the
describing fields and no others.  `Upkeep` is this invariant.

An event that ends a job never captures fields, and one that does not classify does not either;
so a capture always comes with an entry among the states.
-/

namespace JobTrace

namespace JobState

theorem code_of_not_final {s : JobState} (h : s.isFinal = false) : 0 ≤ s.code ∧ s.code ≤ 5 := by
  revert h
  cases s <;> decide

end JobState

/-- One call for a record, with the parser that it is made with. -/
structure ProcessCall where
  parser : RecordParser
  raw : String
  fileType : FileType
  topics : List Topic

namespace Tracker

structure Upkeep (t : Tracker) : Prop where
  codes : ∀ key code, t.states.read key = some code →
    ∃ s : JobState, s.isFinal = false ∧ s.code = code
  followed : ∀ key description, t.properties.read key = some description →
    ∃ code, t.states.read key = some code
  described : ∀ key description, t.properties.read key = some description →
    ∀ name, description.contains name = true ↔ name ∈ FieldName.descriptive

theorem upkeep_empty : Upkeep empty := by
  have hstates : ∀ key code, empty.states.read key ≠ some code := by
    intro key code
    simp [empty, Store.empty, Store.read]
  have hproperties : ∀ key description, empty.properties.read key ≠ some description := by
    intro key description
    simp [empty, Store.empty, Store.read]
  constructor
  case codes =>
    intro key code h
    exact absurd h (hstates key code)
  case followed =>
    intro key description h
    exact absurd h (hproperties key description)
  case described =>
    intro key description h
    exact absurd h (hproperties key description)

namespace Upkeep

variable {t : Tracker}

/-! ### One event -/

theorem follow (h : Upkeep t) (key : String) {s : JobState} (hs : s.isFinal = false) :
    Upkeep (t.follow key s) := by
  refine ⟨?_, ?_, h.described⟩
  · intro k code hread
    rw [states_follow, Store.read_write] at hread
    split at hread
    · exact ⟨s, hs, Option.some.inj hread⟩
    · exact h.codes k code hread
  · intro k description hread
    obtain ⟨code, hcode⟩ := h.followed k description hread
    rw [states_follow, Store.read_write]
    split
    · exact ⟨s.code, rfl⟩
    · exact ⟨code, hcode⟩

theorem forget (h : Upkeep t) (key : String) : Upkeep (t.forget key) := by
  have hkept : ∀ k description, (t.forget key).properties.read k = some description →
      key ≠ k ∧ t.properties.read k = some description := by
    intro k description hread
    rw [properties_forget, Store.read_delete] at hread
    split at hread
    · exact absurd hread (by simp)
    · next hk => exact ⟨hk, hread⟩
  constructor
  case codes =>
    intro k code hread
    rw [states_forget, Store.read_delete] at hread
    split at hread
    · exact absurd hread (by simp)
    · exact h.codes k code hread
  case followed =>
    intro k description hread
    -- Both entries are deleted at once, so a description that is left is that of another job.
    obtain ⟨hk, hdescription⟩ := hkept k description hread
    rw [states_forget, Store.read_delete, if_neg hk]
    exact h.followed k description hdescription
  case described =>
    intro k description hread
    exact h.described k description (hkept k description hread).2

/-- Fields may be captured for a job that is followed. -/
theorem recordProperties (h : Upkeep t) {e : Event} {code : Int64}
    (hread : t.states.read (JobIdentity.ofEvent e).key = some code) :
    Upkeep (t.recordProperties e) := by
  by_cases hnew : e.eventType = EventType.jobNew
  · rw [recordProperties_of_new hnew]
    refine ⟨h.codes, ?_, ?_⟩
    · intro k description hdescription
      rw [Store.read_write] at hdescription
      split at hdescription
      · next hk => exact ⟨code, hk ▸ hread⟩
      · exact h.followed k description hdescription
    · intro k description hdescription name
      rw [Store.read_write] at hdescription
      split at hdescription
      · obtain rfl := Option.some.inj hdescription
        rw [Dict.contains, get?_describe]
        split
        · next hname => simp [hname]
        · next hname => simp [hname]
      · exact h.described k description hdescription name
  · rw [recordProperties_of_other hnew]
    exact h

theorem moveTo (h : Upkeep t) (e : Event) {s : JobState} (hs : s.isFinal = false) :
    Upkeep (t.moveTo e s) := by
  -- The two stores do not see each other, so the state may as well be written first.
  have hswap : t.moveTo e s = (t.follow (JobIdentity.ofEvent e).key s).recordProperties e := by
    by_cases hnew : e.eventType = EventType.jobNew
    · rw [Tracker.moveTo, recordProperties_of_new hnew, recordProperties_of_new hnew]
      rfl
    · rw [Tracker.moveTo, recordProperties_of_other hnew, recordProperties_of_other hnew]
  have hread : (t.follow (JobIdentity.ofEvent e).key s).states.read (JobIdentity.ofEvent e).key =
      some s.code := by
    rw [states_follow, Store.read_write, if_pos rfl]
  rw [hswap]
  exact (h.follow _ hs).recordProperties hread

theorem detect (h : Upkeep t) (e : Event) : Upkeep (t.detect e).2 := by
  cases hc : classify? e with
  | none =>
    -- An event that creates a job classifies, so nothing was captured.
    rw [detect_of_unclassified hc, recordProperties_of_unclassified hc]
    exact h
  | some c =>
    cases hread : t.states.read (JobIdentity.ofEvent e).key with
    | none =>
      rw [detect_of_unfollowed hc hread]
      cases hfinal : c.state.isFinal with
      | true =>
        simp only [if_true, recordProperties_of_final hc hfinal]
        exact h
      | false => exact h.moveTo e hfinal
    | some last =>
      by_cases hsame : last = c.state.code
      · rw [detect_of_repeated hc (hsame ▸ hread)]
        exact h.recordProperties hread
      · rw [detect_of_moved hc hread hsame]
        cases hfinal : c.state.isFinal with
        | true =>
          simp only [if_true, recordProperties_of_final hc hfinal]
          exact h.forget _
        | false => exact h.moveTo e hfinal

end Upkeep

/-! ### Whole records -/

def processAll (t : Tracker) (calls : List ProcessCall) : Tracker :=
  calls.foldl (fun t call => (t.process call.parser call.raw call.fileType call.topics).2) t

section Keeping

variable {P : Tracker → Prop} (hdetect : ∀ t e, P t → P (t.detect e).2) {t : Tracker}

include hdetect

theorem report_keeps (h : P t) (e : Event) (topic : Topic) : P (t.report e topic).2 := by
  have hnext := hdetect t e h
  simp only [report]
  split
  · next heq =>
    rw [heq] at hnext
    exact hnext
  · next heq =>
    rw [heq] at hnext
    exact hnext

theorem offer_keeps (h : P t) (e : Event) (topic : Topic) : P (t.offer e topic).2 := by
  simp only [offer]
  cases topic.kind with
  | raw => exact h
  | statusTrace => exact report_keeps hdetect h _ topic
  | unsupported => exact h

theorem fanOut_keeps (h : P t) (e : Event) (topics : List Topic) : P (t.fanOut e topics).2 := by
  induction topics generalizing t with
  | nil => exact h
  | cons topic topics ih => exact ih (offer_keeps hdetect h e topic)

theorem process_keeps (h : P t) (parser : RecordParser) (raw : String) (fileType : FileType)
    (topics : List Topic) : P (t.process parser raw fileType topics).2 := by
  simp only [process]
  cases parser.parse? raw fileType with
  | none => exact h
  | some text =>
    simp only [processText]
    cases Event.ofText text with
    | error cause => exact h
    | ok e => exact fanOut_keeps hdetect h e topics

/-- What detecting keeps, processing any records keeps. -/
theorem processAll_keeps (h : P t) (calls : List ProcessCall) : P (t.processAll calls) := by
  induction calls generalizing t with
  | nil => exact h
  | cons call calls ih =>
    exact ih (process_keeps hdetect h call.parser call.raw call.fileType call.topics)

end Keeping

/-- Whatever records come, with whatever topics: stored codes are those of states that are not
    final, whoever is described is followed, and a description has the describing fields and no
    others. -/
theorem upkeep_processAll (calls : List ProcessCall) (key : String) :
    (∀ code, (empty.processAll calls).states.read key = some code →
      (0 ≤ code ∧ code ≤ 5) ∧ ∃ s : JobState, s.isFinal = false ∧ s.code = code) ∧
    ((empty.processAll calls).properties.contains key = true →
      (empty.processAll calls).states.contains key = true) ∧
    ∀ description, (empty.processAll calls).properties.read key = some description →
      ∀ name, description.contains name = true ↔ name ∈ FieldName.descriptive := by
  have h : Upkeep (empty.processAll calls) :=
    processAll_keeps (fun t e ht => ht.detect e) upkeep_empty calls
  refine ⟨?_, ?_, h.described key⟩
  · intro code hread
    obtain ⟨s, hs, rfl⟩ := h.codes key code hread
    exact ⟨JobState.code_of_not_final hs, s, hs, rfl⟩
  · intro hcontains
    obtain ⟨description, hdescription⟩ := Option.isSome_iff_exists.1 hcontains
    obtain ⟨code, hcode⟩ := h.followed key description hdescription
    exact Option.isSome_iff_exists.2 ⟨code, hcode⟩

end Tracker

end JobTrace
