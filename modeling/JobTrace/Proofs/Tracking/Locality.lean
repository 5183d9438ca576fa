import JobTrace.Proofs.Job.Key
import JobTrace.Proofs.Tracking.Detection

/-!
# An event concerns one job

Detecting an event reads what is remembered of one job and touches nothing else.  Two trackers
that remember the same of that job answer the event alike, and the same happens to the entry of
the job in both (`detect_of_agree`).  Keys of different jobs are different, so events of different
jobs commute, and a run depends only on the order in which the events of each single job come.

The flag of a store takes part in all of this: it tells that something was touched, even when the
entry afterwards is what it was before.  So what is compared are the operations on a store and not
only the entries that they leave behind.
-/

namespace JobTrace

/-! ### Touching one entry of a store -/

/-- What happens to one entry of a store. -/
inductive Touch (α : Type) where
  | keep
  | put (value : α)
  | drop

namespace Touch

variable {α : Type}

def apply : Touch α → Option α → Option α
  | keep, entry => entry
  | put value, _ => some value
  | drop, _ => none

def marks : Touch α → Bool
  | keep => false
  | put _ => true
  | drop => true

end Touch

namespace Store

variable {α : Type}

def touch (s : Store α) (key : String) : Touch α → Store α
  | .keep => s
  | .put value => s.write key value
  | .drop => s.delete key

theorem read_touch (s : Store α) (key : String) (a : Touch α) (k : String) :
    (s.touch key a).read k = if key = k then a.apply (s.read k) else s.read k := by
  cases a with
  | keep => exact (ite_self _).symm
  | put value => exact s.read_write key value k
  | drop => exact s.read_delete key k

theorem dirty_touch (s : Store α) (key : String) (a : Touch α) :
    (s.touch key a).dirty = (s.dirty || a.marks) := by
  cases a with
  | keep => exact (Bool.or_false _).symm
  | put value => exact (Bool.or_true _).symm
  | drop => exact (Bool.or_true _).symm

theorem touch_comm (s : Store α) {key key' : String} (h : key ≠ key') (a b : Touch α) :
    (s.touch key a).touch key' b = (s.touch key' b).touch key a := by
  apply ext_read
  · intro k
    simp only [read_touch]
    by_cases hk : key = k
    · subst hk
      rw [if_neg h.symm, if_neg h.symm]
    · rw [if_neg hk, if_neg hk]
  · simp only [dirty_touch]
    exact Bool.or_right_comm ..

theorem delete_touch (s : Store α) (key : String) (a : Touch α) :
    (s.touch key a).delete key = s.delete key := by
  apply ext_read
  · intro k
    rw [read_delete, read_delete, read_touch]
    by_cases hk : key = k
    · rw [if_pos hk, if_pos hk]
    · rw [if_neg hk, if_neg hk, if_neg hk]
  · rfl

end Store

namespace Tracker

def touch (t : Tracker) (key : String) (a : Touch Int64) (b : Touch (Dict String)) : Tracker :=
  ⟨t.states.touch key a, t.properties.touch key b⟩

theorem touch_comm (t : Tracker) {key key' : String} (h : key ≠ key') (a a' : Touch Int64)
    (b b' : Touch (Dict String)) :
    (t.touch key a b).touch key' a' b' = (t.touch key' a' b').touch key a b := by
  apply Tracker.ext
  · exact t.states.touch_comm h a a'
  · exact t.properties.touch_comm h b b'

/-- The same is remembered under a key. -/
structure Agree (t u : Tracker) (key : String) : Prop where
  states : t.states.read key = u.states.read key
  properties : t.properties.read key = u.properties.read key

theorem Agree.trans {t u v : Tracker} {key : String} (h : Agree t u key) (h' : Agree u v key) :
    Agree t v key :=
  ⟨h.states.trans h'.states, h.properties.trans h'.properties⟩

theorem agree_touch (t : Tracker) {key k : String} (h : key ≠ k) (a : Touch Int64)
    (b : Touch (Dict String)) : Agree t (t.touch key a b) k := by
  constructor
  · exact ((t.states.read_touch key a k).trans (if_neg h)).symm
  · exact ((t.properties.read_touch key b k).trans (if_neg h)).symm

/-! ### One event -/

theorem exists_recordProperties_eq (e : Event) :
    ∃ b, ∀ t : Tracker, t.recordProperties e = t.touch (JobIdentity.ofEvent e).key .keep b := by
  by_cases hnew : e.eventType = EventType.jobNew
  · refine ⟨.put (describe e), ?_⟩
    intro t
    exact if_pos hnew
  · refine ⟨.keep, ?_⟩
    intro t
    exact if_neg hnew

/-- What an event is answered, and what happens to the entries of its job, depends on these
    entries alone. -/
theorem detect_of_agree {t u : Tracker} {e : Event}
    (h : Agree t u (JobIdentity.ofEvent e).key) :
    ∃ answer a b, t.detect e = (answer, t.touch (JobIdentity.ofEvent e).key a b) ∧
      u.detect e = (answer, u.touch (JobIdentity.ofEvent e).key a b) := by
  obtain ⟨b, hrecord⟩ := exists_recordProperties_eq e
  -- The entries agree, so both trackers take the same row of `detect`.
  cases hc : classify? e with
  | none =>
    refine ⟨none, .keep, b, ?_, ?_⟩
    · rw [detect_of_unclassified hc, hrecord]
    · rw [detect_of_unclassified hc, hrecord]
  | some c =>
    have hchange : ∀ last, u.changeTo e c last = t.changeTo e c last := by
      intro last
      simp only [changeTo, hrecord, touch, Store.read_touch, h.properties]
    have hmove : ∀ v : Tracker, v.moveTo e c.state =
        v.touch (JobIdentity.ofEvent e).key (.put c.state.code) b := by
      intro v
      rw [moveTo, hrecord]
      rfl
    have hforget : ∀ v : Tracker, (v.recordProperties e).forget (JobIdentity.ofEvent e).key =
        v.touch (JobIdentity.ofEvent e).key .drop .drop := by
      intro v
      rw [forget, hrecord]
      -- What was captured just before is deleted with the rest.
      exact congrArg _ (v.properties.delete_touch _ b)
    cases hread : t.states.read (JobIdentity.ofEvent e).key with
    | none =>
      have hread' := h.states.symm.trans hread
      rw [detect_of_unfollowed hc hread, detect_of_unfollowed hc hread', hchange, hmove, hmove,
        hrecord, hrecord]
      cases c.state.isFinal with
      | true => exact ⟨_, .keep, b, rfl, rfl⟩
      | false => exact ⟨_, .put c.state.code, b, rfl, rfl⟩
    | some last =>
      have hread' := h.states.symm.trans hread
      by_cases hsame : last = c.state.code
      · subst hsame
        rw [detect_of_repeated hc hread, detect_of_repeated hc hread', hrecord, hrecord]
        exact ⟨none, .keep, b, rfl, rfl⟩
      · rw [detect_of_moved hc hread hsame, detect_of_moved hc hread' hsame, hchange, hmove, hmove,
          hforget, hforget]
        cases c.state.isFinal with
        | true => exact ⟨_, .drop, .drop, rfl, rfl⟩
        | false => exact ⟨_, .put c.state.code, b, rfl, rfl⟩

theorem answer_eq_of_agree {t u : Tracker} {e : Event}
    (h : Agree t u (JobIdentity.ofEvent e).key) : (t.detect e).1 = (u.detect e).1 := by
  obtain ⟨_, _, _, ht, hu⟩ := detect_of_agree h
  rw [ht, hu]

/-- Under the keys of other jobs the same is remembered as before. -/
theorem agree_detect_of_ne (t : Tracker) {e : Event} {key : String}
    (h : (JobIdentity.ofEvent e).key ≠ key) : Agree t (t.detect e).2 key := by
  obtain ⟨_, a, b, hdetect, -⟩ := detect_of_agree (t := t) (u := t) (e := e) ⟨rfl, rfl⟩
  rw [hdetect]
  exact agree_touch t h a b

/-- Events of different jobs are answered alike in either order and leave the same behind. -/
theorem detect_comm (t : Tracker) {e f : Event}
    (h : JobIdentity.ofEvent e ≠ JobIdentity.ofEvent f) :
    ((t.detect e).2.detect f).1 = (t.detect f).1 ∧
      ((t.detect e).2.detect f).2 = ((t.detect f).2.detect e).2 := by
  have hkey := JobIdentity.key_ne h
  obtain ⟨_, a, b, he, hfe⟩ := detect_of_agree (agree_detect_of_ne t hkey.symm)
  obtain ⟨_, a', b', hf, hef⟩ := detect_of_agree (agree_detect_of_ne t hkey)
  constructor
  · rw [hef, hf]
  · rw [hef, hfe, he, hf]
    exact t.touch_comm hkey ..

end Tracker

end JobTrace
