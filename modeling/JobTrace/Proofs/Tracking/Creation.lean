import Mathlib.Data.List.DropRight
import JobTrace.Proofs.Job.Key
import JobTrace.Proofs.Tracking.Ending

/-!
# What a change tells of the creation of its job

A job may be created several times, and it may end and be created again.  A change carries the
describing fields of the latest creation since the job ended last; the event itself counts if it
creates the job, and a change that ends the job still carries them.

Nothing of an earlier life is left when a job ends, whether it was followed or not: a job that is
not followed is not described either, which is part of `Upkeep`.
-/

namespace JobTrace

def Event.creates (e : Event) (i : JobIdentity) : Bool :=
  decide (JobIdentity.ofEvent e = i ∧ e.eventType = EventType.jobNew)

def Event.ends (e : Event) (i : JobIdentity) : Bool :=
  decide (JobIdentity.ofEvent e = i ∧ ∃ c ∈ classify? e, c.state.isFinal = true)

/-- The events after the last one that ended a job. -/
def sinceEnd (i : JobIdentity) (es : List Event) : List Event :=
  es.rtakeWhile fun e => !e.ends i

def lastCreation? (i : JobIdentity) (es : List Event) : Option Event :=
  (es.filter fun e => e.creates i).getLast?

theorem Event.ends_eq_true {e : Event} {i : JobIdentity} :
    e.ends i = true ↔
      JobIdentity.ofEvent e = i ∧ ∃ c, classify? e = some c ∧ c.state.isFinal = true := by
  simp [ends]

theorem sinceEnd_append_singleton (i : JobIdentity) (es : List Event) (e : Event) :
    sinceEnd i (es ++ [e]) = if e.ends i = true then [] else sinceEnd i es ++ [e] := by
  rw [sinceEnd, List.rtakeWhile_concat]
  cases e.ends i <;> rfl

theorem lastCreation?_append_singleton (i : JobIdentity) (es : List Event) (e : Event) :
    lastCreation? i (es ++ [e]) = if e.creates i = true then some e else lastCreation? i es := by
  rw [lastCreation?, List.filter_append]
  cases h : e.creates i with
  | true => simp [h]
  | false => simp [h, lastCreation?]

namespace Tracker

/-- Every job is described as it was created last in its present life. -/
def Describes (t : Tracker) (es : List Event) : Prop :=
  ∀ i : JobIdentity,
    t.properties.read i.key = (lastCreation? i (sinceEnd i es)).map describe

variable {t : Tracker} {es : List Event}

theorem Describes.recordProperties (h : t.Describes es) (e : Event) (i : JobIdentity) :
    (t.recordProperties e).properties.read i.key =
      (lastCreation? i (sinceEnd i es ++ [e])).map describe := by
  rw [lastCreation?_append_singleton]
  by_cases hnew : e.eventType = EventType.jobNew
  · rw [recordProperties_of_new hnew, Store.read_write]
    by_cases hi : JobIdentity.ofEvent e = i
    · subst hi
      simp [Event.creates, hnew]
    · rw [if_neg (JobIdentity.key_ne hi), h i]
      simp [Event.creates, hi]
  · rw [recordProperties_of_other hnew, h i]
    simp [Event.creates, hnew]

/-- An event that does not end a job leaves it described as it was captured. -/
theorem read_properties_detect {e : Event} {i : JobIdentity} (h : e.ends i = false) :
    (t.detect e).2.properties.read i.key = (t.recordProperties e).properties.read i.key := by
  cases hc : classify? e with
  | none => rw [detect_of_unclassified hc]
  | some c =>
    cases hread : t.states.read (JobIdentity.ofEvent e).key with
    | none =>
      rw [detect_of_unfollowed hc hread]
      cases c.state.isFinal <;> rfl
    | some last =>
      by_cases hsame : last = c.state.code
      · rw [detect_of_repeated hc (hsame ▸ hread)]
      · rw [detect_of_moved hc hread hsame]
        cases hfinal : c.state.isFinal with
        | false => rfl
        | true =>
          have hi : JobIdentity.ofEvent e ≠ i := by
            intro hi
            rw [Event.ends_eq_true.2 ⟨hi, c, hc, hfinal⟩] at h
            exact absurd h (by decide)
          simp only [if_true, properties_forget]
          rw [Store.read_delete, if_neg (JobIdentity.key_ne hi)]

/-- An event that ends a job leaves it without a description. -/
theorem read_properties_detect_of_ends (h : Upkeep t) {e : Event} {i : JobIdentity}
    (hends : e.ends i = true) : (t.detect e).2.properties.read i.key = none := by
  obtain ⟨rfl, c, hc, hfinal⟩ := Event.ends_eq_true.1 hends
  exact (h.forgotten_detect hc hfinal).properties

theorem Describes.detect (hup : Upkeep t) (h : t.Describes es) (e : Event) :
    (t.detect e).2.Describes (es ++ [e]) := by
  intro i
  rw [sinceEnd_append_singleton]
  cases hends : e.ends i with
  | true =>
    rw [read_properties_detect_of_ends hup hends]
    rfl
  | false =>
    rw [read_properties_detect hends, h.recordProperties e i]
    rfl

theorem upkeep_describes_detectAll (es : List Event) :
    Upkeep (empty.detectAll es).2 ∧ (empty.detectAll es).2.Describes es := by
  induction es using List.reverseRecOn with
  | nil => exact ⟨upkeep_empty, fun i => rfl⟩
  | append_singleton es e ih =>
    obtain ⟨hup, hdescribes⟩ := ih
    rw [detectAll_append]
    exact ⟨hup.detect e, hdescribes.detect hup e⟩

theorem properties_of_detect {e : Event} {change : StateChange}
    (h : (t.detect e).1 = some change) :
    change.identity = JobIdentity.ofEvent e ∧
      change.properties = (t.recordProperties e).properties.read (JobIdentity.ofEvent e).key := by
  have hchangeTo : ∀ c last, some (t.changeTo e c last) = some change →
      change.identity = JobIdentity.ofEvent e ∧
        change.properties =
          (t.recordProperties e).properties.read (JobIdentity.ofEvent e).key := by
    rintro c last ⟨rfl⟩
    exact ⟨rfl, rfl⟩
  cases hc : classify? e with
  | none =>
    rw [detect_of_unclassified hc] at h
    exact absurd h (by simp)
  | some c =>
    cases hread : t.states.read (JobIdentity.ofEvent e).key with
    | none =>
      rw [detect_of_unfollowed hc hread] at h
      exact hchangeTo c none h
    | some last =>
      by_cases hsame : last = c.state.code
      · rw [detect_of_repeated hc (hsame ▸ hread)] at h
        exact absurd h (by simp)
      · rw [detect_of_moved hc hread hsame] at h
        exact hchangeTo c (some last) h

/-- A change carries the describing fields of the latest creation of its job, up to the event that
    it is reported for, since the job ended last before that event; without one it carries
    none. -/
theorem properties_of_change {es : List Event} {n : Nat} {e : Event} {change : StateChange}
    (he : es[n]? = some e) (hchange : (empty.detectAll es).1[n]? = some (some change)) :
    change.properties =
        (lastCreation? change.identity (sinceEnd change.identity (es.take n) ++ [e])).map
          describe ∧
      ∀ created name, (describe created).get? name =
        if name ∈ FieldName.descriptive then some (created.textOf name) else none := by
  rw [getElem?_detectAll, he, Option.map_some, Option.some.injEq] at hchange
  obtain ⟨hidentity, hproperties⟩ := properties_of_detect hchange
  obtain ⟨-, hdescribes⟩ := upkeep_describes_detectAll (es.take n)
  refine ⟨?_, get?_describe⟩
  rw [hproperties, hidentity]
  exact hdescribes.recordProperties e _

def creationBy (user : String) : Event :=
  (Event.empty.insert FieldName.eventType (Value.ofString EventType.jobNew)).insert "user_name"
    (Value.ofString user)

def exitReport : Event :=
  (Event.empty.insert FieldName.eventType (Value.ofString EventType.jobStatus)).insert
    FieldName.jobStatus (Value.ofString JobState.exit.name)

/-- A job without any identifying field ends, and then it is created twice and ends again. -/
def twoLives : List Event :=
  [creationBy "alice", exitReport, creationBy "bob", creationBy "carol", exitReport]

def secondEnd : StateChange :=
  ⟨⟨"", -1, -1⟩, some JobState.pend.code, .exit, "", some (describe (creationBy "carol"))⟩

theorem properties_of_change_twoLives :
    twoLives[4]? = some exitReport ∧
      (empty.detectAll twoLives).1[4]? = some (some secondEnd) ∧
      secondEnd.properties = (lastCreation? secondEnd.identity
        (sinceEnd secondEnd.identity (twoLives.take 4) ++ [exitReport])).map describe := by
  have he : twoLives[4]? = some exitReport := rfl
  have hchange : (empty.detectAll twoLives).1[4]? = some (some secondEnd) := by decide +kernel
  exact ⟨he, hchange, (properties_of_change he hchange).1⟩

end Tracker

end JobTrace
