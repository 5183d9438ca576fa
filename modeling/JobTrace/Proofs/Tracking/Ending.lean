import JobTrace.Proofs.Tracking.Streams
import JobTrace.Proofs.Tracking.Upkeep

/-!
# How following a job ends

A final state ends the following of a job by a change: the job was followed in another state, the
change is reported, and both stores forget the job.  A final state that is no such change does not
touch the stores.  When nothing is remembered of the job, there is nothing to forget, and stores
that are in step (`Upkeep`) know no other case.

Snapshots of the two stores are loaded separately, though, and need not be in step.  A job may be
described without being followed, or be followed in the very final state that is observed now; then
its entries stay.
-/

namespace JobTrace

namespace Tracker

/-- Nothing is remembered under a key. -/
structure Forgotten (t : Tracker) (key : String) : Prop where
  states : t.states.read key = none
  properties : t.properties.read key = none

theorem forgotten_forget (t : Tracker) (key : String) : Forgotten (t.forget key) key := by
  constructor
  · rw [states_forget, Store.read_delete, if_pos rfl]
  · rw [properties_forget, Store.read_delete, if_pos rfl]

/-- In stores that are in step nobody is described who is not followed. -/
theorem Upkeep.forgotten {t : Tracker} (h : Upkeep t) {key : String}
    (hread : t.states.read key = none) : Forgotten t key := by
  refine ⟨hread, ?_⟩
  cases hdescription : t.properties.read key with
  | none => rfl
  | some description =>
    obtain ⟨code, hcode⟩ := h.followed key description hdescription
    rw [hread] at hcode
    exact absurd hcode (by simp)

/-- Stores that are in step hold no code of a final state. -/
theorem Upkeep.ne_code_of_final {t : Tracker} (h : Upkeep t) {key : String} {s : JobState}
    (hfinal : s.isFinal = true) : t.states.read key ≠ some s.code := by
  intro hread
  obtain ⟨s', hopen, hcode⟩ := h.codes key s.code hread
  rw [JobState.code_injective hcode, hfinal] at hopen
  exact absurd hopen (by decide)

/-- In stores that are in step a final state always ends the following of its job. -/
theorem Upkeep.forgotten_detect {t : Tracker} (h : Upkeep t) {e : Event} {c : Classification}
    (hc : classify? e = some c) (hfinal : c.state.isFinal = true) :
    Forgotten (t.detect e).2 (JobIdentity.ofEvent e).key := by
  rcases detect_of_final (t := t) hc hfinal with ⟨_, -, -, hnext⟩ | ⟨hnone | hsame, hnext⟩
  · rw [hnext]
    exact forgotten_forget t _
  · rw [hnext]
    exact h.forgotten hnone
  · exact absurd hsame (h.ne_code_of_final hfinal)

/-- A final state leaves nothing of its job behind exactly when the job was followed in another
    state, or nothing was remembered of it before.  When the job was not followed in another
    state, the stores stay as they were, flags included.  After records that were processed from
    empty stores on, a final state always leaves nothing of its job behind. -/
theorem forgotten_detect_iff {t : Tracker} {e : Event} {c : Classification}
    (hc : classify? e = some c) (hfinal : c.state.isFinal = true) :
    (Forgotten (t.detect e).2 (JobIdentity.ofEvent e).key ↔
      (∃ last, t.states.read (JobIdentity.ofEvent e).key = some last ∧ last ≠ c.state.code) ∨
        Forgotten t (JobIdentity.ofEvent e).key) ∧
    ((¬ ∃ last, t.states.read (JobIdentity.ofEvent e).key = some last ∧ last ≠ c.state.code) →
      (t.detect e).2 = t) ∧
    (∀ calls, t = empty.processAll calls →
      Forgotten (t.detect e).2 (JobIdentity.ofEvent e).key) := by
  have hreached : ∀ calls, t = empty.processAll calls →
      Forgotten (t.detect e).2 (JobIdentity.ofEvent e).key := by
    rintro calls rfl
    have hup : Upkeep (empty.processAll calls) :=
      processAll_keeps (fun _ f hf => hf.detect f) upkeep_empty calls
    exact hup.forgotten_detect hc hfinal
  rcases detect_of_final (t := t) hc hfinal with ⟨last, hread, hne, hnext⟩ | ⟨hstay, hnext⟩
  · -- A change: both entries are deleted.
    have hmoved : ∃ last, t.states.read (JobIdentity.ofEvent e).key = some last ∧
        last ≠ c.state.code := ⟨last, hread, hne⟩
    refine ⟨iff_of_true ?_ (.inl hmoved), fun hnot => absurd hmoved hnot, hreached⟩
    rw [hnext]
    exact forgotten_forget t _
  · -- No change: nothing is touched, so what is left is what was there.
    have hnot : ¬ ∃ last, t.states.read (JobIdentity.ofEvent e).key = some last ∧
        last ≠ c.state.code := by
      rintro ⟨last, hread, hne⟩
      rcases hstay with hnone | hsame
      · rw [hnone] at hread
        exact absurd hread (by simp)
      · rw [hsame, Option.some.injEq] at hread
        exact hne hread.symm
    refine ⟨?_, fun _ => hnext, hreached⟩
    rw [hnext]
    exact (or_iff_right hnot).symm

/-- A job that is followed as running exits. -/
theorem forgotten_detect_running :
    classify? (statusOf "a" "EXIT") = some ⟨.exit, ""⟩ ∧ JobState.exit.isFinal = true ∧
      Forgotten ((empty.follow "a_-1_-1" .run).detect (statusOf "a" "EXIT")).2
        (JobIdentity.ofEvent (statusOf "a" "EXIT")).key := by
  have hc : classify? (statusOf "a" "EXIT") = some ⟨.exit, ""⟩ := by decide +kernel
  have hread : (empty.follow "a_-1_-1" .run).states.read
      (JobIdentity.ofEvent (statusOf "a" "EXIT")).key = some JobState.run.code := by
    decide +kernel
  have hmoved := (forgotten_detect_iff (t := empty.follow "a_-1_-1" .run) hc rfl).1
  exact ⟨hc, rfl, hmoved.2 (.inl ⟨_, hread, by decide⟩)⟩

/-- Stores that are not in step may keep a job beyond its end: here it is described, but the
    snapshot that told of its state is lost. -/
theorem not_forall_forgotten_detect :
    ¬ ∀ (t : Tracker) (e : Event) (c : Classification),
      classify? e = some c → c.state.isFinal = true →
      Forgotten (t.detect e).2 (JobIdentity.ofEvent e).key := by
  intro h
  have hc : classify? (statusOf "a" "EXIT") = some ⟨.exit, ""⟩ := by decide +kernel
  have hforgotten := h ⟨Store.empty, Store.empty.write "a_-1_-1" Dict.empty⟩ _ _ hc rfl
  exact absurd hforgotten.properties (by decide +kernel)

end Tracker

end JobTrace
