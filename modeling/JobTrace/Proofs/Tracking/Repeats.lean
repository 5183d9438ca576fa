import JobTrace.Proofs.Tracking.History
import JobTrace.Proofs.Tracking.Streams

/-!
# The same state reported twice

Two reports of one job name the same state, and nothing else is told about the job between them.
If the state is not final, the second report is silent: whatever the store held before, it holds
the code of that state after the first one, and events that tell nothing about the job leave the
entry alone.

With a final state it is the other way round.  The first report makes the tracker forget the job,
or finds it forgotten already, and so the second one cannot be recognised; it is answered as a
first observation.  The only exception is a store that held the code of that very final state from
the beginning.  No run from empty stores writes such a code, but a snapshot may hold one.
-/

namespace JobTrace

/-- A change as it is told once more.  When the job was followed, it is forgotten by then, and
    neither the state before nor the describing fields are left. -/
def StateChange.retold (change : StateChange) : StateChange :=
  match change.lastCode with
  | none => change
  | some _ => { change with lastCode := none, properties := none }

namespace Tracker

/-! ### Events that tell nothing about a job -/

theorem agree_detect_of_silent {i : JobIdentity} {e : Event} (h : observation? i e = none)
    (t : Tracker) : Agree t (t.detect e).2 i.key := by
  by_cases hi : JobIdentity.ofEvent e = i
  · subst hi
    rw [observation?_self] at h
    -- An event that creates a job classifies, so nothing is captured either.
    rw [detect_of_unclassified h, recordProperties_of_unclassified h]
    exact ⟨rfl, rfl⟩
  · exact agree_detect_of_ne t (JobIdentity.key_ne hi)

theorem agree_detectAll_of_silent {i : JobIdentity} {es : List Event}
    (h : ∀ e ∈ es, observation? i e = none) (t : Tracker) :
    Agree t (t.detectAll es).2 i.key := by
  induction es generalizing t with
  | nil => exact ⟨rfl, rfl⟩
  | cons e es ih =>
    have hfirst : Agree t (t.detect e).2 i.key :=
      agree_detect_of_silent (h e (List.mem_cons_self ..)) t
    have hrest : Agree (t.detect e).2 ((t.detect e).2.detectAll es).2 i.key :=
      ih (fun f hf => h f (List.mem_cons_of_mem e hf)) (t.detect e).2
    exact hfirst.trans hrest

/-! ### The second report -/

/-- The answer to the second of two events, other events having come between them. -/
def answerAgain (t : Tracker) (first : Event) (between : List Event) (second : Event) :
    Option StateChange :=
  (((t.detect first).2.detectAll between).2.detect second).1

section Again

variable {t : Tracker} {first second : Event} {between : List Event} {c c' : Classification}
variable (hc : classify? first = some c) (hc' : classify? second = some c')
variable (hjob : JobIdentity.ofEvent second = JobIdentity.ofEvent first)
variable (hstate : c'.state = c.state)
variable (hbetween : ∀ e ∈ between, observation? (JobIdentity.ofEvent first) e = none)

include hc hjob hbetween

/-- What the store holds of the job when the second report comes is what the first one left. -/
theorem read_states_again :
    ((t.detect first).2.detectAll between).2.states.read (JobIdentity.ofEvent second).key =
      if c.state.isFinal = false ∨
          t.states.read (JobIdentity.ofEvent first).key = some c.state.code then
        some c.state.code
      else none := by
  rw [hjob, ← (agree_detectAll_of_silent hbetween (t.detect first).2).states]
  exact read_states_detect_self hc

include hc'

theorem answerAgain_of_forgotten
    (hforgotten : ¬ (c.state.isFinal = false ∨
      t.states.read (JobIdentity.ofEvent first).key = some c.state.code)) :
    t.answerAgain first between second =
      some (((t.detect first).2.detectAll between).2.changeTo second c' none) := by
  have hread := read_states_again (t := t) hc hjob hbetween
  rw [if_neg hforgotten] at hread
  rw [answerAgain, detect_of_unfollowed hc' hread]

include hstate

theorem answerAgain_of_kept
    (hkept : c.state.isFinal = false ∨
      t.states.read (JobIdentity.ofEvent first).key = some c.state.code) :
    t.answerAgain first between second = none := by
  have hread := read_states_again (t := t) hc hjob hbetween
  rw [if_pos hkept, ← hstate] at hread
  rw [answerAgain, detect_of_repeated hc' hread]

theorem answerAgain_eq_none_iff :
    t.answerAgain first between second = none ↔
      c.state.isFinal = false ∨
        t.states.read (JobIdentity.ofEvent first).key = some c.state.code := by
  by_cases hkept : c.state.isFinal = false ∨
      t.states.read (JobIdentity.ofEvent first).key = some c.state.code
  · exact iff_of_true (answerAgain_of_kept hc hc' hjob hstate hbetween hkept) hkept
  · refine iff_of_false ?_ hkept
    rw [answerAgain_of_forgotten hc hc' hjob hbetween hkept]
    exact Option.some_ne_none _

end Again

/-- An event that is reported once more, nothing being told about its job between. -/
theorem answerAgain_self {t : Tracker} {e : Event} {between : List Event} {c : Classification}
    (hc : classify? e = some c)
    (hbetween : ∀ f ∈ between, observation? (JobIdentity.ofEvent e) f = none) :
    t.answerAgain e between e =
      if c.state.isFinal then (t.detect e).1.map StateChange.retold else none := by
  cases hfinal : c.state.isFinal with
  | false => exact answerAgain_of_kept hc hc rfl rfl hbetween (.inl hfinal)
  | true =>
    rw [if_pos rfl]
    have hagree := agree_detectAll_of_silent hbetween (t.detect e).2
    rcases detect_of_final (t := t) hc hfinal with
      ⟨last, hread, hne, hnext⟩ | ⟨hread | hread, hnext⟩
    · -- The job was followed: it is forgotten, its describing fields with it.
      have hdescription : ((t.detect e).2.detectAll between).2.properties.read
          (JobIdentity.ofEvent e).key = none := by
        rw [← hagree.properties, hnext, properties_forget, Store.read_delete, if_pos rfl]
      rw [answerAgain_of_forgotten hc hc rfl hbetween (by simp [hfinal, hread, hne]), changeTo,
        recordProperties_of_final hc hfinal, hdescription, detect_of_moved hc hread hne]
      rfl
    · -- The job was not followed: it is left alone, and the answer is the same again.
      rw [hnext] at hagree
      rw [answerAgain, hnext, ← answer_eq_of_agree hagree, detect_of_unfollowed hc hread]
      rfl
    · -- The job was followed in this very state: neither report is a change.
      rw [answerAgain_of_kept hc hc rfl rfl hbetween (.inr hread), detect_of_repeated hc hread]
      rfl

/-- A job is reported in one state twice, with nothing told about it between.  The second report
    is silent exactly when the state is not final, or when the store held the code of this state
    before the first report, which with a final state never happens in a run from empty stores.
    Otherwise the state is reported again, as if the job were seen for the first time. -/
theorem answerAgain_of_same_state {t : Tracker} {first second : Event} {between : List Event}
    {c c' : Classification} (hc : classify? first = some c) (hc' : classify? second = some c')
    (hjob : JobIdentity.ofEvent second = JobIdentity.ofEvent first) (hstate : c'.state = c.state)
    (hbetween : ∀ e ∈ between, observation? (JobIdentity.ofEvent first) e = none) :
    (t.answerAgain first between second = none ↔
      c.state.isFinal = false ∨
        t.states.read (JobIdentity.ofEvent first).key = some c.state.code) ∧
    (∀ change, t.answerAgain first between second = some change →
      change.identity = JobIdentity.ofEvent first ∧ change.lastCode = none ∧
        change.current = c.state ∧ change.reason = c'.reason) ∧
    (∀ before, t = (empty.detectAll before).2 →
      (t.answerAgain first between second = none ↔ c.state.isFinal = false)) := by
  have hsilent := answerAgain_eq_none_iff (t := t) hc hc' hjob hstate hbetween
  refine ⟨hsilent, ?_, ?_⟩
  · intro change hchange
    have hforgotten : ¬ (c.state.isFinal = false ∨
        t.states.read (JobIdentity.ofEvent first).key = some c.state.code) := by
      intro hkept
      rw [hsilent.2 hkept] at hchange
      exact absurd hchange (by simp)
    rw [answerAgain_of_forgotten hc hc' hjob hbetween hforgotten] at hchange
    obtain rfl := Option.some.inj hchange
    exact ⟨hjob, rfl, hstate, rfl⟩
  · rintro before rfl
    rw [hsilent]
    constructor
    · rintro (hopen | hstored)
      · exact hopen
      · -- A run from empty stores remembers codes of states that are not final only.
        rw [remembers_detectAll before] at hstored
        obtain ⟨_, -, -, hopen⟩ := followedCode_eq_some_code.1 hstored
        exact hopen
    · exact .inl

/-- A job starts, another one starts, and the start of the first is reported again. -/
theorem answerAgain_of_same_state_run :
    classify? (statusOf "a" "RUN") = some ⟨.run, ""⟩ ∧
      (∀ e ∈ [statusOf "b" "RUN"], observation? (JobIdentity.ofEvent (statusOf "a" "RUN")) e =
        none) ∧
      empty.answerAgain (statusOf "a" "RUN") [statusOf "b" "RUN"] (statusOf "a" "RUN") = none := by
  have hc : classify? (statusOf "a" "RUN") = some ⟨.run, ""⟩ := by decide +kernel
  have hbetween : ∀ e ∈ [statusOf "b" "RUN"],
      observation? (JobIdentity.ofEvent (statusOf "a" "RUN")) e = none := by
    intro e he
    rw [List.mem_singleton.1 he]
    exact observation?_of_ne (by decide +kernel)
  exact ⟨hc, hbetween, (answerAgain_of_same_state hc hc rfl rfl hbetween).1.2 (.inl rfl)⟩

/-- Not every state is reported once only: the exit of a job that is not followed is reported as
    often as it is observed. -/
theorem not_forall_answerAgain_eq_none :
    ¬ ∀ (before between : List Event) (first second : Event) (c c' : Classification),
      classify? first = some c → classify? second = some c' →
      JobIdentity.ofEvent second = JobIdentity.ofEvent first → c'.state = c.state →
      (∀ e ∈ between, observation? (JobIdentity.ofEvent first) e = none) →
      (empty.detectAll before).2.answerAgain first between second = none := by
  intro h
  have hc : classify? (statusOf "a" "EXIT") = some ⟨.exit, ""⟩ := by decide +kernel
  have hnone : empty.answerAgain (statusOf "a" "EXIT") [] (statusOf "a" "EXIT") = none :=
    h [] [] _ _ _ _ hc hc rfl rfl (by simp)
  exact absurd hnone (by decide +kernel)

end Tracker

end JobTrace
