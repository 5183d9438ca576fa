import Mathlib.Data.List.Induction
import JobTrace.Proofs.Tracking.Locality

/-!
# What is reported of each job

The detector sees one store and one event at a time, yet what it reports of a job is a law about
the history of that job alone: repeats of a state that is not final are left out, and everything
else is reported once.  Events of other jobs and events that do not classify may come anywhere
between; those that do not classify tell nothing about any job, and nothing is reported of them.

The invariant behind it is `Remembers`: after every run the store holds, for each job, the state
observed last unless that state is final.  It speaks of all jobs at once, because one step of
the detector touches the entry of one job and has to leave those of all others alone.
-/

namespace JobTrace

/-- What an event tells about a job, if it is about that job and classifies. -/
def observation? (i : JobIdentity) (e : Event) : Option Classification :=
  if JobIdentity.ofEvent e = i then classify? e else none

/-- What a sequence of events tells about a job, in order. -/
def observations (i : JobIdentity) (es : List Event) : List Classification :=
  es.filterMap (observation? i)

/-- The answers to the events that tell something about a job. -/
def answersFor (i : JobIdentity) (es : List Event) (answers : List (Option StateChange)) :
    List (Option StateChange) :=
  (es.zip answers).filterMap fun p => (observation? i p.1).map fun _ => p.2

/-- The code under which a job is followed after its last observation. -/
def followedCode : Option Classification → Option Int64
  | none => none
  | some c => if c.state.isFinal then none else some c.state.code

/-- An answer to an observation that comes after `previous`: silence exactly when a state that
    is not final is observed again, else the one change that this observation means. -/
structure Answers (i : JobIdentity) (previous : Option Classification) (c : Classification)
    (answer : Option StateChange) : Prop where
  silent_iff : answer = none ↔
    ∃ p, previous = some p ∧ p.state = c.state ∧ c.state.isFinal = false
  change : ∀ change, answer = some change →
    change.identity = i ∧ change.current = c.state ∧ change.reason = c.reason ∧
      change.lastCode = followedCode previous

theorem observation?_self (e : Event) :
    observation? (JobIdentity.ofEvent e) e = classify? e := if_pos rfl

theorem observation?_of_ne {i : JobIdentity} {e : Event} (h : JobIdentity.ofEvent e ≠ i) :
    observation? i e = none := if_neg h

theorem observation?_eq_some {i : JobIdentity} {e : Event} {c : Classification}
    (h : observation? i e = some c) : JobIdentity.ofEvent e = i ∧ classify? e = some c := by
  unfold observation? at h
  split at h
  · next hi => exact ⟨hi, h⟩
  · exact absurd h (by simp)

theorem observations_append_singleton (i : JobIdentity) (es : List Event) (e : Event) :
    observations i (es ++ [e]) = observations i es ++ (observation? i e).toList := by
  unfold observations
  rw [List.filterMap_append]
  cases h : observation? i e <;> simp [h]

theorem answersFor_append_singleton (i : JobIdentity) {es : List Event} (e : Event)
    {answers : List (Option StateChange)} (answer : Option StateChange)
    (hlen : es.length = answers.length) :
    answersFor i (es ++ [e]) (answers ++ [answer]) =
      answersFor i es answers ++ ((observation? i e).map fun _ => answer).toList := by
  unfold answersFor
  rw [List.zip_append hlen, List.filterMap_append]
  cases h : observation? i e <;> simp [h]

theorem followedCode_eq_some_code {previous : Option Classification} {s : JobState} :
    followedCode previous = some s.code ↔
      ∃ p, previous = some p ∧ p.state = s ∧ s.isFinal = false := by
  cases previous with
  | none => simp [followedCode]
  | some p =>
    constructor
    · intro h
      by_cases hfinal : p.state.isFinal = true
      · exact absurd h (by simp [followedCode, hfinal])
      · have hcode : some p.state.code = some s.code := by simpa [followedCode, hfinal] using h
        have hstate : p.state = s := JobState.code_injective (Option.some.inj hcode)
        exact ⟨p, rfl, hstate, by simpa [hstate] using hfinal⟩
    · rintro ⟨q, hq, hstate, hfinal⟩
      obtain rfl := Option.some.inj hq
      simp [followedCode, hstate, hfinal]

namespace Tracker

/-! ### One step -/

variable {t : Tracker} {e : Event} {c : Classification} {previous : Option Classification}

theorem answers_detect (hc : classify? e = some c)
    (hread : t.states.read (JobIdentity.ofEvent e).key = followedCode previous) :
    Answers (JobIdentity.ofEvent e) previous c (t.detect e).1 := by
  cases hlast : followedCode previous with
  | none =>
    rw [detect_of_unfollowed hc (hread.trans hlast)]
    refine ⟨⟨fun h => absurd h (by simp), fun h => ?_⟩, ?_⟩
    · have hcode := followedCode_eq_some_code.2 h
      rw [hlast] at hcode
      exact absurd hcode (by simp)
    · rintro change ⟨rfl⟩
      exact ⟨rfl, rfl, rfl, hlast.symm⟩
  | some last =>
    by_cases hsame : last = c.state.code
    · subst hsame
      rw [detect_of_repeated hc (hread.trans hlast)]
      exact ⟨⟨fun _ => followedCode_eq_some_code.1 hlast, fun _ => rfl⟩,
        fun change h => absurd h (by simp)⟩
    · rw [detect_of_moved hc (hread.trans hlast) hsame]
      refine ⟨⟨fun h => absurd h (by simp), fun h => ?_⟩, ?_⟩
      · have hcode := followedCode_eq_some_code.2 h
        rw [hlast] at hcode
        exact absurd (Option.some.inj hcode) hsame
      · rintro change ⟨rfl⟩
        exact ⟨rfl, rfl, rfl, hlast.symm⟩

theorem read_states_detect (hc : classify? e = some c)
    (hread : t.states.read (JobIdentity.ofEvent e).key = followedCode previous) (k : String) :
    (t.detect e).2.states.read k =
      if (JobIdentity.ofEvent e).key = k then followedCode (some c) else t.states.read k := by
  by_cases hk : (JobIdentity.ofEvent e).key = k
  · subst hk
    rw [if_pos rfl, read_states_detect_self hc, hread]
    cases hfinal : c.state.isFinal with
    | false => simp [followedCode, hfinal]
    | true =>
      -- No code of a final state is remembered, so this state was not the one before.
      have hmoved : followedCode previous ≠ some c.state.code := by
        intro hsame
        obtain ⟨_, -, -, hopen⟩ := followedCode_eq_some_code.1 hsame
        rw [hfinal] at hopen
        exact absurd hopen (by decide)
      have hforgotten : followedCode (some c) = none := if_pos hfinal
      rw [hforgotten, if_neg (by simp [hmoved])]
  · rw [if_neg hk]
    exact (agree_detect_of_ne t hk).states.symm

/-! ### All steps -/

/-- For every job the store holds what its last observation asks for. -/
def Remembers (t : Tracker) (es : List Event) : Prop :=
  ∀ i : JobIdentity, t.states.read i.key = followedCode (observations i es).getLast?

theorem remembers_detect {es : List Event} (h : t.Remembers es) :
    (t.detect e).2.Remembers (es ++ [e]) := by
  intro i
  rw [observations_append_singleton]
  cases hc : classify? e with
  | none =>
    have hnone : observation? i e = none := by
      unfold observation?
      split
      · exact hc
      · rfl
    rw [detect_of_unclassified hc, states_recordProperties, hnone]
    simpa using h i
  | some c =>
    rw [read_states_detect hc (h (JobIdentity.ofEvent e))]
    by_cases hi : JobIdentity.ofEvent e = i
    · subst hi
      rw [observation?_self, hc, if_pos rfl]
      simp
    · rw [observation?_of_ne hi, if_neg (JobIdentity.key_ne hi)]
      simpa using h i

theorem remembers_detectAll (es : List Event) : (empty.detectAll es).2.Remembers es := by
  induction es using List.reverseRecOn with
  | nil =>
    intro i
    rfl
  | append_singleton es e ih =>
    rw [detectAll_append]
    exact remembers_detect ih

theorem answersFor_detectAll (i : JobIdentity) (es : List Event) (e : Event) :
    answersFor i (es ++ [e]) (empty.detectAll (es ++ [e])).1 =
      answersFor i es (empty.detectAll es).1 ++
        ((observation? i e).map fun _ => ((empty.detectAll es).2.detect e).1).toList := by
  rw [detectAll_append]
  exact answersFor_append_singleton i e _ (length_detectAll empty es).symm

theorem length_answersFor (i : JobIdentity) (es : List Event) :
    (answersFor i es (empty.detectAll es).1).length = (observations i es).length := by
  induction es using List.reverseRecOn with
  | nil => rfl
  | append_singleton es e ih =>
    rw [answersFor_detectAll, observations_append_singleton, List.length_append,
      List.length_append, ih]
    cases observation? i e <;> rfl

theorem answers_detectAll (i : JobIdentity) (es : List Event) :
    ∀ n c answer, (observations i es)[n]? = some c →
      (answersFor i es (empty.detectAll es).1)[n]? = some answer →
      Answers i ((observations i es).take n).getLast? c answer := by
  induction es using List.reverseRecOn with
  | nil =>
    intro n c answer hc _
    exact absurd hc (by simp [observations])
  | append_singleton es e ih =>
    intro n c answer
    rw [answersFor_detectAll, observations_append_singleton]
    cases ho : observation? i e with
    | none => simpa using ih n c answer
    | some c' =>
      obtain ⟨rfl, hc'⟩ := observation?_eq_some ho
      have hlen := length_answersFor (JobIdentity.ofEvent e) es
      simp only [Option.map_some, Option.toList_some]
      intro hc hanswer
      rcases Nat.lt_trichotomy n (observations (JobIdentity.ofEvent e) es).length with
        hlt | heq | hgt
      · -- an earlier observation: nothing about it has changed
        rw [List.getElem?_append_left hlt] at hc
        rw [List.getElem?_append_left (hlen ▸ hlt)] at hanswer
        rw [List.take_append_of_le_length (Nat.le_of_lt hlt)]
        exact ih n c answer hc hanswer
      · -- the new one: the store knows the observation before it
        subst heq
        rw [List.getElem?_concat_length, Option.some.injEq] at hc
        rw [← hlen, List.getElem?_concat_length, Option.some.injEq] at hanswer
        subst hc hanswer
        rw [List.take_left]
        exact answers_detect hc' (remembers_detectAll es _)
      · rw [List.getElem?_eq_none (by simp only [List.length_append, List.length_singleton]; omega)]
          at hc
        exact absurd hc (by simp)

/-- Events that do not classify are answered with nothing, wherever they come. -/
theorem getElem?_detectAll_of_unclassified (t : Tracker) {es : List Event} {n : Nat} {e : Event}
    (he : es[n]? = some e) (hc : classify? e = none) : (t.detectAll es).1[n]? = some none := by
  rw [getElem?_detectAll, he, Option.map_some, detect_of_unclassified hc]

/-- What is reported of a job, over a whole run from empty stores: its observations without the
    repeats of states that are not final.  Every other observation is reported as the change
    from the state before, or as a first one where that state was final or there was none; and
    the job is still followed at the end exactly if its last state is not final.  Every event has
    one answer, and those that do not classify are answered with nothing, so nothing else is
    reported. -/
theorem reports_without_repeats (i : JobIdentity) (es : List Event) :
    (answersFor i es (empty.detectAll es).1).length = (observations i es).length ∧
    (∀ n c answer, (observations i es)[n]? = some c →
      (answersFor i es (empty.detectAll es).1)[n]? = some answer →
      Answers i ((observations i es).take n).getLast? c answer) ∧
    (empty.detectAll es).2.states.read i.key = followedCode (observations i es).getLast? ∧
    (empty.detectAll es).1.length = es.length ∧
    ∀ (n : Nat) (e : Event), es[n]? = some e → classify? e = none →
      (empty.detectAll es).1[n]? = some none := by
  refine ⟨length_answersFor i es, answers_detectAll i es, remembers_detectAll es i,
    length_detectAll empty es, ?_⟩
  intro n e he hc
  exact getElem?_detectAll_of_unclassified empty he hc

end Tracker

end JobTrace
