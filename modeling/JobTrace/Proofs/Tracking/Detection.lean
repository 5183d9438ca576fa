import JobTrace.Tracking.Change

/-!
# What detecting an event does

An event that does not classify leaves the states alone.  For one that does, three rows say
everything: its job is not followed, it is followed in the same state, or it is followed in
another one.  The rows below are all that later proofs need to know of `Tracker.detect`.

Describing fields are captured before any of this, but they live in a store of their own, so the
states do not see the capture.
-/

namespace JobTrace

namespace JobState

theorem code_injective {s s' : JobState} (h : s.code = s'.code) : s = s' := by
  have hread : ofCode? s.code = ofCode? s'.code := congrArg ofCode? h
  rw [ofCode?_code, ofCode?_code] at hread
  exact Option.some.inj hread

end JobState

namespace Tracker

/-- The change from `lastCode` to what was observed. -/
def changeTo (t : Tracker) (e : Event) (c : Classification) (lastCode : Option Int64) :
    StateChange :=
  ⟨JobIdentity.ofEvent e, lastCode, c.state, c.reason,
    (t.recordProperties e).properties.read (JobIdentity.ofEvent e).key⟩

/-- What is remembered after an observation that is a change. -/
def moveTo (t : Tracker) (e : Event) (state : JobState) : Tracker :=
  (t.recordProperties e).follow (JobIdentity.ofEvent e).key state

@[simp] theorem states_recordProperties (t : Tracker) (e : Event) :
    (t.recordProperties e).states = t.states := by
  unfold recordProperties
  split <;> rfl

@[simp] theorem states_follow (t : Tracker) (key : String) (s : JobState) :
    (t.follow key s).states = t.states.write key s.code := rfl

@[simp] theorem properties_follow (t : Tracker) (key : String) (s : JobState) :
    (t.follow key s).properties = t.properties := rfl

@[simp] theorem states_forget (t : Tracker) (key : String) :
    (t.forget key).states = t.states.delete key := rfl

@[simp] theorem properties_forget (t : Tracker) (key : String) :
    (t.forget key).properties = t.properties.delete key := rfl

@[simp] theorem states_moveTo (t : Tracker) (e : Event) (s : JobState) :
    (t.moveTo e s).states = t.states.write (JobIdentity.ofEvent e).key s.code := by
  simp [moveTo]

variable {t : Tracker} {e : Event} {c : Classification}

theorem detect_of_unclassified (hc : classify? e = none) :
    t.detect e = (none, t.recordProperties e) := by
  simp [detect, hc]

theorem detect_of_unfollowed (hc : classify? e = some c)
    (hread : t.states.read (JobIdentity.ofEvent e).key = none) :
    t.detect e = (some (t.changeTo e c none),
      if c.state.isFinal then t.recordProperties e else t.moveTo e c.state) := by
  simp [detect, hc, hread, changeTo, moveTo]

theorem detect_of_repeated (hc : classify? e = some c)
    (hread : t.states.read (JobIdentity.ofEvent e).key = some c.state.code) :
    t.detect e = (none, t.recordProperties e) := by
  simp [detect, hc, hread]

theorem detect_of_moved {last : Int64} (hc : classify? e = some c)
    (hread : t.states.read (JobIdentity.ofEvent e).key = some last)
    (hne : last ≠ c.state.code) :
    t.detect e = (some (t.changeTo e c (some last)),
      if c.state.isFinal then (t.recordProperties e).forget (JobIdentity.ofEvent e).key
      else t.moveTo e c.state) := by
  simp [detect, hc, hread, hne, changeTo, moveTo]

/-! ### Capturing the describing fields -/

theorem recordProperties_of_new (hnew : e.eventType = EventType.jobNew) :
    t.recordProperties e =
      { t with properties := t.properties.write (JobIdentity.ofEvent e).key (describe e) } :=
  if_pos hnew

theorem recordProperties_of_other (hother : e.eventType ≠ EventType.jobNew) :
    t.recordProperties e = t := if_neg hother

theorem classify?_of_new (hnew : e.eventType = EventType.jobNew) :
    classify? e = some ⟨.pend, "new job submitted"⟩ := if_pos hnew

theorem ne_new_of_unclassified (hc : classify? e = none) : e.eventType ≠ EventType.jobNew := by
  intro hnew
  rw [classify?_of_new hnew] at hc
  exact absurd hc (by simp)

theorem recordProperties_of_unclassified (hc : classify? e = none) : t.recordProperties e = t :=
  recordProperties_of_other (ne_new_of_unclassified hc)

/-- The event that creates a job does not end it. -/
theorem ne_new_of_final (hc : classify? e = some c) (hfinal : c.state.isFinal = true) :
    e.eventType ≠ EventType.jobNew := by
  intro hnew
  rw [classify?_of_new hnew, Option.some.injEq] at hc
  subst hc
  exact absurd hfinal (by decide)

theorem recordProperties_of_final (hc : classify? e = some c) (hfinal : c.state.isFinal = true) :
    t.recordProperties e = t :=
  recordProperties_of_other (ne_new_of_final hc hfinal)

/-- The describing fields are all there and nothing else is. -/
theorem get?_describe (e : Event) (name : String) :
    (describe e).get? name =
      if name ∈ FieldName.descriptive then some (e.textOf name) else none :=
  Dict.get?_ofList_map e.textOf FieldName.descriptive name

/-! ### The job afterwards -/

/-- A classified event is silent exactly when its job is followed in the state that it reports. -/
theorem detect_eq_none_iff (hc : classify? e = some c) :
    (t.detect e).1 = none ↔
      t.states.read (JobIdentity.ofEvent e).key = some c.state.code := by
  cases hread : t.states.read (JobIdentity.ofEvent e).key with
  | none =>
    rw [detect_of_unfollowed hc hread]
    simp
  | some last =>
    by_cases hsame : last = c.state.code
    · rw [detect_of_repeated hc (hsame ▸ hread)]
      simp [hsame]
    · rw [detect_of_moved hc hread hsame]
      simp [hsame]

/-- What the store holds of the job of a classified event afterwards: the code of the state that
    was observed, unless that state is final and the store did not hold this very code before. -/
theorem read_states_detect_self (hc : classify? e = some c) :
    (t.detect e).2.states.read (JobIdentity.ofEvent e).key =
      if c.state.isFinal = false ∨
          t.states.read (JobIdentity.ofEvent e).key = some c.state.code then
        some c.state.code
      else none := by
  cases hread : t.states.read (JobIdentity.ofEvent e).key with
  | none =>
    rw [detect_of_unfollowed hc hread]
    cases hfinal : c.state.isFinal with
    | true => simp [hread]
    | false => simp [Store.read_write]
  | some last =>
    by_cases hsame : last = c.state.code
    · subst hsame
      rw [detect_of_repeated hc hread]
      simp [hread]
    · rw [detect_of_moved hc hread hsame]
      cases hfinal : c.state.isFinal with
      | true => simp [hsame, Store.read_delete]
      | false => simp [Store.read_write]

/-- A final state does one of two things: a job that is followed in another state is forgotten,
    and otherwise nothing is changed. -/
theorem detect_of_final (hc : classify? e = some c) (hfinal : c.state.isFinal = true) :
    (∃ last, t.states.read (JobIdentity.ofEvent e).key = some last ∧ last ≠ c.state.code ∧
      (t.detect e).2 = t.forget (JobIdentity.ofEvent e).key) ∨
    ((t.states.read (JobIdentity.ofEvent e).key = none ∨
        t.states.read (JobIdentity.ofEvent e).key = some c.state.code) ∧
      (t.detect e).2 = t) := by
  have hrecord : t.recordProperties e = t := recordProperties_of_final hc hfinal
  cases hread : t.states.read (JobIdentity.ofEvent e).key with
  | none =>
    rw [detect_of_unfollowed hc hread, if_pos hfinal, hrecord]
    exact .inr ⟨.inl rfl, rfl⟩
  | some last =>
    by_cases hsame : last = c.state.code
    · rw [detect_of_repeated hc (hsame ▸ hread), hrecord]
      exact .inr ⟨.inr (congrArg some hsame), rfl⟩
    · rw [detect_of_moved hc hread hsame, if_pos hfinal, hrecord]
      exact .inl ⟨last, rfl, hsame, rfl⟩

/-! ### Runs -/

/-- Detect one event after the other: what each of them gave, and what is remembered at the
    end. -/
def detectAll (t : Tracker) : List Event → List (Option StateChange) × Tracker
  | [] => ([], t)
  | e :: es =>
    let (change, t) := t.detect e
    let (changes, t) := t.detectAll es
    (change :: changes, t)

theorem length_detectAll (t : Tracker) (es : List Event) :
    (t.detectAll es).1.length = es.length := by
  induction es generalizing t with
  | nil => rfl
  | cons e es ih =>
    simp only [detectAll, List.length_cons]
    rw [ih]

theorem detectAll_append (t : Tracker) (es es' : List Event) :
    t.detectAll (es ++ es') =
      ((t.detectAll es).1 ++ ((t.detectAll es).2.detectAll es').1,
        ((t.detectAll es).2.detectAll es').2) := by
  induction es generalizing t with
  | nil => rfl
  | cons e es ih => simp only [List.cons_append, detectAll, ih]

/-- The answer at a place of a run is that of the tracker which remembers what came before. -/
theorem getElem?_detectAll (t : Tracker) (es : List Event) (n : Nat) :
    (t.detectAll es).1[n]? = es[n]?.map fun e => ((t.detectAll (es.take n)).2.detect e).1 := by
  induction es generalizing t n with
  | nil => rfl
  | cons e es ih =>
    cases n with
    | zero => rfl
    | succ n =>
      simp only [detectAll, List.getElem?_cons_succ, List.take_succ_cons]
      exact ih (t.detect e).2 n

end Tracker

end JobTrace
