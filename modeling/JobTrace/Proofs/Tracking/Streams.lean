import JobTrace.Proofs.Tracking.Locality

/-!
# Jobs do not interfere

The events of one job, in order, are its stream.  Two sequences of events with the same streams
are interleavings of the same histories: one is turned into the other by exchanging neighbours
that concern different jobs.  So each event is answered alike in both, and both leave the same
stores behind, flags included.
-/

namespace JobTrace

def eventsOf (i : JobIdentity) (es : List Event) : List Event :=
  es.filter fun e => JobIdentity.ofEvent e = i

/-- Every job has the same events in the same order. -/
def SameStreams (es es' : List Event) : Prop :=
  ∀ i : JobIdentity, eventsOf i es = eventsOf i es'

theorem eventsOf_cons (i : JobIdentity) (e : Event) (es : List Event) :
    eventsOf i (e :: es) =
      if JobIdentity.ofEvent e = i then e :: eventsOf i es else eventsOf i es := by
  simp [eventsOf, List.filter_cons]

theorem eventsOf_append (i : JobIdentity) (es es' : List Event) :
    eventsOf i (es ++ es') = eventsOf i es ++ eventsOf i es' := List.filter_append ..

theorem eventsOf_eq_nil {i : JobIdentity} {es : List Event} :
    eventsOf i es = [] ↔ ∀ e ∈ es, JobIdentity.ofEvent e ≠ i := by
  simp [eventsOf, List.filter_eq_nil_iff]

theorem SameStreams.exists_eq_append {e : Event} {es es' : List Event}
    (h : SameStreams (e :: es) es') :
    ∃ front back, es' = front ++ e :: back ∧
      (∀ f ∈ front, JobIdentity.ofEvent f ≠ JobIdentity.ofEvent e) ∧
      SameStreams es (front ++ back) := by
  -- In the other interleaving the event is the first of its job as well.
  have hfirst := h (JobIdentity.ofEvent e)
  rw [eventsOf_cons, if_pos rfl] at hfirst
  obtain ⟨front, back, rfl, hfront, -, -⟩ := List.filter_eq_cons_iff.1 hfirst.symm
  have hapart : ∀ f ∈ front, JobIdentity.ofEvent f ≠ JobIdentity.ofEvent e := by
    intro f hf
    simpa using hfront f hf
  refine ⟨front, back, rfl, hapart, ?_⟩
  intro i
  have hi := h i
  rw [eventsOf_append, eventsOf_cons, eventsOf_cons] at hi
  rw [eventsOf_append]
  by_cases he : JobIdentity.ofEvent e = i
  · subst he
    have hnone := eventsOf_eq_nil.2 hapart
    rw [if_pos rfl, if_pos rfl, hnone] at hi
    rw [hnone]
    exact (List.cons.inj hi).2
  · rw [if_neg he, if_neg he] at hi
    exact hi

namespace Tracker

/-- What the events of one job were answered, in order. -/
def exchanges (t : Tracker) (i : JobIdentity) (es : List Event) :
    List (Event × Option StateChange) :=
  (es.zip (t.detectAll es).1).filter fun x => JobIdentity.ofEvent x.1 = i

theorem exchanges_cons (t : Tracker) (i : JobIdentity) (e : Event) (es : List Event) :
    t.exchanges i (e :: es) =
      (if JobIdentity.ofEvent e = i then [(e, (t.detect e).1)] else []) ++
        (t.detect e).2.exchanges i es := by
  by_cases he : JobIdentity.ofEvent e = i
  · simp [exchanges, detectAll, he]
  · simp [exchanges, detectAll, he]

/-- An event may be moved to the front past events of other jobs. -/
theorem detectAll_move {e : Event} {front : List Event}
    (hapart : ∀ f ∈ front, JobIdentity.ofEvent f ≠ JobIdentity.ofEvent e) (t : Tracker)
    (back : List Event) :
    (∀ i, t.exchanges i (front ++ e :: back) = t.exchanges i (e :: (front ++ back))) ∧
      (t.detectAll (front ++ e :: back)).2 = (t.detectAll (e :: (front ++ back))).2 := by
  induction front generalizing t with
  | nil => exact ⟨fun i => rfl, rfl⟩
  | cons f front ih =>
    have hne : JobIdentity.ofEvent f ≠ JobIdentity.ofEvent e := hapart f (List.mem_cons_self ..)
    obtain ⟨hexchanges, hlast⟩ :=
      ih (fun g hg => hapart g (List.mem_cons_of_mem f hg)) (t.detect f).2
    obtain ⟨he, hswap⟩ := t.detect_comm hne
    obtain ⟨hf, -⟩ := t.detect_comm hne.symm
    constructor
    · intro i
      rw [List.cons_append, exchanges_cons, hexchanges, exchanges_cons, exchanges_cons,
        List.cons_append, exchanges_cons, he, hf, hswap, ← List.append_assoc,
        ← List.append_assoc]
      congr 1
      -- Of the two events at most one belongs to the job.
      by_cases hi : JobIdentity.ofEvent f = i
      · have hei : JobIdentity.ofEvent e ≠ i := fun h => hne (hi.trans h.symm)
        rw [if_neg hei, List.append_nil, List.nil_append]
      · rw [if_neg hi, List.append_nil, List.nil_append]
    · have hunfold : ∀ (u : Tracker) (g : Event) (gs : List Event),
          (u.detectAll (g :: gs)).2 = ((u.detect g).2.detectAll gs).2 := fun _ _ _ => rfl
      rw [List.cons_append, hunfold, hlast, hunfold, hunfold, List.cons_append, hunfold, hswap]

/-- Interleavings of the same streams are answered alike, event by event, and leave the same
    stores behind, whatever the stores hold at the beginning. -/
theorem detectAll_of_sameStreams (t : Tracker) {es es' : List Event} (h : SameStreams es es') :
    (∀ i, t.exchanges i es = t.exchanges i es') ∧ (t.detectAll es).2 = (t.detectAll es').2 := by
  induction es generalizing t es' with
  | nil =>
    obtain rfl : es' = [] := by
      cases es' with
      | nil => rfl
      | cons f es' =>
        have hf := h (JobIdentity.ofEvent f)
        rw [eventsOf_cons, if_pos rfl] at hf
        exact absurd hf (by simp [eventsOf])
    exact ⟨fun i => rfl, rfl⟩
  | cons e es ih =>
    obtain ⟨front, back, rfl, hapart, hrest⟩ := h.exists_eq_append
    obtain ⟨hexchanges, hlast⟩ := detectAll_move hapart t back
    obtain ⟨ihexchanges, ihlast⟩ := ih (t.detect e).2 hrest
    constructor
    · intro i
      rw [hexchanges, exchanges_cons, exchanges_cons, ihexchanges]
    · exact ihlast.trans hlast.symm

/-- A report of the status of a job that has nothing but a cluster. -/
def statusOf (cluster status : String) : Event :=
  ((Event.empty.insert FieldName.eventType (Value.ofString EventType.jobStatus)).insert
    FieldName.cluster (Value.ofString cluster)).insert
      FieldName.jobStatus (Value.ofString status)

/-- A job that is followed ends while another one, whose cluster has the same beginning, starts. -/
theorem detectAll_of_sameStreams_statusOf :
    let t := empty.follow "a_-1_-1" .pend
    let es := [statusOf "a" "RUN", statusOf "a_-1" "RUN", statusOf "a" "EXIT"]
    let es' := [statusOf "a_-1" "RUN", statusOf "a" "RUN", statusOf "a" "EXIT"]
    SameStreams es es' ∧ (∀ i, t.exchanges i es = t.exchanges i es') ∧
      (t.detectAll es).2 = (t.detectAll es').2 := by
  intro t es es'
  have hne : JobIdentity.ofEvent (statusOf "a_-1" "RUN") ≠
      JobIdentity.ofEvent (statusOf "a" "RUN") := by decide
  have hsame : SameStreams es es' := by
    intro i
    simp only [es, es', eventsOf_cons]
    by_cases hi : JobIdentity.ofEvent (statusOf "a" "RUN") = i
    · have hi' : JobIdentity.ofEvent (statusOf "a_-1" "RUN") ≠ i := fun h => hne (h.trans hi.symm)
      rw [if_pos hi, if_neg hi', if_pos hi, if_neg hi']
    · rw [if_neg hi, if_neg hi]
  exact ⟨hsame, detectAll_of_sameStreams t hsame⟩

end Tracker

end JobTrace
