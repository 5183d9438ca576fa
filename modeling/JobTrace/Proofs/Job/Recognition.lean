import JobTrace.Job.Classification
import JobTrace.Proofs.Field.Display

/-!
# Which events tell about a job

The type of an event and the status that it reports are compared as texts, and a field may hold
anything that JSON has.  Since all the names that count begin with a capital letter, the comparison
is as strict as one of strings (`Event.textOf_eq_iff`): a field that is no string matches nothing,
however it is shown.  What an event is classified as is therefore a matter of which strings its
fields are (`classify?_eq_some_iff`).

The reason of a final state is looked up in a table that is longer than the numbers that may be
looked up, so within these numbers the look-up never misses.
-/

namespace JobTrace

theorem Event.Says.unique {e : Event} {field a b : String} (ha : e.Says field a)
    (hb : e.Says field b) : a = b := by
  have hvalue : some (Value.ofString a : FieldValue) = some (Value.ofString b) := ha.symm.trans hb
  exact congrArg FieldValue.display (Option.some.inj hvalue)

/-! ### The names that count -/

namespace EventType

theorem capitalised_jobNew : Text.Capitalised jobNew := by decide

theorem capitalised_jobStartAccept : Text.Capitalised jobStartAccept := by decide

theorem capitalised_jobStatus : Text.Capitalised jobStatus := by decide

end EventType

namespace JobState

theorem capitalised_name (s : JobState) : Text.Capitalised s.name := by cases s <;> decide

theorem ofName?_eq_some_iff {name : String} {s : JobState} :
    ofName? name = some s ↔ s.name = name := by
  constructor
  · intro h
    unfold ofName? at h
    have hfound := List.find?_some h
    exact of_decide_eq_true hfound
  · rintro rfl
    exact ofName?_name s

end JobState

/-! ### Reasons -/

/-- A status report tells why a job ended: it has failed, and the number of the reason is one of
    those that are looked up. -/
def Event.TellsReason (e : Event) : Prop :=
  0 < e.intOf FieldName.exitStatus ∧ 0 ≤ e.intOf FieldName.exitInfo ∧
    e.intOf FieldName.exitInfo ≤ 26

theorem exists_exitReason {n : Int64} (hlow : 0 ≤ n) (hhigh : n ≤ 26) :
    ∃ reason, exitReasons[n.toInt.toNat]? = some reason := by
  have hzero : (0 : Int64).toInt ≤ n.toInt := Int64.le_iff_toInt_le.1 hlow
  have hlast : n.toInt ≤ (26 : Int64).toInt := Int64.le_iff_toInt_le.1 hhigh
  have hlength : n.toInt.toNat < exitReasons.length := by
    have hmax : (26 : Int64).toInt = 26 := rfl
    have htable : exitReasons.length = 32 := rfl
    omega
  exact ⟨_, List.getElem?_eq_getElem hlength⟩

theorem exitReason_of_tells {e : Event} (h : e.TellsReason) :
    exitReasons[(e.intOf FieldName.exitInfo).toInt.toNat]? = some (exitReason e) := by
  obtain ⟨hstatus, hlow, hhigh⟩ := h
  obtain ⟨reason, hreason⟩ := exists_exitReason hlow hhigh
  have hinside : ¬ (e.intOf FieldName.exitStatus ≤ 0 ∨ e.intOf FieldName.exitInfo < 0 ∨
      maxExitInfo < e.intOf FieldName.exitInfo) := by
    rintro (h | h | h)
    · exact Int64.not_le.2 hstatus h
    · exact Int64.not_lt.2 hlow h
    · exact Int64.not_lt.2 hhigh h
  simp only [exitReason, if_neg hinside, hreason, Option.getD_some]

theorem exitReason_of_not_tells {e : Event} (h : ¬ e.TellsReason) : exitReason e = "" := by
  have houtside : e.intOf FieldName.exitStatus ≤ 0 ∨ e.intOf FieldName.exitInfo < 0 ∨
      maxExitInfo < e.intOf FieldName.exitInfo := by
    rw [Event.TellsReason, Classical.not_and_iff_not_or_not, Classical.not_and_iff_not_or_not,
      Int64.not_lt, Int64.not_le, Int64.not_le] at h
    exact h
  simp only [exitReason, if_pos houtside]

/-! ### Events -/

/-- All that an event can be classified as. -/
theorem classify?_eq_some_iff {e : Event} {c : Classification} :
    classify? e = some c ↔
      e.Says FieldName.eventType EventType.jobNew ∧ c = ⟨.pend, "new job submitted"⟩ ∨
      e.Says FieldName.eventType EventType.jobStartAccept ∧ c = ⟨.run, "job starts"⟩ ∨
      e.Says FieldName.eventType EventType.jobStatus ∧
        e.Says FieldName.jobStatus c.state.name ∧
        c.reason = if c.state.isFinal then exitReason e else "" := by
  have hnew := e.textOf_eq_iff FieldName.eventType EventType.capitalised_jobNew
  have hstart := e.textOf_eq_iff FieldName.eventType EventType.capitalised_jobStartAccept
  have hstatus := e.textOf_eq_iff FieldName.eventType EventType.capitalised_jobStatus
  unfold classify? Event.eventType
  by_cases hnamesNew : e.Says FieldName.eventType EventType.jobNew
  · rw [if_pos (hnew.2 hnamesNew)]
    constructor
    · intro h
      exact .inl ⟨hnamesNew, (Option.some.inj h).symm⟩
    · rintro (⟨-, rfl⟩ | ⟨hother, -⟩ | ⟨hother, -⟩)
      · rfl
      · exact absurd (hnamesNew.unique hother) (by decide)
      · exact absurd (hnamesNew.unique hother) (by decide)
  · rw [if_neg (mt hnew.1 hnamesNew)]
    by_cases hnamesStart : e.Says FieldName.eventType EventType.jobStartAccept
    · rw [if_pos (hstart.2 hnamesStart)]
      constructor
      · intro h
        exact .inr (.inl ⟨hnamesStart, (Option.some.inj h).symm⟩)
      · rintro (⟨hother, -⟩ | ⟨-, rfl⟩ | ⟨hother, -⟩)
        · exact absurd hother hnamesNew
        · rfl
        · exact absurd (hnamesStart.unique hother) (by decide)
    · rw [if_neg (mt hstart.1 hnamesStart)]
      by_cases hnamesStatus : e.Says FieldName.eventType EventType.jobStatus
      · rw [if_pos (hstatus.2 hnamesStatus), Option.map_eq_some_iff]
        constructor
        · rintro ⟨s, hs, rfl⟩
          have hname := JobState.ofName?_eq_some_iff.1 hs
          have hnamed := (e.textOf_eq_iff FieldName.jobStatus s.capitalised_name).1 hname.symm
          exact .inr (.inr ⟨hnamesStatus, hnamed, rfl⟩)
        · rintro (⟨hother, -⟩ | ⟨hother, -⟩ | ⟨-, hnamed, hreason⟩)
          · exact absurd hother hnamesNew
          · exact absurd hother hnamesStart
          · obtain ⟨s, reason⟩ := c
            obtain rfl : reason = if s.isFinal then exitReason e else "" := hreason
            have hname := (e.textOf_eq_iff FieldName.jobStatus s.capitalised_name).2 hnamed
            exact ⟨s, JobState.ofName?_eq_some_iff.2 hname.symm, rfl⟩
      · rw [if_neg (mt hstatus.1 hnamesStatus)]
        simp [hnamesNew, hnamesStart, hnamesStatus]

/-- A status report of a state gives the reason in the table, or none. -/
theorem exists_classify?_of_status {e : Event} {s : JobState}
    (hstatus : e.Says FieldName.eventType EventType.jobStatus)
    (hstate : e.Says FieldName.jobStatus s.name) :
    ∃ reason, classify? e = some ⟨s, reason⟩ ∧
      (s.isFinal = true ∧ e.TellsReason →
        exitReasons[(e.intOf FieldName.exitInfo).toInt.toNat]? = some reason) ∧
      (¬ (s.isFinal = true ∧ e.TellsReason) → reason = "") := by
  refine ⟨if s.isFinal then exitReason e else "", ?_, ?_, ?_⟩
  · exact classify?_eq_some_iff.2 (.inr (.inr ⟨hstatus, hstate, rfl⟩))
  · rintro ⟨hfinal, htells⟩
    rw [if_pos hfinal]
    exact exitReason_of_tells htells
  · intro hnone
    by_cases hfinal : s.isFinal = true
    · rw [if_pos hfinal]
      exact exitReason_of_not_tells fun htells => hnone ⟨hfinal, htells⟩
    · rw [if_neg hfinal]

theorem isSome_classify?_iff (e : Event) :
    (classify? e).isSome = true ↔
      e.Says FieldName.eventType EventType.jobNew ∨
      e.Says FieldName.eventType EventType.jobStartAccept ∨
      e.Says FieldName.eventType EventType.jobStatus ∧
        ∃ s : JobState, e.Says FieldName.jobStatus s.name := by
  rw [Option.isSome_iff_exists]
  constructor
  · rintro ⟨c, hc⟩
    rcases classify?_eq_some_iff.1 hc with ⟨hnew, -⟩ | ⟨hstart, -⟩ | ⟨hstatus, hstate, -⟩
    · exact .inl hnew
    · exact .inr (.inl hstart)
    · exact .inr (.inr ⟨hstatus, c.state, hstate⟩)
  · rintro (hnew | hstart | ⟨hstatus, s, hstate⟩)
    · exact ⟨_, classify?_eq_some_iff.2 (.inl ⟨hnew, rfl⟩)⟩
    · exact ⟨_, classify?_eq_some_iff.2 (.inr (.inl ⟨hstart, rfl⟩))⟩
    · obtain ⟨reason, hreason, -⟩ := exists_classify?_of_status hstatus hstate
      exact ⟨_, hreason⟩

/-- Which events tell about a job and what they tell, whatever values their fields have.  An event
    classifies if its type is the string that stands for the creation or for the start of a job, or
    if its type is that of a status report and its status is the string that names a state.  A
    value that is no string is not shown as any of these names.  What the event is classified as is
    the state that is named; and a status report gives the reason in the table if the state is
    final, the exit status is positive and the number of the reason is one of those that are looked
    up, and no reason otherwise. -/
theorem classify?_exactly (e : Event) :
    ((classify? e).isSome = true ↔
      e.Says FieldName.eventType EventType.jobNew ∨
      e.Says FieldName.eventType EventType.jobStartAccept ∨
      e.Says FieldName.eventType EventType.jobStatus ∧
        ∃ s : JobState, e.Says FieldName.jobStatus s.name) ∧
    (∀ v : FieldValue, v.toString? = none →
      v.display ∉ [EventType.jobNew, EventType.jobStartAccept, EventType.jobStatus] ∧
      ∀ s : JobState, v.display ≠ s.name) ∧
    (e.Says FieldName.eventType EventType.jobNew →
      classify? e = some ⟨.pend, "new job submitted"⟩) ∧
    (e.Says FieldName.eventType EventType.jobStartAccept →
      classify? e = some ⟨.run, "job starts"⟩) ∧
    ∀ s : JobState, e.Says FieldName.eventType EventType.jobStatus →
      e.Says FieldName.jobStatus s.name →
      ∃ reason, classify? e = some ⟨s, reason⟩ ∧
        (s.isFinal = true ∧ e.TellsReason →
          exitReasons[(e.intOf FieldName.exitInfo).toInt.toNat]? = some reason) ∧
        (¬ (s.isFinal = true ∧ e.TellsReason) → reason = "") := by
  refine ⟨isSome_classify?_iff e, ?_, ?_, ?_, ?_⟩
  · intro v hv
    have hother : ∀ name, Text.Capitalised name → v.display ≠ name := by
      rintro name hname rfl
      exact FieldValue.not_capitalised_display hv hname
    constructor
    · simp only [List.mem_cons, List.not_mem_nil, or_false, not_or]
      exact ⟨hother _ EventType.capitalised_jobNew, hother _ EventType.capitalised_jobStartAccept,
        hother _ EventType.capitalised_jobStatus⟩
    · intro s
      exact hother _ s.capitalised_name
  · intro hnew
    exact classify?_eq_some_iff.2 (.inl ⟨hnew, rfl⟩)
  · intro hstart
    exact classify?_eq_some_iff.2 (.inr (.inl ⟨hstart, rfl⟩))
  · intro s hstatus hstate
    exact exists_classify?_of_status hstatus hstate

/-- A report that a job has failed, with the number of the reason. -/
def failedWith (info : Int64) : Event :=
  ⟨Dict.ofList [(FieldName.eventType, Value.ofString EventType.jobStatus),
    (FieldName.jobStatus, Value.ofString JobState.exit.name),
    (FieldName.exitStatus, FieldValue.ofInt64 1), (FieldName.exitInfo, FieldValue.ofInt64 info)]⟩

/-- The last reason that is looked up, the first one that is not, and a list that is no type. -/
theorem classify?_exactly_failed :
    (classify? (failedWith 26) =
        some ⟨.exit, "hung job removed from the LSF system TERM_REMOVE_HUNG_JOB"⟩ ∧
      classify? (failedWith 27) = some ⟨.exit, ""⟩) ∧
    ∀ v : FieldValue, v.tree = .list [.string EventType.jobNew] → v.display ≠ "JOB_NEW" := by
  have hfields : ∀ info, (failedWith info).Says FieldName.eventType EventType.jobStatus ∧
      (failedWith info).Says FieldName.jobStatus JobState.exit.name := by
    intro info
    simp [Event.Says, Event.get?, failedWith, Dict.get?_ofList, Entries.find?,
      FieldName.eventType, FieldName.jobStatus, FieldName.exitStatus, FieldName.exitInfo]
  refine ⟨⟨?_, ?_⟩, ?_⟩
  · obtain ⟨reason, hclass, htable, -⟩ :=
      (classify?_exactly (failedWith 26)).2.2.2.2 .exit (hfields 26).1 (hfields 26).2
    have htells : (failedWith 26).TellsReason := by
      refine ⟨?_, ?_, ?_⟩ <;> decide +kernel
    have hreason := htable ⟨rfl, htells⟩
    obtain rfl := Option.some.inj hreason
    exact hclass
  · obtain ⟨reason, hclass, -, hempty⟩ :=
      (classify?_exactly (failedWith 27)).2.2.2.2 .exit (hfields 27).1 (hfields 27).2
    have hbeyond : ¬ (failedWith 27).intOf FieldName.exitInfo ≤ 26 := by decide +kernel
    rw [hclass, hempty fun h => hbeyond h.2.2.2]
  · intro v hv
    have hnotString : v.toString? = none := by simp [FieldValue.toString?, hv]
    have hnames := ((classify?_exactly default).2.1 v hnotString).1
    exact fun hnew => hnames (hnew ▸ List.mem_cons_self ..)

end JobTrace
