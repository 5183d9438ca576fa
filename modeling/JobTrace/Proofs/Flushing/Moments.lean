import JobTrace.Proofs.Flushing.Interleaving
import Mathlib.Order.Monotone.Basic
import Mathlib.Order.WithBot

/-!
# The path shows single moments, one after the other

Whatever interrupts the flusher, also for good, the path holds what it held at first or the whole
encoding of what the store held at one moment.  The text that is under way was encoded after the
text at the path, because there is one flusher; so from one renaming to the next the moments that
are shown only go forward.
-/

namespace JobTrace

/-- The moments at which two texts were encoded: the one last encoded, and the one at the path, if
    any was renamed yet. -/
structure FlushMoments where
  underWay : ℕ
  shown : WithBot ℕ

namespace FlushScene

variable {α : Type} {path : Path} {s s' : FlushScene α} {now : ℕ} {m : FlushMoments}

/-! ### Dating a run -/

/-- What a step changes about the moments. -/
def dateStep (now : ℕ) (s s' : FlushScene α) (m : FlushMoments) : FlushMoments :=
  match s.stage, s'.stage with
  | .called, .encoded _ => { m with underWay := now }
  | .written _, .idle => if s'.last = some .written then { m with shown := .some m.underWay } else m
  | _, _ => m

def moments (scene : ℕ → FlushScene α) : ℕ → FlushMoments
  | 0 => ⟨0, ⊥⟩
  | n + 1 => dateStep n (scene n) (scene (n + 1)) (moments scene n)

theorem dateStep_of_stage_eq (h : s'.stage = s.stage) : dateStep now s s' m = m := by
  unfold dateStep
  rw [h]
  cases s.stage <;> rfl

/-- Only an attempt that has encoded or renamed sets a new date. -/
theorem dateStep_of_quiet (h : s.stage = .idle ∨ s.stage = .due ∨ ∃ text, s.stage = .encoded text) :
    dateStep now s s' m = m := by
  unfold dateStep
  rcases h with h | h | ⟨text, h⟩ <;> rw [h]

theorem dateStep_of_settle {outcome : FlushOutcome} (h : outcome ≠ .written) :
    dateStep now s (s.settle outcome) m = m := by
  unfold dateStep settle
  cases s.stage <;> simp [h]

theorem shown_le_dateStep (h : m.shown ≤ .some m.underWay) :
    m.shown ≤ (dateStep now s s' m).shown := by
  unfold dateStep
  split
  · exact le_refl _
  · split
    · exact h
    · exact le_refl _
  · exact le_refl _

/-! ### What the moments tell -/

/-- The texts under way and at the path are those of their moments. -/
structure Dated [Storable α] (path : Path) (initial : Option FileNode) (contentsAt : ℕ → Dict α)
    (now : ℕ) (s : FlushScene α) (m : FlushMoments) : Prop where
  shown_le : m.shown ≤ .some m.underWay
  underWay_le : m.underWay ≤ now
  text_eq : ∀ text, s.stage = .encoded text ∨ s.stage = .written text →
    text = Store.encode (contentsAt m.underWay)
  beside : Beside path s
  before : m.shown = ⊥ → s.files.find? path = initial
  since : ∀ k : ℕ, m.shown = .some k →
    s.files.find? path = some (.file (Store.encode (contentsAt k)).toUTF8)

variable [Storable α] {initial : Option FileNode} {contentsAt : ℕ → Dict α}

/-- While the stage and the path stay as they are, time may pass. -/
theorem Dated.of_stage_eq (h : Dated path initial contentsAt now s m) (hstage : s'.stage = s.stage)
    (hpath : s'.files.find? path = s.files.find? path) (hbeside : Beside path s') :
    Dated path initial contentsAt (now + 1) s' (dateStep now s s' m) := by
  rw [dateStep_of_stage_eq hstage]
  refine ⟨h.shown_le, Nat.le_succ_of_le h.underWay_le, ?_, hbeside, ?_, ?_⟩
  · rw [hstage]
    exact h.text_eq
  · rw [hpath]
    exact h.before
  · rw [hpath]
    exact h.since

/-- So they may while no text is under way. -/
theorem Dated.of_noText (h : Dated path initial contentsAt now s m)
    (hstage : ∀ text, s'.stage ≠ .encoded text ∧ s'.stage ≠ .written text)
    (hpath : s'.files.find? path = s.files.find? path) :
    Dated path initial contentsAt (now + 1) s' m := by
  refine ⟨h.shown_le, Nat.le_succ_of_le h.underWay_le, ?_, ?_, ?_, ?_⟩
  · rintro text (htext | htext)
    · exact absurd htext (hstage text).1
    · exact absurd htext (hstage text).2
  · intro text htext
    exact absurd htext (hstage text).2
  · rw [hpath]
    exact h.before
  · rw [hpath]
    exact h.since

theorem Dated.of_moves (h : Dated path initial contentsAt now s m)
    (hnow : contentsAt now = s.store.contents) (hmoves : Moves path s s') :
    Dated path initial contentsAt (now + 1) s' (dateStep now s s' m) := by
  have hbeside' := h.beside.of_moves hmoves
  cases hmoves with
  | stay files hpath hbeside => exact h.of_stage_eq rfl hpath hbeside'
  | change store hdirty => exact h.of_stage_eq rfl rfl hbeside'
  | ask hstage =>
    rw [dateStep_of_quiet (.inl hstage)]
    exact h.of_noText (by simp) rfl
  | clear hstage =>
    rw [dateStep_of_quiet (.inr (.inl hstage))]
    exact h.of_noText (by simp) rfl
  | call hstage =>
    rw [dateStep_of_quiet (.inl hstage)]
    exact h.of_noText (by simp) rfl
  | encode hstage =>
    have hdate : dateStep now s { s with stage := .encoded s.store.text } m =
        { m with underWay := now } := by
      simp [dateStep, hstage]
    rw [hdate]
    refine ⟨?_, Nat.le_succ now, ?_, hbeside', h.before, h.since⟩
    · exact h.shown_le.trans (WithBot.coe_le_coe.2 h.underWay_le)
    · rintro text (htext | htext)
      · rw [hnow]
        exact (FlushStage.encoded.inj htext).symm
      · exact absurd htext (by simp)
  | writePart text files hstage hpath => exact h.of_stage_eq rfl hpath hbeside'
  | writeAll text files hstage hpath hbeside =>
    rw [dateStep_of_quiet (.inr (.inr ⟨text, hstage⟩))]
    refine ⟨h.shown_le, Nat.le_succ_of_le h.underWay_le, ?_, hbeside', ?_, ?_⟩
    · rintro text' (htext' | htext')
      · exact absurd htext' (by simp)
      · obtain rfl := FlushStage.written.inj htext'
        exact h.text_eq text (.inl hstage)
    · exact fun hshown => hpath.trans (h.before hshown)
    · exact fun k hshown => hpath.trans (h.since k hshown)
  | rename text files hstage hpath =>
    have hdate : dateStep now s (settle { s with files } .written) m =
        { m with shown := .some m.underWay } := by
      simp [dateStep, settle, hstage]
    rw [hdate]
    refine ⟨le_refl _, Nat.le_succ_of_le h.underWay_le, by simp [settle], hbeside', ?_, ?_⟩
    · intro hshown
      exact absurd hshown (WithBot.coe_ne_bot)
    · intro k hk
      obtain rfl := WithBot.coe_injective hk
      show files.find? path = _
      rw [hpath, h.beside text hstage, h.text_eq text (.inr hstage)]
  | giveUp outcome houtcome =>
    rw [dateStep_of_settle houtcome]
    exact h.of_noText (by simp [settle]) rfl

theorem dated_moments (path : Path) (scene : ℕ → FlushScene α) (hstart : (scene 0).stage = .idle)
    (hmoves : ∀ n, Moves path (scene n) (scene (n + 1))) (n : ℕ) :
    Dated path ((scene 0).files.find? path) (fun k => (scene k).store.contents) n (scene n)
      (moments scene n) := by
  induction n with
  | zero =>
    refine ⟨bot_le, le_refl 0, ?_, ?_, fun _ => rfl, ?_⟩
    · rintro text (htext | htext) <;> exact absurd (hstart.symm.trans htext) (by simp)
    · intro text htext
      exact absurd (hstart.symm.trans htext) (by simp)
    · intro k hk
      exact absurd hk.symm WithBot.coe_ne_bot
  | succ n ih => exact ih.of_moves rfl (hmoves n)

/-! ### Every cut of every interleaving -/

/-- The scene when so many of the events have happened. -/
def after (path : Path) (s : FlushScene α) (events : List (FlushEvent α)) (n : ℕ) :
    FlushScene α :=
  s.run path (events.take n)

theorem moves_after (path : Path) (s : FlushScene α) (events : List (FlushEvent α)) (n : ℕ) :
    Moves path (s.after path events n) (s.after path events (n + 1)) := by
  unfold after
  rw [List.take_add_one]
  cases events[n]? with
  | none =>
    rw [Option.toList_none, List.append_nil]
    exact .refl path _
  | some e =>
    have hrun : s.run path (events.take n ++ [e]) = (s.run path (events.take n)).step path e := by
      simp [run]
    rw [Option.toList_some, hrun]
    exact moves_step path _ e

/-- After any number of events the path holds what it held at first, or all that the store held at
    one moment so far, from which that is recovered; and the moments never go backwards. -/
theorem snapshot_of_one_moment (path : Path) (store : Store α) (fs : Files)
    (events : List (FlushEvent α)) :
    ∃ moment : ℕ → WithBot ℕ, Monotone moment ∧ ∀ n, moment n ≤ .some n ∧
      (moment n = ⊥ →
        ((start store fs).after path events n).files.find? path = fs.find? path) ∧
      ∀ k : ℕ, moment n = .some k →
        ((start store fs).after path events n).files.find? path =
            some (.file (Store.encode
              ((start store fs).after path events k).store.contents).toUTF8) ∧
          (Store.openAt path ((start store fs).after path events n).files : Store α).contents =
            ((start store fs).after path events k).store.contents := by
  have hdated := dated_moments path ((start store fs).after path events) rfl
    (moves_after path _ events)
  refine ⟨fun n => (moments ((start store fs).after path events) n).shown, ?_, ?_⟩
  · exact monotone_nat_of_le_succ fun n => shown_le_dateStep (hdated n).shown_le
  · intro n
    refine ⟨?_, (hdated n).before, ?_⟩
    · exact (hdated n).shown_le.trans (WithBot.coe_le_coe.2 (hdated n).underWay_le)
    · intro k hk
      have hfound := (hdated n).since k hk
      exact ⟨hfound, by rw [Store.openAt_of_find? hfound]⟩

end FlushScene

end JobTrace
