import JobTrace.Proofs.Flushing.Interleaving
import Mathlib

/-!
# No update is lost between rounds

A store that was opened from its path starts in step with it.  Afterwards a clean flag means that
nothing was changed since the flag was cleared, and it is cleared before the contents are encoded;
so a text that is under way is the text of the present contents as long as the flag stays clean,
and a change that comes too late for the text is still to be seen in the flag.
-/

namespace JobTrace

namespace FlushScene

variable {α : Type} [Storable α] {path : Path} {s s' : FlushScene α}

/-- What a clean flag means at every stage. -/
structure InStep (path : Path) (s : FlushScene α) : Prop where
  underWay : ∀ text, s.stage = .encoded text ∨ s.stage = .written text →
    s.store.dirty = false → text = s.store.text
  beside : Beside path s
  settled : s.stage = .idle → s.store.dirty = false → (∀ outcome ∈ s.last, outcome = .written) →
    (Store.openAt path s.files : Store α).contents = s.store.contents

theorem inStep_start (path : Path) (fs : Files) :
    InStep path (start (Store.openAt path fs : Store α) fs) where
  underWay text h := by rcases h with h | h <;> exact absurd h (by simp [start])
  beside text h := absurd h (by simp [start])
  settled _ _ _ := rfl

theorem InStep.of_moves (h : InStep path s) (hmoves : Moves path s s') : InStep path s' := by
  have hbeside' := h.beside.of_moves hmoves
  cases hmoves with
  | stay files hpath hbeside =>
    refine ⟨h.underWay, hbeside', ?_⟩
    intro hidle hclean hlast
    have hopen := Store.openAt_eq_of_find?_eq (α := α) hpath
    exact (congrArg Store.contents hopen).trans (h.settled hidle hclean hlast)
  | change store hdirty =>
    refine ⟨?_, hbeside', ?_⟩
    · intro text _ hclean
      rw [hdirty] at hclean
      exact absurd hclean (by decide)
    · intro _ hclean
      rw [hdirty] at hclean
      exact absurd hclean (by decide)
  | ask hstage => exact ⟨by simp, hbeside', by simp⟩
  | clear hstage => exact ⟨by simp, hbeside', by simp⟩
  | call hstage => exact ⟨by simp, hbeside', by simp⟩
  | encode hstage =>
    refine ⟨?_, hbeside', by simp⟩
    rintro text (htext | htext) -
    · exact (FlushStage.encoded.inj htext).symm
    · exact absurd htext (by simp)
  | writePart text files hstage hpath =>
    refine ⟨h.underWay, hbeside', ?_⟩
    intro hidle
    exact absurd (hstage.symm.trans hidle) (by simp)
  | writeAll text files hstage hpath hbeside =>
    refine ⟨?_, hbeside', by simp⟩
    rintro text' (htext' | htext') hclean
    · exact absurd htext' (by simp)
    · obtain rfl := FlushStage.written.inj htext'
      exact h.underWay text (.inl hstage) hclean
  | rename text files hstage hpath =>
    refine ⟨by simp [settle], hbeside', ?_⟩
    intro _ hclean _
    have htext : text = s.store.text := h.underWay text (.inr hstage) hclean
    have hfound : files.find? path = some (.file (Store.encode s.store.contents).toUTF8) := by
      rw [hpath, h.beside text hstage, htext]
      rfl
    show (Store.openAt path files : Store α).contents = s.store.contents
    rw [Store.openAt_of_find? hfound]
  | giveUp outcome houtcome =>
    -- After a failed attempt the flag says nothing about the file.
    refine ⟨by simp [settle], hbeside', ?_⟩
    intro _ _ hlast
    exact absurd (hlast outcome rfl) houtcome

theorem InStep.run (h : InStep path s) (events : List (FlushEvent α)) :
    InStep path (s.run path events) := by
  induction events generalizing s with
  | nil => exact h
  | cons e events ih => exact ih (h.of_moves (moves_step path s e))

/-- Between rounds, a store whose flag is clean is the store of its file, unless the last attempt
    to write it has failed. -/
theorem openAt_contents_of_clean (path : Path) (fs : Files) (events : List (FlushEvent α))
    (hidle : ((start (Store.openAt path fs) fs).run path events).stage = .idle)
    (hclean : ((start (Store.openAt path fs) fs).run path events).store.dirty = false)
    (hlast : ∀ outcome ∈ ((start (Store.openAt path fs) fs).run path events).last,
      outcome = .written) :
    (Store.openAt path ((start (Store.openAt path fs) fs).run path events).files :
        Store α).contents =
      ((start (Store.openAt path fs) fs).run path events).store.contents :=
  ((inStep_start path fs).run events).settled hidle hclean hlast

/-- Two rounds: while the first snapshot is on its way one job comes and another goes. -/
def latecomer : List (FlushEvent Int64) :=
  [.write "a_1_0" 2, .ask, .clear, .encode, .writeAll, .write "b_2_0" 1, .delete "a_1_0", .rename,
    .ask, .clear, .encode, .writePart 3, .writeAll, .rename]

theorem openAt_contents_of_latecomer :
    ((start (Store.openAt ⟨"s"⟩ .empty) .empty).run ⟨"s"⟩ latecomer).stage = .idle ∧
      ((start (Store.openAt ⟨"s"⟩ .empty) .empty).run ⟨"s"⟩ latecomer).store.dirty = false ∧
      ((start (Store.openAt ⟨"s"⟩ .empty) .empty).run ⟨"s"⟩ latecomer).last = some .written ∧
      (Store.openAt ⟨"s"⟩ ((start (Store.openAt ⟨"s"⟩ .empty) .empty).run ⟨"s"⟩ latecomer).files :
          Store Int64).contents =
        ((start (Store.openAt ⟨"s"⟩ .empty) .empty).run ⟨"s"⟩ latecomer).store.contents := by
  have hsettled : ((start (Store.openAt ⟨"s"⟩ .empty) .empty).run ⟨"s"⟩ latecomer).stage = .idle ∧
      ((start (Store.openAt ⟨"s"⟩ .empty) .empty).run ⟨"s"⟩ latecomer).store.dirty = false ∧
      ((start (Store.openAt ⟨"s"⟩ .empty) .empty).run ⟨"s"⟩ latecomer).last = some .written := by
    cbv
  obtain ⟨hidle, hclean, hlast⟩ := hsettled
  refine ⟨hidle, hclean, hlast, openAt_contents_of_clean ⟨"s"⟩ .empty latecomer hidle hclean ?_⟩
  intro outcome h
  rw [hlast] at h
  exact (Option.some.inj h).symm

end FlushScene

end JobTrace
