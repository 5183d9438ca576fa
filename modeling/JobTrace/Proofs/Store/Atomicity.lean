import Mathlib
import JobTrace.Proofs.Flushing.Mishaps

/-!
# Saving is atomic

To save a store takes two steps, and each of them may fail: the text is written beside the path,
and what was written is given the path.  The first step never touches what is found at the path, the
second one does all of its work or none.  So there are two ends and no third: the path holds what it
held (`Kept`), or it holds the whole text (`Replaced`).

What an earlier failure has left beside the path is in nobody's way
(`Files.Kept.exists_saveSnapshot_iff`).  Whether a store can be saved depends on the directories
alone, and saving makes and removes none.
-/

namespace JobTrace

namespace Files

variable {fs fs' : Files} {path : Path} {text : String}

/-- A text has not been saved: nothing has changed except beside the path. -/
structure Kept (path : Path) (fs fs' : Files) : Prop where
  directories : fs.SameDirectories fs'
  snapshot : fs'.find? path = fs.find? path
  others : ∀ q, fs.Apart path.temporary q → fs'.find? q = fs.find? q

/-- A text has been saved: it is all that is found at the path, and nothing is left beside it. -/
structure Replaced (path : Path) (text : String) (fs fs' : Files) : Prop where
  directories : fs.SameDirectories fs'
  snapshot : fs'.find? path = some (.file text.toUTF8)
  beside : fs'.find? path.temporary = none
  others : ∀ q, fs.Apart path q → fs.Apart path.temporary q → fs'.find? q = fs.find? q

/-! ### The first step -/

theorem Kept.refl (path : Path) (fs : Files) : Kept path fs fs where
  directories := .refl fs
  snapshot := rfl
  others _ _ := rfl

theorem kept_of_write {bytes : ByteArray} (h : fs.write path.temporary bytes = .ok fs') :
    Kept path fs fs' where
  directories := sameDirectories_of_write h
  snapshot := find?_of_write_temporary h
  others _ hapart := find?_of_write_apart h hapart

/-- A full disk or a thread that dies may leave any part of the text. -/
theorem kept_spoil (fs : Files) (m : Mishap) (path : Path) (text : String) :
    Kept path fs (fs.spoil m path text) where
  directories := sameDirectories_spoil fs m path text
  snapshot := find?_spoil fs m path text
  others _ hapart := find?_spoil_apart hapart m text

/-! ### Both steps -/

theorem kept_of_saveSnapshot {e : SnapshotError} (h : fs.saveSnapshot path text = (.error e, fs')) :
    Kept path fs fs' := by
  rcases saveSnapshot_cases fs path text with ⟨cause, hsave⟩ | ⟨beside, cause, hwrite, hsave⟩ |
    ⟨beside, saved, hwrite, hrename, hsave⟩
  · cases h.symm.trans hsave
    exact .refl path fs
  · cases h.symm.trans hsave
    exact kept_of_write hwrite
  · cases h.symm.trans hsave

theorem replaced_of_saveSnapshot (h : fs.saveSnapshot path text = (.ok (), fs')) :
    Replaced path text fs fs' := by
  have hfound := find?_of_saveSnapshot h
  obtain ⟨beside, hwrite, hrename⟩ := saveSnapshot_ok_iff.1 h
  -- A path that was saved names a file, so its temporary path leads elsewhere.
  have hfile : path.endsInDirectory = false := by
    obtain ⟨l, hplace, -⟩ := writable_of_rename hrename
    exact (placeFor_ok_iff.1 hplace).1
  refine ⟨?_, hfound, ?_, ?_⟩
  · exact (sameDirectories_of_write hwrite).trans (sameDirectories_of_rename hrename)
  · exact find?_source_of_rename hrename (apart_temporary beside hfile)
  · intro q hpath htemporary
    have happart := find?_saveSnapshot_apart hpath htemporary text
    rw [h] at happart
    exact happart

/-- After an attempt that failed, a later one succeeds or fails as it would have without it. -/
theorem Kept.exists_saveSnapshot_iff (h : Kept path fs fs') (text : String) :
    (∃ saved, fs'.saveSnapshot path text = (.ok (), saved)) ↔
      ∃ saved, fs.saveSnapshot path text = (.ok (), saved) := by
  rw [Files.exists_saveSnapshot_iff, Files.exists_saveSnapshot_iff,
    h.directories.writable_iff path, h.directories.writable_iff path.temporary]

end Files

namespace Store

variable {α : Type} [Storable α]

/-- Saving a store at a path, whatever the store, the path and the files.  If it fails, the path is
    as it was and nothing else has changed except beside it.  If it succeeds, the text of the store
    is found at the path, nothing is left beside it, and everything else is as it was.  Should it
    break off anywhere before the renaming, it has failed as well.  It succeeds exactly when files
    can be put at the path and beside it, and the memory of a flusher that saves is the same before
    and after. -/
theorem saveTo_atomic (s : Store α) (path : Path) (fs : Files) :
    (∀ e fs', s.saveTo path fs = (.error e, fs') → Files.Kept path fs fs') ∧
    (∀ fs', s.saveTo path fs = (.ok (), fs') → Files.Replaced path s.text fs fs') ∧
    (∀ m : Mishap, Files.Kept path fs (fs.spoil m path s.text)) ∧
    ((∃ fs', s.saveTo path fs = (.ok (), fs')) ↔
      fs.Writable path ∧ fs.Writable path.temporary) ∧
    ∀ (μ : Type) (crashes : FlushTarget μ → Bool) (r : FlushRun μ) (t : FlushTarget μ),
      (r.attempt crashes t).memory = r.memory := by
  refine ⟨?_, ?_, ?_, ?_, ?_⟩
  · intro e fs' hsave
    exact Files.kept_of_saveSnapshot hsave
  · intro fs' hsave
    exact Files.replaced_of_saveSnapshot hsave
  · intro m
    exact Files.kept_spoil fs m path s.text
  · exact Files.exists_saveSnapshot_iff fs path s.text
  · intro μ crashes r t
    obtain ⟨outcome, files, hattempt, -⟩ := FlushRun.attempt_cases crashes r t
    rw [hattempt]

/-- All that there is was left by an earlier attempt to save at `s`. -/
def leftover : Files := Files.empty.put ⟨["s.tmp"]⟩ "\x7b".toUTF8

def oneState : StateStore := empty.write "a" 1

/-- The attempt is made again, first at a path that asks for a directory. -/
theorem saveTo_atomic_leftover :
    (∃ e fs', oneState.saveTo ⟨"s/"⟩ leftover = (.error e, fs') ∧
      Files.Kept ⟨"s/"⟩ leftover fs') ∧
    ∃ fs', oneState.saveTo ⟨"s"⟩ leftover = (.ok (), fs') ∧
      Files.Replaced ⟨"s"⟩ "\x7b\"a\":1\x7d" leftover fs' := by
  have htext : oneState.text = "\x7b\"a\":1\x7d" := by decide +kernel
  constructor
  · obtain ⟨hkept, -, -, hiff, -⟩ := saveTo_atomic oneState ⟨"s/"⟩ leftover
    cases hsave : oneState.saveTo ⟨"s/"⟩ leftover with
    | mk result fs' =>
      cases result with
      | error e => exact ⟨e, fs', rfl, hkept e fs' hsave⟩
      | ok u =>
        obtain ⟨⟨l, hplace, -⟩, -⟩ := hiff.1 ⟨fs', hsave⟩
        have hends : (⟨"s/"⟩ : Path).endsInDirectory = true := by cbv
        rw [(Files.placeFor_ok_iff.1 hplace).1] at hends
        cases hends
  · obtain ⟨-, hreplaced, -, hiff, -⟩ := saveTo_atomic oneState ⟨"s"⟩ leftover
    have hsame : Files.empty.SameDirectories leftover := by
      apply Files.sameDirectories_put
      simp [Files.node?, Files.empty, Place.root]
    have hpath : leftover.Writable ⟨"s"⟩ :=
      hsame.writable (Files.writable_empty (n := "s") (by cbv))
    have htemporary : leftover.Writable (⟨"s"⟩ : Path).temporary :=
      hsame.writable (Files.writable_empty (n := "s.tmp") (by cbv))
    obtain ⟨fs', hsave⟩ := hiff.2 ⟨hpath, htemporary⟩
    have hfound := hreplaced fs' hsave
    rw [htext] at hfound
    exact ⟨fs', hsave, hfound⟩

end Store

end JobTrace
