import JobTrace.Flushing
import JobTrace.Proofs.Files.Saving

/-!
# A flusher at work while the store changes

A round of the flusher is not one step.  Between asking for the flag, clearing it, encoding the
contents, writing them beside the snapshot and renaming, anyone may write to the store or delete
from it, and others may work on files of their own.  A `FlushScene` is what all of them see, and a
`FlushEvent` is what one of them does next; an event whose turn it is not does nothing.  Every
list of events is then an interleaving, and every interleaving is one.

The file beside the snapshot is written in parts, and the writing or the renaming may fail or the
whole attempt crash at any point.  Nobody but the flusher clears the flag, and nobody else touches
the path or the temporary path.

`FlushScene.Moves` says once what an event can do, as far as the two paths can tell.  A round that
nobody interrupts is a `FlushRun.visit` (`FlushScene.run_round`).
-/

namespace JobTrace

/-- How far a flusher is with a target. -/
inductive FlushStage where
  /-- Between rounds. -/
  | idle
  /-- The store was found to have changed. -/
  | due
  /-- An attempt is under way. -/
  | called
  | encoded (text : String)
  | written (text : String)
deriving DecidableEq

/-- A store, the files, the flusher, and how its last attempt ended. -/
structure FlushScene (α : Type) where
  store : Store α
  files : Files
  stage : FlushStage
  last : Option FlushOutcome

/-- What may happen next. -/
inductive FlushEvent (α : Type) where
  | write (key : String) (value : α)
  | delete (key : String)
  | elsewhere (files : Files)
  | ask
  | clear
  /-- An attempt begins without asking, as when the flusher stops. -/
  | call
  | encode
  | writePart (count : Nat)
  | writeAll
  | rename
  | fail (cause : FileError)
  | crash

namespace FlushScene

variable {α : Type}

def start (store : Store α) (files : Files) : FlushScene α := ⟨store, files, .idle, none⟩

def settle (s : FlushScene α) (outcome : FlushOutcome) : FlushScene α :=
  { s with stage := .idle, last := some outcome }

def step [Storable α] (path : Path) (s : FlushScene α) : FlushEvent α → FlushScene α
  | .write key value => { s with store := s.store.write key value }
  | .delete key => { s with store := s.store.delete key }
  | .elsewhere files =>
    if files.find? path = s.files.find? path ∧
        files.find? path.temporary = s.files.find? path.temporary then { s with files }
    else s
  | .ask => if s.stage = .idle ∧ s.store.dirty then { s with stage := .due } else s
  | .clear =>
    if s.stage = .due then { s with store := s.store.clearDirty, stage := .called } else s
  | .call => if s.stage = .idle then { s with stage := .called } else s
  | .encode => if s.stage = .called then { s with stage := .encoded s.store.text } else s
  | .writePart count =>
    match s.stage with
    | .encoded text =>
      match s.files.write path.temporary (text.toUTF8.extract 0 count) with
      | .ok files => { s with files }
      | .error _ => s
    | _ => s
  | .writeAll =>
    match s.stage with
    | .encoded text =>
      match s.files.write path.temporary text.toUTF8 with
      | .ok files => { s with files, stage := .written text }
      | .error cause => s.settle (.failed (.io path.temporary cause))
    | _ => s
  | .rename =>
    match s.stage with
    | .written _ =>
      match s.files.rename path.temporary path with
      | .ok files => settle { s with files } .written
      | .error cause => s.settle (.failed (.io path cause))
    | _ => s
  | .fail cause =>
    match s.stage with
    | .encoded _ => s.settle (.failed (.io path.temporary cause))
    | .written _ => s.settle (.failed (.io path cause))
    | _ => s
  | .crash =>
    match s.stage with
    | .called | .encoded _ | .written _ => s.settle .crashed
    | _ => s

def run [Storable α] (path : Path) (s : FlushScene α) (events : List (FlushEvent α)) :
    FlushScene α :=
  events.foldl (step path) s

theorem run_cons [Storable α] (path : Path) (s : FlushScene α) (e : FlushEvent α)
    (events : List (FlushEvent α)) :
    s.run path (e :: events) = (s.step path e).run path events := rfl

/-! ### What an event can do -/

/-- What an event can do, as far as the path and the temporary path can tell. -/
inductive Moves [Storable α] (path : Path) (s : FlushScene α) : FlushScene α → Prop where
  | stay (files : Files) (hpath : files.find? path = s.files.find? path)
      (hbeside : files.find? path.temporary = s.files.find? path.temporary) :
      Moves path s { s with files }
  | change (store : Store α) (hdirty : store.dirty = true) : Moves path s { s with store }
  | ask (hstage : s.stage = .idle) : Moves path s { s with stage := .due }
  | clear (hstage : s.stage = .due) :
      Moves path s { s with store := s.store.clearDirty, stage := .called }
  | call (hstage : s.stage = .idle) : Moves path s { s with stage := .called }
  | encode (hstage : s.stage = .called) :
      Moves path s { s with stage := .encoded s.store.text }
  | writePart (text : String) (files : Files) (hstage : s.stage = .encoded text)
      (hpath : files.find? path = s.files.find? path) : Moves path s { s with files }
  | writeAll (text : String) (files : Files) (hstage : s.stage = .encoded text)
      (hpath : files.find? path = s.files.find? path)
      (hbeside : files.find? path.temporary = some (.file text.toUTF8)) :
      Moves path s { s with files, stage := .written text }
  | rename (text : String) (files : Files) (hstage : s.stage = .written text)
      (hpath : files.find? path = s.files.find? path.temporary) :
      Moves path s (settle { s with files } .written)
  | giveUp (outcome : FlushOutcome) (houtcome : outcome ≠ .written) :
      Moves path s (s.settle outcome)

theorem Moves.refl [Storable α] (path : Path) (s : FlushScene α) : Moves path s s :=
  .stay s.files rfl rfl

theorem moves_step [Storable α] (path : Path) (s : FlushScene α) (e : FlushEvent α) :
    Moves path s (s.step path e) := by
  cases e with
  | write key value => exact .change _ rfl
  | delete key => exact .change _ rfl
  | elsewhere files =>
    simp only [step]
    split
    · next h => exact .stay files h.1 h.2
    · exact .refl path s
  | ask =>
    simp only [step]
    split
    · next h => exact .ask h.1
    · exact .refl path s
  | clear =>
    simp only [step]
    split
    · next h => exact .clear h
    · exact .refl path s
  | call =>
    simp only [step]
    split
    · next h => exact .call h
    · exact .refl path s
  | encode =>
    simp only [step]
    split
    · next h => exact .encode h
    · exact .refl path s
  | writePart count =>
    simp only [step]
    split
    · next text hstage =>
      split
      · next files hwrite =>
        exact .writePart text files hstage (Files.find?_of_write_temporary hwrite)
      · exact .refl path s
    · exact .refl path s
  | writeAll =>
    simp only [step]
    split
    · next text hstage =>
      split
      · next files hwrite =>
        exact .writeAll text files hstage (Files.find?_of_write_temporary hwrite)
          (Files.find?_of_write hwrite)
      · exact .giveUp _ (by simp)
    · exact .refl path s
  | rename =>
    simp only [step]
    split
    · next text hstage =>
      split
      · next files hrename =>
        exact .rename text files hstage (Files.find?_of_rename hrename)
      · exact .giveUp _ (by simp)
    · exact .refl path s
  | fail cause =>
    simp only [step]
    split
    · exact .giveUp _ (by simp)
    · exact .giveUp _ (by simp)
    · exact .refl path s
  | crash =>
    simp only [step]
    split
    · exact .giveUp _ (by simp)
    · exact .giveUp _ (by simp)
    · exact .giveUp _ (by simp)
    · exact .refl path s

/-- What has been written in full stands beside the snapshot until it is renamed. -/
def Beside (path : Path) (s : FlushScene α) : Prop :=
  ∀ text, s.stage = .written text → s.files.find? path.temporary = some (.file text.toUTF8)

theorem Beside.of_moves [Storable α] {path : Path} {s s' : FlushScene α} (h : Beside path s)
    (hmoves : Moves path s s') : Beside path s' := by
  intro text htext
  cases hmoves with
  | stay files hpath hbeside => exact hbeside.trans (h text htext)
  | change store hdirty => exact h text htext
  | ask hstage => exact absurd htext (by simp)
  | clear hstage => exact absurd htext (by simp)
  | call hstage => exact absurd htext (by simp)
  | encode hstage => exact absurd htext (by simp)
  | writePart text' files hstage hpath => exact absurd (hstage.symm.trans htext) (by simp)
  | writeAll text' files hstage hpath hbeside =>
    obtain rfl := FlushStage.written.inj htext
    exact hbeside
  | rename text' files hstage hpath => exact absurd htext (by simp [settle])
  | giveUp outcome houtcome => exact absurd htext (by simp [settle])

/-! ### A round that nobody interrupts -/

/-- The slot of a store that is all there is in the memory. -/
def slot [Storable α] : Slot (Store α) := ⟨Store.dirty, Store.clearDirty, Store.text⟩

def attempt : List (FlushEvent α) := [.encode, .writeAll, .rename]

def round : List (FlushEvent α) := .ask :: .clear :: attempt

theorem run_save [Storable α] {path : Path} {s : FlushScene α} {text : String}
    (hstage : s.stage = .encoded text) :
    s.run path [.writeAll, .rename] =
      match s.files.saveSnapshot path text with
      | (.ok _, files) => ⟨s.store, files, .idle, some .written⟩
      | (.error e, files) => ⟨s.store, files, .idle, some (.failed e)⟩ := by
  unfold Files.saveSnapshot Files.saveVia
  cases hwrite : s.files.write path.temporary text.toUTF8 with
  | error cause =>
    have hall : s.step path .writeAll = s.settle (.failed (.io path.temporary cause)) := by
      simp only [step, hstage, hwrite]
    rw [run_cons, hall]
    rfl
  | ok beside =>
    have hall : s.step path .writeAll = { s with files := beside, stage := .written text } := by
      simp only [step, hstage, hwrite]
    rw [run_cons, hall, run_cons]
    simp only [step]
    cases beside.rename path.temporary path <;> rfl

theorem run_attempt [Storable α] (path : Path) {s : FlushScene α} (hstage : s.stage = .called)
    (name : String) (calls : List FlushCall) :
    ∃ outcome, FlushRun.attempt (fun _ => false) ⟨s.store, s.files, calls⟩ ⟨name, slot, path⟩ =
        ⟨s.store, (s.run path attempt).files, calls ++ [.attempted name outcome]⟩ ∧
      s.run path attempt = ⟨s.store, (s.run path attempt).files, .idle, some outcome⟩ := by
  have hrun : s.run path attempt =
      ({ s with stage := .encoded s.store.text } : FlushScene α).run path [.writeAll, .rename] := by
    simp only [run, attempt, List.foldl_cons, step, hstage, if_true]
  rw [hrun, run_save rfl]
  unfold FlushRun.attempt slot
  simp only [Bool.false_eq_true, if_false]
  cases s.files.saveSnapshot path s.store.text with
  | mk result files =>
    cases result with
    | error e => exact ⟨.failed e, rfl, rfl⟩
    | ok u => exact ⟨.written, rfl, rfl⟩

/-- A visit of the flusher is a round in which nothing else happens. -/
theorem run_round [Storable α] {path : Path} {s : FlushScene α} (hstage : s.stage = .idle)
    (name : String) :
    let visited := (FlushRun.start s.store s.files).visit (fun _ => false) ⟨name, slot, path⟩
    let settled := s.run path round
    settled.store = visited.memory ∧ settled.files = visited.files ∧ settled.stage = .idle ∧
      ∀ outcome, .attempted name outcome ∈ visited.calls → settled.last = some outcome := by
  intro visited settled
  cases hdirty : s.store.dirty with
  | false =>
    have hsettled : settled = s := by
      simp [settled, run, round, attempt, step, hstage, hdirty]
    have hvisited : visited = ⟨s.store, s.files, [.askedDirty name false]⟩ := by
      simp [visited, FlushRun.visit, FlushRun.start, slot, hdirty]
    simp [hsettled, hvisited, hstage]
  | true =>
    let called : FlushScene α := ⟨s.store.clearDirty, s.files, .called, s.last⟩
    obtain ⟨outcome, hattempt, hrun⟩ := run_attempt path (s := called) rfl name
      [.askedDirty name true, .clearedDirty name]
    have hsettled : settled = called.run path attempt := by
      simp [settled, called, run, round, step, hstage, hdirty]
    have hvisited : visited = FlushRun.attempt (fun _ => false)
        ⟨s.store.clearDirty, s.files, [.askedDirty name true, .clearedDirty name]⟩
        ⟨name, slot, path⟩ := by
      simp [visited, FlushRun.visit, FlushRun.start, slot, hdirty]
    rw [hvisited, hattempt, hsettled, hrun]
    simp [called]

end FlushScene

end JobTrace
