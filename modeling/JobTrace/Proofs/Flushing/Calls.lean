import JobTrace.Flushing
import JobTrace.Proofs.Files.Saving

/-!
# What a flusher does with its targets

An attempt leaves the memory alone and touches the files by saving one snapshot at most; a visit
makes an attempt, or does nothing, and clears a flag at most.  This holds whatever the slots of the
targets are.
-/

namespace JobTrace

namespace FlushRun

variable {μ : Type} {crashes : FlushTarget μ → Bool} {r : FlushRun μ} {t : FlushTarget μ}

/-! ### Attempts -/

theorem attempt_of_crash (h : crashes t = true) :
    r.attempt crashes t = ⟨r.memory, r.files, r.calls ++ [.attempted t.name .crashed]⟩ := by
  unfold attempt
  rw [if_pos h]

theorem attempt_of_saved {files : Files} (h : crashes t = false)
    (hsave : r.files.saveSnapshot t.path (t.slot.text r.memory) = (.ok (), files)) :
    r.attempt crashes t = ⟨r.memory, files, r.calls ++ [.attempted t.name .written]⟩ := by
  simp [attempt, h, hsave]

theorem attempt_of_failed {e : SnapshotError} {files : Files} (h : crashes t = false)
    (hsave : r.files.saveSnapshot t.path (t.slot.text r.memory) = (.error e, files)) :
    r.attempt crashes t = ⟨r.memory, files, r.calls ++ [.attempted t.name (.failed e)]⟩ := by
  simp [attempt, h, hsave]

/-- An attempt that wrote the snapshot has saved it. -/
theorem attempt_cases (crashes : FlushTarget μ → Bool) (r : FlushRun μ) (t : FlushTarget μ) :
    ∃ outcome files, r.attempt crashes t =
        ⟨r.memory, files, r.calls ++ [.attempted t.name outcome]⟩ ∧
      r.files.SameDirectories files ∧
      (outcome = .written →
        r.files.saveSnapshot t.path (t.slot.text r.memory) = (.ok (), files)) := by
  have hsame := Files.sameDirectories_saveSnapshot r.files t.path (t.slot.text r.memory)
  cases hcrash : crashes t with
  | true => exact ⟨_, _, attempt_of_crash hcrash, .refl _, by simp⟩
  | false =>
    cases hsave : r.files.saveSnapshot t.path (t.slot.text r.memory) with
    | mk result files =>
      rw [hsave] at hsame
      cases result with
      | ok u => exact ⟨_, files, attempt_of_saved hcrash hsave, hsame, fun _ => rfl⟩
      | error e => exact ⟨_, files, attempt_of_failed hcrash hsave, hsame, by simp⟩

/-! ### Visits and rounds -/

theorem visit_cases (crashes : FlushTarget μ → Bool) (r : FlushRun μ) (t : FlushTarget μ) :
    ((r.visit crashes t).memory = r.memory ∨
        (r.visit crashes t).memory = t.slot.clearDirty r.memory) ∧
      r.files.SameDirectories (r.visit crashes t).files := by
  unfold visit
  split
  · obtain ⟨outcome, files, hattempt, hsame, -⟩ := attempt_cases crashes
      { r with
        memory := t.slot.clearDirty r.memory
        calls := r.calls ++ [.askedDirty t.name true, .clearedDirty t.name] } t
    rw [hattempt]
    exact ⟨.inr rfl, hsame⟩
  · exact ⟨.inl rfl, .refl _⟩

/-- What clearing a flag does not change, a round does not change. -/
theorem round_keeps (crashes : FlushTarget μ → Bool) {Same : μ → μ → Prop} (hrefl : ∀ m, Same m m)
    (htrans : ∀ {m m' m''}, Same m m' → Same m' m'' → Same m m'') {targets : List (FlushTarget μ)}
    (hclear : ∀ t ∈ targets, ∀ m, Same (t.slot.clearDirty m) m) (r : FlushRun μ) :
    Same (r.round crashes targets).memory r.memory ∧
      r.files.SameDirectories (r.round crashes targets).files := by
  unfold round
  induction targets generalizing r with
  | nil => exact ⟨hrefl r.memory, .refl _⟩
  | cons t targets ih =>
    obtain ⟨hmemory, hsame⟩ := visit_cases crashes r t
    obtain ⟨hrest, hsame'⟩ := ih (fun t' ht' => hclear t' (List.mem_cons_of_mem _ ht'))
      (r.visit crashes t)
    refine ⟨htrans hrest ?_, hsame.trans hsame'⟩
    rcases hmemory with hmemory | hmemory
    · rw [hmemory]
      exact hrefl r.memory
    · rw [hmemory]
      exact hclear t (List.mem_cons_self ..) r.memory

/-! ### The last flush -/

/-- The snapshots of all targets are saved one after the other. -/
def Saved (m : μ) : List (FlushTarget μ) → Files → Files → Prop
  | [], fs, fs' => fs' = fs
  | t :: targets, fs, fs' =>
    ∃ next, fs.saveSnapshot t.path (t.slot.text m) = (.ok (), next) ∧ Saved m targets next fs'

theorem mem_calls_final {call : FlushCall} (h : call ∈ r.calls) (targets : List (FlushTarget μ)) :
    call ∈ (r.final crashes targets).calls := by
  unfold final
  induction targets generalizing r with
  | nil => exact h
  | cons t targets ih =>
    obtain ⟨outcome, files, hattempt, -, -⟩ := attempt_cases crashes r t
    refine ih ?_
    rw [hattempt]
    exact List.mem_append_left _ h

theorem memory_final (r : FlushRun μ) (targets : List (FlushTarget μ)) :
    (r.final crashes targets).memory = r.memory := by
  simp only [final]
  induction targets generalizing r with
  | nil => rfl
  | cons t targets ih =>
    obtain ⟨outcome, files, hattempt, -, -⟩ := attempt_cases crashes r t
    rw [List.foldl_cons, ih, hattempt]

theorem sameDirectories_final (r : FlushRun μ) (targets : List (FlushTarget μ)) :
    r.files.SameDirectories (r.final crashes targets).files := by
  unfold final
  induction targets generalizing r with
  | nil => exact .refl _
  | cons t targets ih =>
    obtain ⟨outcome, files, hattempt, hsame, -⟩ := attempt_cases crashes r t
    have hrest := ih (r.attempt crashes t)
    rw [List.foldl_cons]
    rw [hattempt] at hrest ⊢
    exact hsame.trans hrest

/-- When every attempt wrote its snapshot, all of them are saved. -/
theorem saved_of_final {targets : List (FlushTarget μ)}
    (h : ∀ call ∈ (r.final crashes targets).calls, ∃ name, call = .attempted name .written) :
    Saved r.memory targets r.files (r.final crashes targets).files := by
  induction targets generalizing r with
  | nil => rfl
  | cons t targets ih =>
    obtain ⟨outcome, files, hattempt, -, hsaved⟩ := attempt_cases crashes r t
    have hfinal : r.final crashes (t :: targets) =
        FlushRun.final crashes targets
          ⟨r.memory, files, r.calls ++ [.attempted t.name outcome]⟩ := by
      rw [← hattempt]
      rfl
    rw [hfinal] at h ⊢
    obtain ⟨name, hname⟩ := h (.attempted t.name outcome) (mem_calls_final (by simp) targets)
    exact ⟨files, hsaved (FlushCall.attempted.inj hname).2, ih h⟩

/-- Where the paths can be written, nothing but a crash keeps a snapshot from being saved. -/
theorem written_of_final {targets : List (FlushTarget μ)} (hcrash : ∀ t, crashes t = false)
    (hwritable : ∀ t ∈ targets, r.files.Writable t.path ∧ r.files.Writable t.path.temporary)
    {call : FlushCall} (h : call ∈ (r.final crashes targets).calls) :
    call ∈ r.calls ∨ ∃ name, call = .attempted name .written := by
  unfold final at h
  induction targets generalizing r with
  | nil => exact .inl h
  | cons t targets ih =>
    obtain ⟨hpath, htemporary⟩ := hwritable t (List.mem_cons_self ..)
    obtain ⟨files, hsave⟩ :=
      Files.exists_saveSnapshot hpath htemporary (t.slot.text r.memory)
    have hsame := Files.sameDirectories_saveSnapshot r.files t.path (t.slot.text r.memory)
    rw [hsave] at hsame
    rw [List.foldl_cons, attempt_of_saved (hcrash t) hsave] at h
    have hrest : ∀ t ∈ targets, files.Writable t.path ∧ files.Writable t.path.temporary := by
      intro t' ht'
      obtain ⟨hpath', htemporary'⟩ := hwritable t' (List.mem_cons_of_mem _ ht')
      exact ⟨hsame.writable hpath', hsame.writable htemporary'⟩
    rcases ih hrest h with hcall | hwritten
    · rcases List.mem_append.1 hcall with hcall | hcall
      · exact .inl hcall
      · exact .inr ⟨t.name, List.mem_singleton.1 hcall⟩
    · exact .inr hwritten

end FlushRun

theorem Flusher.stop_start {μ : Type} (targets : List (FlushTarget μ))
    (crashes : FlushTarget μ → Bool) (r : FlushRun μ) :
    (Flusher.start targets).stop crashes r = (⟨targets, false⟩, r.final crashes targets) := rfl

end JobTrace
