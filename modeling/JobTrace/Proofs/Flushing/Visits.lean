import Mathlib.Logic.Function.Basic
import JobTrace.Proofs.Flushing.Mishaps

/-!
# The calls of a flusher

A flusher goes through its targets round after round, and once more when it is stopped.  Between
rounds the stores change, and attempts have mishaps.  Neither has a say in whose turn it is: the
calls of a round are those of all targets in order.  Each target is asked once; if its store has
changed, and no target before it has the same store, the flag is cleared and one attempt is made
to save the text of the store (`FlushRun.Visited`).  The last flush makes one attempt for each
target and clears nothing (`FlushRun.Finished`).

The memory is any number of stores, each for values of its own kind, and targets may share them.
-/

namespace JobTrace

/-! ### Targets among many stores -/

/-- Any number of stores, each for values of its own kind. -/
abbrev Stores {ι : Type} (α : ι → Type) : Type := (i : ι) → Store (α i)

namespace Stores

variable {ι : Type} [DecidableEq ι] {α : ι → Type}

/-- Take the changes of some stores as seen. -/
def settle (m : Stores α) (stores : List ι) : Stores α :=
  fun i => if i ∈ stores then (m i).clearDirty else m i

theorem dirty_settle (m : Stores α) (stores : List ι) (i : ι) :
    (m.settle stores i).dirty = true ↔ (m i).dirty = true ∧ i ∉ stores := by
  unfold settle
  split
  · next hmem => simp [Store.clearDirty, hmem]
  · next hmem => simp [hmem]

theorem settle_settle (m : Stores α) (stores stores' : List ι) :
    (m.settle stores).settle stores' = m.settle (stores ++ stores') := by
  funext i
  unfold settle
  by_cases hfirst : i ∈ stores
  · by_cases hnext : i ∈ stores' <;> simp [hfirst, hnext, Store.clearDirty]
  · simp [hfirst]

/-- A store without changes stays as it is. -/
theorem settle_of_clean {m : Stores α} {i : ι} (h : (m i).dirty = false) : m.settle [i] = m := by
  funext j
  unfold settle
  split
  · next hmem =>
    obtain rfl := List.mem_singleton.1 hmem
    exact Store.ext rfl h.symm
  · rfl

variable [∀ i, Storable (α i)]

def texts (m : Stores α) (i : ι) : String := (m i).text

theorem texts_settle (m : Stores α) (stores : List ι) : (m.settle stores).texts = m.texts := by
  funext i
  unfold texts settle
  split <;> rfl

def slot (i : ι) : Slot (Stores α) where
  isDirty m := (m i).dirty
  clearDirty m := Function.update m i (m i).clearDirty
  text m := m.texts i

theorem clearDirty_slot (m : Stores α) (i : ι) : (slot i).clearDirty m = m.settle [i] := by
  funext j
  by_cases hj : j = i
  · subst hj
    simp [slot, settle]
  · simp [slot, settle, hj]

end Stores

/-- One of many stores and the path that it is flushed to. -/
structure StoreTarget (ι : Type) where
  name : String
  store : ι
  path : Path
deriving DecidableEq

/-- What came of the turn of a target: how the attempt ended, if one was made. -/
structure FlushVisit (ι : Type) where
  target : StoreTarget ι
  ending : Option FlushOutcome
deriving DecidableEq

namespace FlushVisit

variable {ι : Type}

/-- The calls of a visit in the last flush. -/
def attempts (v : FlushVisit ι) : List FlushCall :=
  v.ending.toList.map (FlushCall.attempted v.target.name)

/-- The calls of a visit in a round. -/
def calls (v : FlushVisit ι) : List FlushCall :=
  match v.ending with
  | none => [.askedDirty v.target.name false]
  | some outcome =>
    [.askedDirty v.target.name true, .clearedDirty v.target.name, .attempted v.target.name outcome]

/-- The one thing that a visit does to the files is an attempt to save the text of the target's
    store to the target's path. -/
def Leaves (texts : ι → String) (mishap : Option Mishap) (v : FlushVisit ι) (fs fs' : Files) :
    Prop :=
  match v.ending with
  | none => fs' = fs
  | some outcome => fs.saveUnder mishap v.target.path (texts v.target.store) = (outcome, fs')

theorem leaves_saveUnder (texts : ι → String) (mishap : Option Mishap) (t : StoreTarget ι)
    (fs : Files) :
    (⟨t, some (fs.saveUnder mishap t.path (texts t.store)).1⟩ : FlushVisit ι).Leaves texts mishap
      fs (fs.saveUnder mishap t.path (texts t.store)).2 :=
  (Prod.eta _).symm

/-- What one visit after the other leaves of the files. -/
def AllLeave (texts : ι → String) :
    (Nat → Option Mishap) → List (FlushVisit ι) → Files → Files → Prop
  | _, [], fs, fs' => fs' = fs
  | mishaps, v :: visits, fs, fs' =>
    ∃ next, v.Leaves texts (mishaps 0) fs next ∧
      AllLeave texts (fun place => mishaps (place + 1)) visits next fs'

end FlushVisit

/-- What happens to the stores while a flusher waits, and the mishaps of its next attempts. -/
structure FlushTurn {ι : Type} (α : ι → Type) where
  change : (i : ι) → Store (α i) → Store (α i)
  mishaps : Nat → Option Mishap

variable {ι : Type} [DecidableEq ι] {α : ι → Type} [∀ i, Storable (α i)]

def StoreTarget.target (t : StoreTarget ι) : FlushTarget (Stores α) :=
  ⟨t.name, Stores.slot t.store, t.path⟩

/-- A flusher for the targets, just started. -/
def StoreTarget.flusher (targets : List (StoreTarget ι)) : Flusher (Stores α) :=
  .start (targets.map StoreTarget.target)

namespace FlushRun

/-! ### One round -/

/-- A round that consists of the given visits. -/
structure Visited (targets : List (StoreTarget ι)) (mishaps : Nat → Option Mishap)
    (r r' : FlushRun (Stores α)) (visits : List (FlushVisit ι)) : Prop where
  targets_eq : visits.map (·.target) = targets
  calls_eq : r'.calls = r.calls ++ visits.flatMap FlushVisit.calls
  /-- An attempt is made where a store has changed and was not settled before. -/
  due : ∀ {place : Nat} {v : FlushVisit ι}, visits[place]? = some v →
    (v.ending.isSome = true ↔ (r.memory v.target.store).dirty = true ∧
      v.target.store ∉ (targets.take place).map (·.store))
  memory_eq : r'.memory = r.memory.settle (targets.map (·.store))
  files : FlushVisit.AllLeave r.memory.texts mishaps visits r.files r'.files

namespace Visited

variable {targets : List (StoreTarget ι)} {t : StoreTarget ι} {mishaps : Nat → Option Mishap}
  {r next r' : FlushRun (Stores α)}

theorem nil (mishaps : Nat → Option Mishap) (r : FlushRun (Stores α)) :
    Visited [] mishaps r r [] where
  targets_eq := rfl
  calls_eq := (List.append_nil r.calls).symm
  due h := by simp at h
  memory_eq := by
    funext i
    simp [Stores.settle]
  files := rfl

theorem single {ending : Option FlushOutcome}
    (hcalls : r'.calls = r.calls ++ (⟨t, ending⟩ : FlushVisit ι).calls)
    (hdue : ending.isSome = (r.memory t.store).dirty)
    (hmemory : r'.memory = r.memory.settle [t.store])
    (hfiles : (⟨t, ending⟩ : FlushVisit ι).Leaves r.memory.texts (mishaps 0) r.files r'.files) :
    Visited [t] mishaps r r' [⟨t, ending⟩] where
  targets_eq := rfl
  calls_eq := by simpa using hcalls
  due {place v} hv := by
    cases place with
    | zero =>
      obtain rfl : (⟨t, ending⟩ : FlushVisit ι) = v := by simpa using hv
      simp [hdue]
    | succ place => simp at hv
  memory_eq := hmemory
  files := ⟨r'.files, hfiles, rfl⟩

/-- A visit, and the visits of the rest of a round. -/
theorem cons {v : FlushVisit ι} {visits : List (FlushVisit ι)}
    (hfirst : Visited [t] mishaps r next [v])
    (hrest : Visited targets (fun place => mishaps (place + 1)) next r' visits) :
    Visited (t :: targets) mishaps r r' (v :: visits) := by
  have htarget : v.target = t := by simpa using hfirst.targets_eq
  have hmemory : next.memory = r.memory.settle [t.store] := hfirst.memory_eq
  constructor
  · rw [List.map_cons, htarget, hrest.targets_eq]
  · rw [hrest.calls_eq, hfirst.calls_eq]
    simp
  · intro place w hw
    cases place with
    | zero =>
      have hdue := hfirst.due (show [v][0]? = some w from hw)
      simpa using hdue
    | succ place =>
      -- A later store is still marked if it was, unless it is the one just settled.
      rw [hrest.due hw, hmemory, Stores.dirty_settle]
      simp [and_assoc]
  · rw [hrest.memory_eq, hmemory, Stores.settle_settle]
    rfl
  · obtain ⟨fs, hleaves, hfs⟩ := hfirst.files
    obtain rfl : next.files = fs := hfs
    refine ⟨next.files, hleaves, ?_⟩
    have hfiles := hrest.files
    rw [hmemory, Stores.texts_settle] at hfiles
    exact hfiles

end Visited

theorem attemptUnder_target (mishap : Option Mishap) (m : Stores α) (fs : Files)
    (calls : List FlushCall) (t : StoreTarget ι) :
    (⟨m, fs, calls⟩ : FlushRun (Stores α)).attemptUnder mishap t.target =
      ⟨m, (fs.saveUnder mishap t.path (m.texts t.store)).2,
        calls ++ [.attempted t.name (fs.saveUnder mishap t.path (m.texts t.store)).1]⟩ := rfl

theorem visited_visitUnder (t : StoreTarget ι) (mishaps : Nat → Option Mishap)
    (r : FlushRun (Stores α)) :
    ∃ v, Visited [t] mishaps r (r.visitUnder (mishaps 0) t.target) [v] := by
  unfold visitUnder
  cases hdirty : t.target.slot.isDirty r.memory with
  | false =>
    rw [if_neg (by decide)]
    have hclean := (Stores.settle_of_clean hdirty).symm
    exact ⟨⟨t, none⟩, .single rfl hdirty.symm hclean rfl⟩
  | true =>
    rw [if_pos rfl]
    have hclear : t.target.slot.clearDirty r.memory = r.memory.settle [t.store] :=
      Stores.clearDirty_slot r.memory t.store
    rw [hclear, attemptUnder_target, Stores.texts_settle]
    refine ⟨⟨t, some (r.files.saveUnder (mishaps 0) t.path (r.memory.texts t.store)).1⟩,
      .single ?_ hdirty.symm rfl (FlushVisit.leaves_saveUnder ..)⟩
    exact List.append_assoc ..

theorem visited_roundUnder (targets : List (StoreTarget ι)) (mishaps : Nat → Option Mishap)
    (r : FlushRun (Stores α)) :
    ∃ visits, Visited targets mishaps r
      (r.roundUnder mishaps (targets.map StoreTarget.target)) visits := by
  induction targets generalizing mishaps r with
  | nil => exact ⟨[], .nil mishaps r⟩
  | cons t targets ih =>
    obtain ⟨v, hfirst⟩ := visited_visitUnder t mishaps r
    obtain ⟨visits, hrest⟩ :=
      ih (fun place => mishaps (place + 1)) (r.visitUnder (mishaps 0) t.target)
    exact ⟨v :: visits, hfirst.cons hrest⟩

/-! ### The last flush -/

/-- A last flush that consists of the given visits. -/
structure Finished (targets : List (StoreTarget ι)) (mishaps : Nat → Option Mishap)
    (r r' : FlushRun (Stores α)) (visits : List (FlushVisit ι)) : Prop where
  targets_eq : visits.map (·.target) = targets
  calls_eq : r'.calls = r.calls ++ visits.flatMap FlushVisit.attempts
  made : ∀ v ∈ visits, v.ending.isSome = true
  memory_eq : r'.memory = r.memory
  files : FlushVisit.AllLeave r.memory.texts mishaps visits r.files r'.files

theorem finished_finalUnder (targets : List (StoreTarget ι)) (mishaps : Nat → Option Mishap)
    (r : FlushRun (Stores α)) :
    ∃ visits, Finished targets mishaps r
      (r.finalUnder mishaps (targets.map StoreTarget.target)) visits := by
  induction targets generalizing mishaps r with
  | nil => exact ⟨[], rfl, (List.append_nil r.calls).symm, by simp, rfl, rfl⟩
  | cons t targets ih =>
    obtain ⟨visits, hrest⟩ :=
      ih (fun place => mishaps (place + 1)) (r.attemptUnder (mishaps 0) t.target)
    let ending := r.files.saveUnder (mishaps 0) t.path (r.memory.texts t.store)
    refine ⟨⟨t, some ending.1⟩ :: visits, ?_, ?_, ?_, hrest.memory_eq, ?_⟩
    · rw [List.map_cons, hrest.targets_eq]
    · refine hrest.calls_eq.trans ?_
      simp only [List.flatMap_cons]
      rw [← List.append_assoc]
      rfl
    · intro v hv
      rcases List.mem_cons.1 hv with rfl | hv
      · rfl
      · exact hrest.made v hv
    · exact ⟨ending.2, FlushVisit.leaves_saveUnder .., hrest.files⟩

/-! ### Many rounds -/

/-- The run when it is the flusher's turn. -/
def change (r : FlushRun (Stores α)) (turn : FlushTurn α) : FlushRun (Stores α) :=
  { r with memory := fun i => turn.change i (r.memory i) }

def takeTurn (targets : List (StoreTarget ι)) (r : FlushRun (Stores α)) (turn : FlushTurn α) :
    FlushRun (Stores α) :=
  (StoreTarget.flusher targets).tickUnder turn.mishaps (r.change turn)

/-- A running flusher takes one turn after the other. -/
def session (targets : List (StoreTarget ι)) (turns : List (FlushTurn α))
    (r : FlushRun (Stores α)) : FlushRun (Stores α) :=
  turns.foldl (takeTurn targets) r

/-- It is stopped after its turns. -/
def stopped (targets : List (StoreTarget ι)) (turns : List (FlushTurn α)) (last : FlushTurn α)
    (r : FlushRun (Stores α)) : FlushRun (Stores α) :=
  ((StoreTarget.flusher targets).stopUnder last.mishaps ((r.session targets turns).change last)).2

/-- The visits of a session, round by round; nothing else is called. -/
structure Logged (targets : List (StoreTarget ι)) (turns : List (FlushTurn α))
    (r : FlushRun (Stores α)) (rounds : List (List (FlushVisit ι))) : Prop where
  length_eq : rounds.length = turns.length
  calls_eq : (r.session targets turns).calls =
    r.calls ++ rounds.flatMap (·.flatMap FlushVisit.calls)
  visited : ∀ {n : Nat} {turn : FlushTurn α} {visits : List (FlushVisit ι)},
    turns[n]? = some turn → rounds[n]? = some visits →
      Visited targets turn.mishaps ((r.session targets (turns.take n)).change turn)
        (r.session targets (turns.take (n + 1))) visits

theorem logged_session (targets : List (StoreTarget ι)) (turns : List (FlushTurn α))
    (r : FlushRun (Stores α)) : ∃ rounds, Logged targets turns r rounds := by
  induction turns generalizing r with
  | nil => exact ⟨[], rfl, (List.append_nil r.calls).symm, by simp⟩
  | cons turn turns ih =>
    obtain ⟨visits, hround⟩ := visited_roundUnder targets turn.mishaps (r.change turn)
    obtain ⟨rounds, hrest⟩ := ih (r.takeTurn targets turn)
    refine ⟨visits :: rounds, congrArg Nat.succ hrest.length_eq, ?_, ?_⟩
    · have hcalls : (r.takeTurn targets turn).calls =
          r.calls ++ visits.flatMap FlushVisit.calls := hround.calls_eq
      refine hrest.calls_eq.trans ?_
      rw [hcalls, List.append_assoc]
      rfl
    · intro n turn' visits' hturn hvisits
      cases n with
      | zero =>
        obtain rfl : turn = turn' := Option.some.inj hturn
        obtain rfl : visits = visits' := Option.some.inj hvisits
        exact hround
      | succ n => exact hrest.visited hturn hvisits

end FlushRun

end JobTrace
