import Mathlib
import JobTrace.Proofs.Flushing.Visits

/-!
# Targets do not disturb each other

Targets that have different stores, and whose paths and temporary paths lead to different places,
do not see each other.  Two runs look the same to a target if its store, its file and the
directories are the same (`FlushRun.SameFor`).  What is done with another target changes none of
these, and what is done with the target itself changes them in the same way in both runs
(`FlushRun.ActsApart`).  So a run with all targets looks to each of them like a run that it has for
itself, whatever mishaps the attempts for the others have.

For the last flush this says what is found in the end: a target that can be written and has no
mishap of its own is found with all that its store holds (`FlushRun.find?_stopped`).
-/

namespace JobTrace

variable {ι : Type} {α : ι → Type}

/-- The turn of a flusher whose one target is at the given place of the list. -/
def FlushTurn.forPlace (turn : FlushTurn α) (place : Nat) : FlushTurn α :=
  ⟨turn.change, fun _ => turn.mishaps place⟩

namespace StoreTarget

/-- The targets have stores and places of their own. -/
structure Separate (fs : Files) (targets : List (StoreTarget ι)) : Prop where
  stores : (targets.map (·.store)).Nodup
  paths : (targets.flatMap fun t => [t.path, t.path.temporary]).Pairwise fs.Apart

/-- A target that reaches neither the store nor the path of another one. -/
structure Spares (fs : Files) (u t : StoreTarget ι) : Prop where
  store : t.store ≠ u.store
  path : fs.Apart u.path t.path
  temporary : fs.Apart u.path.temporary t.path

theorem Separate.of_cons {fs : Files} {t : StoreTarget ι} {targets : List (StoreTarget ι)}
    (h : Separate fs (t :: targets)) :
    (∀ u ∈ targets, Spares fs u t ∧ Spares fs t u) ∧ Separate fs targets := by
  obtain ⟨hstore, hstores⟩ := List.nodup_cons.1 h.stores
  obtain ⟨-, hpaths, hapart⟩ := List.pairwise_append.1 h.paths
  refine ⟨?_, hstores, hpaths⟩
  intro u hu
  have hne : t.store ≠ u.store := by
    intro heq
    apply hstore
    exact List.mem_map.2 ⟨u, hu, heq.symm⟩
  have hpath : ∀ p ∈ [t.path, t.path.temporary], fs.Apart p u.path :=
    fun p hp => hapart p hp u.path (List.mem_flatMap.2 ⟨u, hu, by simp⟩)
  have htemporary : fs.Apart t.path u.path.temporary :=
    hapart t.path (by simp) u.path.temporary (List.mem_flatMap.2 ⟨u, hu, by simp⟩)
  constructor
  · exact ⟨hne, (hpath t.path (by simp)).symm, htemporary.symm⟩
  · exact ⟨hne.symm, hpath t.path (by simp), hpath t.path.temporary (by simp)⟩

end StoreTarget

namespace FlushRun

/-! ### What a target sees of a run -/

/-- Two runs that look the same to a target.  No directory has come or gone in either of them. -/
structure SameFor (fs : Files) (t : StoreTarget ι) (r r' : FlushRun (Stores α)) : Prop where
  directories : fs.SameDirectories r.files
  directories' : fs.SameDirectories r'.files
  store : r.memory t.store = r'.memory t.store
  file : r.files.find? t.path = r'.files.find? t.path

theorem SameFor.refl (t : StoreTarget ι) (r : FlushRun (Stores α)) : SameFor r.files t r r :=
  ⟨.refl _, .refl _, rfl, rfl⟩

theorem SameFor.change {fs : Files} {t : StoreTarget ι} {r r' : FlushRun (Stores α)}
    (h : SameFor fs t r r') (turn : FlushTurn α) (place : Nat) :
    SameFor fs t (r.change turn) (r'.change (turn.forPlace place)) :=
  ⟨h.directories, h.directories', congrArg (turn.change t.store) h.store, h.file⟩

theorem sameDirectories_attemptUnder {μ : Type} {fs : Files} {r : FlushRun μ}
    (h : fs.SameDirectories r.files) (mishap : Option Mishap) (t : FlushTarget μ) :
    fs.SameDirectories (r.attemptUnder mishap t).files :=
  h.trans (Files.sameDirectories_saveUnder r.files mishap t.path (t.slot.text r.memory))

variable [DecidableEq ι] [∀ i, Storable (α i)] {fs : Files} {t : StoreTarget ι}
  {r r' : FlushRun (Stores α)}

/-- What is done with a target is the same in runs that look the same to it, and what is done with
    others is nothing to it. -/
structure ActsApart (fs : Files) (t : StoreTarget ι)
    (act : Option Mishap → FlushRun (Stores α) → FlushTarget (Stores α) → FlushRun (Stores α)) :
    Prop where
  self : ∀ {r r' : FlushRun (Stores α)} (mishap : Option Mishap), SameFor fs t r r' →
    SameFor fs t (act mishap r t.target) (act mishap r' t.target)
  other : ∀ {u : StoreTarget ι} {r r' : FlushRun (Stores α)} (mishap : Option Mishap),
    StoreTarget.Spares fs u t → SameFor fs t r r' → SameFor fs t (act mishap r u.target) r'

theorem actsApart_attemptUnder (fs : Files) (t : StoreTarget ι) :
    ActsApart (α := α) fs t attemptUnder where
  self {r r'} mishap h := by
    refine ⟨sameDirectories_attemptUnder h.directories mishap _,
      sameDirectories_attemptUnder h.directories' mishap _, h.store, ?_⟩
    have htext : t.target.slot.text r'.memory = t.target.slot.text r.memory :=
      congrArg Store.text h.store.symm
    have hsame := h.directories.symm.trans h.directories'
    show _ = (r'.files.saveUnder mishap t.path (t.target.slot.text r'.memory)).2.find? t.path
    rw [htext]
    exact Files.find?_saveUnder_congr hsame h.file mishap (t.target.slot.text r.memory)
  other mishap hspares h := by
    refine ⟨sameDirectories_attemptUnder h.directories mishap _, h.directories', h.store, ?_⟩
    have hfound := Files.find?_saveUnder_apart (h.directories.apart hspares.path)
      (h.directories.apart hspares.temporary) mishap
    exact (hfound _).trans h.file

theorem actsApart_visitUnder (fs : Files) (t : StoreTarget ι) :
    ActsApart (α := α) fs t visitUnder where
  self {r r'} mishap h := by
    have hdirty : t.target.slot.isDirty r'.memory = t.target.slot.isDirty r.memory :=
      congrArg Store.dirty h.store.symm
    unfold visitUnder
    rw [hdirty]
    split
    · apply (actsApart_attemptUnder fs t).self
      refine ⟨h.directories, h.directories', ?_, h.file⟩
      simp [StoreTarget.target, Stores.slot, h.store]
    · exact ⟨h.directories, h.directories', h.store, h.file⟩
  other mishap hspares h := by
    unfold visitUnder
    split
    · apply (actsApart_attemptUnder fs t).other mishap hspares
      refine ⟨h.directories, h.directories', ?_, h.file⟩
      simpa [StoreTarget.target, Stores.slot, hspares.store] using h.store
    · exact ⟨h.directories, h.directories', h.store, h.file⟩

/-! ### The target alone -/

section

variable {act : Option Mishap → FlushRun (Stores α) → FlushTarget (Stores α) → FlushRun (Stores α)}
  {targets : List (StoreTarget ι)} {place : Nat}

theorem ActsApart.inTurn_others (hact : ActsApart fs t act)
    (htargets : ∀ u ∈ targets, StoreTarget.Spares fs u t) (mishaps : Nat → Option Mishap)
    (h : SameFor fs t r r') :
    SameFor fs t (inTurn act mishaps (targets.map StoreTarget.target) r) r' := by
  induction targets generalizing mishaps r with
  | nil => exact h
  | cons u targets ih =>
    have hfirst := hact.other (mishaps 0) (htargets u (List.mem_cons_self ..)) h
    exact ih (fun v hv => htargets v (List.mem_cons_of_mem _ hv)) _ hfirst

/-- When all targets have had their turn, it is to each of them as if it alone had had one. -/
theorem ActsApart.inTurn (hact : ActsApart fs t act) (hseparate : StoreTarget.Separate fs targets)
    (hplace : targets[place]? = some t) (mishaps : Nat → Option Mishap) (h : SameFor fs t r r') :
    SameFor fs t (inTurn act mishaps (targets.map StoreTarget.target) r)
      (act (mishaps place) r' t.target) := by
  induction targets generalizing place mishaps r with
  | nil => simp at hplace
  | cons u targets ih =>
    obtain ⟨hrest, hseparate⟩ := hseparate.of_cons
    cases place with
    | zero =>
      obtain rfl : u = t := Option.some.inj hplace
      exact hact.inTurn_others (fun v hv => (hrest v hv).1) _ (hact.self (mishaps 0) h)
    | succ place =>
      have hmem : t ∈ targets := List.mem_of_getElem? hplace
      exact ih hseparate hplace _ (hact.other (mishaps 0) (hrest t hmem).2 h)

theorem SameFor.session (h : SameFor fs t r r') (hseparate : StoreTarget.Separate fs targets)
    (hplace : targets[place]? = some t) (turns : List (FlushTurn α)) :
    SameFor fs t (r.session targets turns) (r'.session [t] (turns.map (·.forPlace place))) := by
  induction turns generalizing r r' with
  | nil => exact h
  | cons turn turns ih =>
    exact ih ((actsApart_visitUnder fs t).inTurn hseparate hplace turn.mishaps
      (h.change turn place))

theorem SameFor.stopped (h : SameFor fs t r r') (hseparate : StoreTarget.Separate fs targets)
    (hplace : targets[place]? = some t) (turns : List (FlushTurn α)) (last : FlushTurn α) :
    SameFor fs t (r.stopped targets turns last)
      (r'.stopped [t] (turns.map (·.forPlace place)) (last.forPlace place)) :=
  (actsApart_attemptUnder fs t).inTurn hseparate hplace last.mishaps
    ((h.session hseparate hplace turns).change last place)

/-- Whatever becomes of the others, a target that can be written and has no mishap is written when
    the flusher is stopped. -/
theorem find?_stopped (r : FlushRun (Stores α)) (hseparate : StoreTarget.Separate r.files targets)
    (hplace : targets[place]? = some t) (hpath : r.files.Writable t.path)
    (htemporary : r.files.Writable t.path.temporary) (turns : List (FlushTurn α))
    {last : FlushTurn α} (hmishap : last.mishaps place = none) :
    (r.stopped targets turns last).files.find? t.path =
      some (.file (((r.session targets turns).change last).memory t.store).text.toUTF8) := by
  have hdirectories : r.files.SameDirectories (r.session targets turns).files :=
    ((SameFor.refl t r).session hseparate hplace turns).directories
  have hself : SameFor r.files t ((r.session targets turns).change last)
      ((r.session targets turns).change last) := ⟨hdirectories, hdirectories, rfl, rfl⟩
  have hstopped :=
    ((actsApart_attemptUnder r.files t).inTurn hseparate hplace last.mishaps hself).file
  rw [hmishap] at hstopped
  refine hstopped.trans ?_
  show (Files.saveUnder _ none t.path _).2.find? t.path = _
  rw [Files.saveUnder_none]
  exact Files.find?_saveSnapshot (hdirectories.writable hpath)
    (hdirectories.writable htemporary) _

end

/-- A running flusher is one whose mishaps are crashes.  Whatever the mishaps are, its rounds and
    its last flush reach all targets in order, and the file of a target is at any time what it is
    without the other targets. -/
theorem session_isolated (targets : List (StoreTarget ι)) (turns : List (FlushTurn α))
    (last : FlushTurn α) (r : FlushRun (Stores α)) :
    (∀ (crashes : FlushTarget (Stores α) → Bool) (r : FlushRun (Stores α)),
      (StoreTarget.flusher targets).tick crashes r =
          (StoreTarget.flusher targets).tickUnder
            (Mishap.ofCrashes crashes (targets.map StoreTarget.target)) r ∧
        (StoreTarget.flusher targets).stop crashes r =
          (StoreTarget.flusher targets).stopUnder
            (Mishap.ofCrashes crashes (targets.map StoreTarget.target)) r) ∧
    (∃ rounds, Logged targets turns r rounds) ∧
    (∃ visits, Finished targets last.mishaps ((r.session targets turns).change last)
      (r.stopped targets turns last) visits) ∧
    (StoreTarget.Separate r.files targets → ∀ (place : Nat) (t : StoreTarget ι),
      targets[place]? = some t →
        (r.session targets turns).files.find? t.path =
          (r.session [t] (turns.map (·.forPlace place))).files.find? t.path ∧
        (r.stopped targets turns last).files.find? t.path =
          (r.stopped [t] (turns.map (·.forPlace place)) (last.forPlace place)).files.find?
            t.path) := by
  refine ⟨?_, logged_session targets turns r, finished_finalUnder targets last.mishaps _, ?_⟩
  · intro crashes r
    constructor
    · exact Flusher.tick_eq_tickUnder (StoreTarget.flusher targets) crashes r
    · exact Flusher.stop_eq_stopUnder (StoreTarget.flusher targets) crashes r
  · intro hseparate place t hplace
    have hsame := SameFor.refl t r
    exact ⟨(hsame.session hseparate hplace turns).file,
      (hsame.stopped hseparate hplace turns last).file⟩

/-- A store of states and one of earlier states, kept beside each other. -/
def twoTargets : List (StoreTarget Bool) := [⟨"now", true, ⟨"s"⟩⟩, ⟨"before", false, ⟨"p"⟩⟩]

/-- Both stores are written to, and the attempt for the first one dies after two bytes. -/
def dyingTurn : FlushTurn fun _ : Bool => Int64 where
  change i s := s.write (if i then "a" else "b") 2
  mishaps place := if place = 0 then some ⟨some 2, none⟩ else none

def twoStores : FlushRun (Stores fun _ : Bool => Int64) := .start (fun _ => .empty) .empty

theorem separate_twoTargets : StoreTarget.Separate twoStores.files twoTargets := by
  constructor
  · decide
  · apply Files.pairwise_apart_of_names_ne
    · decide +kernel
    · decide +kernel

/-- The second target does not notice that the first one dies, and its store is found in its file
    when the flusher has been stopped. -/
theorem session_isolated_twoTargets :
    (twoStores.session twoTargets [dyingTurn]).files.find? ⟨"p"⟩ =
        (twoStores.session [⟨"before", false, ⟨"p"⟩⟩] [dyingTurn.forPlace 1]).files.find? ⟨"p"⟩ ∧
      (twoStores.stopped twoTargets [dyingTurn] dyingTurn).files.find? ⟨"p"⟩ =
        (twoStores.stopped [⟨"before", false, ⟨"p"⟩⟩] [dyingTurn.forPlace 1]
          (dyingTurn.forPlace 1)).files.find? ⟨"p"⟩ ∧
      (twoStores.stopped twoTargets [dyingTurn] dyingTurn).files.find? ⟨"p"⟩ =
        some (.file "\x7b\"b\":2\x7d".toUTF8) := by
  have hplace : twoTargets[1]? = some ⟨"before", false, ⟨"p"⟩⟩ := rfl
  have hmishap : dyingTurn.mishaps 1 = none := rfl
  obtain ⟨hsession, hstopped⟩ := (session_isolated twoTargets [dyingTurn] dyingTurn
    twoStores).2.2.2 separate_twoTargets 1 _ hplace
  have hpath : Files.empty.Writable ⟨"p"⟩ :=
    Files.writable_empty (n := "p") (by cbv)
  have htemporary : Files.empty.Writable (⟨"p"⟩ : Path).temporary :=
    Files.writable_empty (n := "p.tmp") (by cbv)
  have htext : (((twoStores.session twoTargets [dyingTurn]).change dyingTurn).memory false).text =
      "\x7b\"b\":2\x7d" := by decide +kernel
  have hfound := find?_stopped twoStores separate_twoTargets hplace hpath htemporary [dyingTurn]
    hmishap
  refine ⟨hsession, hstopped, hfound.trans ?_⟩
  exact congrArg (fun text => some (FileNode.file (String.toUTF8 text))) htext

end FlushRun

end JobTrace
