import JobTrace.Proofs.Flushing.Calls

/-!
# Flushing under mishaps

A running flusher is told which targets crash, and it fails where the files refuse a snapshot.
Elsewhere a disk is full or a thread dies half way.  A `Mishap` is any of these: the attempt wrote
some of the bytes beside the snapshot, or none, and then failed or crashed.  Mishaps are chosen by
the place of a target in its list, so that a target that occurs twice may fare differently.

The flusher here does what the running one does, only under mishaps.  If the mishaps are the
crashes of the running flusher, it is the running flusher (`Flusher.tick_eq_tickUnder`,
`Flusher.stop_eq_stopUnder`).
-/

namespace JobTrace

/-- Why an attempt does not come to its end: with an error, or by a crash if there is none. -/
structure Mishap where
  /-- How many bytes were written beside the snapshot, if it came to writing. -/
  written : Option Nat
  error : Option SnapshotError
deriving DecidableEq

namespace Mishap

/-- The crash that a running flusher is told of: it comes before a file is touched. -/
def crash : Mishap := ⟨none, none⟩

def outcome (m : Mishap) : FlushOutcome :=
  match m.error with
  | none => .crashed
  | some e => .failed e

def ofCrashes {μ : Type} (crashes : FlushTarget μ → Bool) (targets : List (FlushTarget μ))
    (place : Nat) : Option Mishap :=
  (targets[place]?).bind fun t => if crashes t then some crash else none

end Mishap

namespace Files

variable {fs fs' : Files} {path : Path}

/-- What a mishap leaves of the attempt to save a text. -/
def spoil (fs : Files) (m : Mishap) (path : Path) (text : String) : Files :=
  match m.written with
  | none => fs
  | some count =>
    match fs.write path.temporary (text.toUTF8.extract 0 count) with
    | .error _ => fs
    | .ok beside => beside

/-- An attempt to save a text, under a mishap or without one: how it ends, and what it leaves. -/
def saveUnder (fs : Files) (mishap : Option Mishap) (path : Path) (text : String) :
    FlushOutcome × Files :=
  match mishap with
  | some m => (m.outcome, fs.spoil m path text)
  | none =>
    match fs.saveSnapshot path text with
    | (.ok _, files) => (.written, files)
    | (.error e, files) => (.failed e, files)

theorem saveUnder_none (fs : Files) (path : Path) (text : String) :
    (fs.saveUnder none path text).2 = (fs.saveSnapshot path text).2 := by
  unfold saveUnder
  cases fs.saveSnapshot path text with
  | mk result files => cases result <;> rfl

/-- A mishap leaves everything, or it leaves some bytes beside the snapshot. -/
theorem spoil_cases (fs : Files) (m : Mishap) (path : Path) (text : String) :
    fs.spoil m path text = fs ∨
      ∃ bytes, fs.write path.temporary bytes = .ok (fs.spoil m path text) := by
  unfold spoil
  split
  · exact .inl rfl
  · split
    · exact .inl rfl
    · next hwrite => exact .inr ⟨_, hwrite⟩

theorem sameDirectories_spoil (fs : Files) (m : Mishap) (path : Path) (text : String) :
    SameDirectories fs (fs.spoil m path text) := by
  rcases spoil_cases fs m path text with hspoil | ⟨bytes, hwrite⟩
  · rw [hspoil]
    exact .refl fs
  · exact sameDirectories_of_write hwrite

theorem find?_spoil (fs : Files) (m : Mishap) (path : Path) (text : String) :
    (fs.spoil m path text).find? path = fs.find? path := by
  rcases spoil_cases fs m path text with hspoil | ⟨bytes, hwrite⟩
  · rw [hspoil]
  · exact find?_of_write_temporary hwrite

theorem find?_spoil_apart {q : Path} (h : fs.Apart path.temporary q) (m : Mishap)
    (text : String) : (fs.spoil m path text).find? q = fs.find? q := by
  rcases spoil_cases fs m path text with hspoil | ⟨bytes, hwrite⟩
  · rw [hspoil]
  · exact find?_of_write_apart hwrite h

theorem sameDirectories_saveUnder (fs : Files) (mishap : Option Mishap) (path : Path)
    (text : String) : SameDirectories fs (fs.saveUnder mishap path text).2 := by
  cases mishap with
  | some m => exact sameDirectories_spoil fs m path text
  | none =>
    rw [saveUnder_none]
    exact sameDirectories_saveSnapshot fs path text

/-- However an attempt ends, it touches no third place. -/
theorem find?_saveUnder_apart {q : Path} (hpath : fs.Apart path q)
    (htemporary : fs.Apart path.temporary q) (mishap : Option Mishap) (text : String) :
    (fs.saveUnder mishap path text).2.find? q = fs.find? q := by
  cases mishap with
  | some m => exact find?_spoil_apart htemporary m text
  | none =>
    rw [saveUnder_none]
    exact find?_saveSnapshot_apart hpath htemporary text

/-- What an attempt makes of its path depends on what is found there and on the directories. -/
theorem find?_saveUnder_congr (hsame : SameDirectories fs fs')
    (h : fs.find? path = fs'.find? path) (mishap : Option Mishap) (text : String) :
    (fs.saveUnder mishap path text).2.find? path =
      (fs'.saveUnder mishap path text).2.find? path := by
  cases mishap with
  | some m => exact (find?_spoil fs m path text).trans (h.trans (find?_spoil fs' m path text).symm)
  | none =>
    rw [saveUnder_none, saveUnder_none]
    exact find?_saveSnapshot_congr hsame h text

end Files

/-! ### Rounds and the last flush -/

namespace FlushRun

variable {μ : Type}

def attemptUnder (mishap : Option Mishap) (r : FlushRun μ) (t : FlushTarget μ) : FlushRun μ :=
  let ending := r.files.saveUnder mishap t.path (t.slot.text r.memory)
  ⟨r.memory, ending.2, r.calls ++ [.attempted t.name ending.1]⟩

def visitUnder (mishap : Option Mishap) (r : FlushRun μ) (t : FlushTarget μ) : FlushRun μ :=
  if t.slot.isDirty r.memory then
    attemptUnder mishap
      { r with
        memory := t.slot.clearDirty r.memory
        calls := r.calls ++ [.askedDirty t.name true, .clearedDirty t.name] }
      t
  else { r with calls := r.calls ++ [.askedDirty t.name false] }

/-- Do something with one target after the other, under the mishaps of their places. -/
def inTurn (act : Option Mishap → FlushRun μ → FlushTarget μ → FlushRun μ)
    (mishaps : Nat → Option Mishap) : List (FlushTarget μ) → FlushRun μ → FlushRun μ
  | [], r => r
  | t :: targets, r => inTurn act (fun place => mishaps (place + 1)) targets (act (mishaps 0) r t)

def roundUnder (mishaps : Nat → Option Mishap) (targets : List (FlushTarget μ)) (r : FlushRun μ) :
    FlushRun μ :=
  inTurn visitUnder mishaps targets r

def finalUnder (mishaps : Nat → Option Mishap) (targets : List (FlushTarget μ)) (r : FlushRun μ) :
    FlushRun μ :=
  inTurn attemptUnder mishaps targets r

/-! ### The running flusher -/

variable (crashes : FlushTarget μ → Bool)

theorem attempt_eq (r : FlushRun μ) (t : FlushTarget μ) :
    r.attempt crashes t = r.attemptUnder (if crashes t then some .crash else none) t := by
  cases hcrash : crashes t with
  | true =>
    rw [attempt_of_crash hcrash, if_pos rfl]
    rfl
  | false =>
    unfold attempt attemptUnder Files.saveUnder
    rw [hcrash, if_neg (by decide), if_neg (by decide)]
    cases r.files.saveSnapshot t.path (t.slot.text r.memory) with
    | mk result files => cases result <;> rfl

theorem visit_eq (r : FlushRun μ) (t : FlushTarget μ) :
    r.visit crashes t = r.visitUnder (if crashes t then some .crash else none) t := by
  unfold visit visitUnder
  rw [attempt_eq]

theorem foldl_eq_inTurn {act : FlushRun μ → FlushTarget μ → FlushRun μ}
    {actUnder : Option Mishap → FlushRun μ → FlushTarget μ → FlushRun μ}
    (h : ∀ r t, act r t = actUnder (if crashes t then some .crash else none) r t)
    (targets : List (FlushTarget μ)) (r : FlushRun μ) :
    targets.foldl act r = inTurn actUnder (Mishap.ofCrashes crashes targets) targets r := by
  induction targets generalizing r with
  | nil => rfl
  | cons t targets ih =>
    rw [List.foldl_cons, h r t]
    exact ih _

end FlushRun

namespace Flusher

variable {μ : Type}

def tickUnder (f : Flusher μ) (mishaps : Nat → Option Mishap) (r : FlushRun μ) : FlushRun μ :=
  if f.running then r.roundUnder mishaps f.targets else r

def stopUnder (f : Flusher μ) (mishaps : Nat → Option Mishap) (r : FlushRun μ) :
    Flusher μ × FlushRun μ :=
  if f.running then ({ f with running := false }, r.finalUnder mishaps f.targets) else (f, r)

theorem tick_eq_tickUnder (f : Flusher μ) (crashes : FlushTarget μ → Bool) (r : FlushRun μ) :
    f.tick crashes r = f.tickUnder (Mishap.ofCrashes crashes f.targets) r := by
  unfold tick tickUnder
  split
  · exact FlushRun.foldl_eq_inTurn crashes (FlushRun.visit_eq crashes) f.targets r
  · rfl

theorem stop_eq_stopUnder (f : Flusher μ) (crashes : FlushTarget μ → Bool) (r : FlushRun μ) :
    f.stop crashes r = f.stopUnder (Mishap.ofCrashes crashes f.targets) r := by
  unfold stop stopUnder
  split
  · exact congrArg _ (FlushRun.foldl_eq_inTurn crashes (FlushRun.attempt_eq crashes) f.targets r)
  · rfl

end Flusher

end JobTrace
