/-!
The states of a job.

A job passes through the states below.  Each has a code, under which it is stored, and a name,
under which it is reported.  From code 6 on the states are final (`JobState.isFinal_iff`): a job
seen in one of them is not followed any longer.
-/

namespace JobTrace

/-- The state of a job. -/
inductive JobState where
  | pend
  | psusp
  | run
  | ssusp
  | ususp
  | wait
  | unkwn
  | pdone
  | perr
  | donePdone
  | doneWait
  | donePerr
  | error
  | done
  | exit
deriving DecidableEq

namespace JobState

def all : List JobState :=
  [pend, psusp, run, ssusp, ususp, wait, unkwn, pdone, perr, donePdone, doneWait, donePerr,
    error, done, exit]

def code : JobState → Int64
  | pend => 0
  | psusp => 1
  | run => 2
  | ssusp => 3
  | ususp => 4
  | wait => 5
  | unkwn => 6
  | pdone => 7
  | perr => 8
  | donePdone => 9
  | doneWait => 10
  | donePerr => 11
  | error => 12
  | done => 13
  | exit => 14

def name : JobState → String
  | pend => "PEND"
  | psusp => "PSUSP"
  | run => "RUN"
  | ssusp => "SSUSP"
  | ususp => "USUSP"
  | wait => "WAIT"
  | unkwn => "UNKWN"
  | pdone => "PDONE"
  | perr => "PERR"
  | donePdone => "DONE+PDONE"
  | doneWait => "DONE+WAIT"
  | donePerr => "DONE+PERR"
  | error => "ERROR"
  | done => "DONE"
  | exit => "EXIT"

def ofCode? (code : Int64) : Option JobState := all.find? fun s => s.code = code

def ofName? (name : String) : Option JobState := all.find? fun s => s.name = name

/-- Following a job ends in a final state and does not begin in one. -/
def isFinal : JobState → Bool
  | pend | psusp | run | ssusp | ususp | wait => false
  | _ => true

/-- Only reports of final states may tell why a job ended. -/
def carriesExitReason (s : JobState) : Bool := s.isFinal

/-- The name of a stored code; an unknown code has the empty name. -/
def nameOfCode (code : Int64) : String :=
  match ofCode? code with
  | some s => s.name
  | none => ""

theorem mem_all (s : JobState) : s ∈ all := by cases s <;> decide

theorem ofCode?_code (s : JobState) : ofCode? s.code = some s := by cases s <;> decide

theorem ofName?_name (s : JobState) : ofName? s.name = some s := by cases s <;> decide

theorem isFinal_iff (s : JobState) : s.isFinal = true ↔ 6 ≤ s.code := by cases s <;> decide

end JobState

/-- A name that no state has. -/
structure UnknownState where
  name : String

def UnknownState.message (e : UnknownState) : String := "unknown lifecycle state: " ++ e.name

/-- The state with a given name, or the name as an error. -/
def JobState.ofName (name : String) : Except UnknownState JobState :=
  match ofName? name with
  | some s => .ok s
  | none => .error ⟨name⟩

end JobTrace
