import JobTrace.Job.State
import JobTrace.Record.Event

/-!
Which state an event reports.

Three types of event tell about the state of a job: its creation, its start, and a status report
that names the state itself.  Every other event, and a report of an unknown state, classifies as
nothing, which is not an error.
-/

namespace JobTrace

/-- A reported state and why the job came into it. -/
structure Classification where
  state : JobState
  reason : String
deriving DecidableEq

/-- Why a job ended, by the number that a status report gives. -/
def exitReasons : List String :=
  ["job exited, reason unknown TERM_UNKNOWN",
    "job killed after preemption TERM_PREEMPT",
    "job killed after queue run window is closed TERM_WINDOW",
    "job killed after load exceeds threshold TERM_LOAD",
    "job exited, reason unknown TERM_OTHER",
    "job killed after reaching LSF run time limit TERM_RUNLIMIT",
    "job killed after deadline expires TERM_DEADLINE",
    "job killed after reaching LSF process TERM_PROCESSLIMIT",
    "job killed by owner without time for cleanup TERM_FORCE_OWNER",
    "job killed by root or LSF administrator without time for cleanup TERM_FORCE_ADMIN",
    "job killed and requeued by owner TERM_REQUEUE_OWNER",
    "job killed and requeued by root or LSF administrator TERM_REQUEUE_ADMIN",
    "job killed after reaching LSF CPU usage limit TERM_CPULIMIT",
    "job killed after checkpointing TERM_CHKPNT",
    "job killed by owner TERM_OWNER",
    "job killed by root or an administrator TERM_ADMIN",
    "job killed after reaching LSF memory usage limit TERM_MEMLIMIT",
    "job killed by a signal external to lsf TERM_EXTERNAL_SIGNAL",
    "job terminated abnormally in RMS TERM_RMS",
    "job killed when LSF is not available TERM_ZOMBIE",
    "job killed after reaching LSF swap usage limit TERM_SWAP",
    "job killed after reaching LSF thread TERM_THREADLIMIT",
    "job terminated abnormally in SLURM TERM_SLURM",
    "job exited, reason unknown TERM_BUCKET_KILL",
    "job terminated after control PID died TERM_CTRL_PID",
    "Current working directory is not accessible or does not exist on the execution host " ++
      "TERM_CWD_NOTEXIST",
    "hung job removed from the LSF system TERM_REMOVE_HUNG_JOB",
    "TERM_ORPHAN_SYSTEM",
    "TERM_PRE_EXEC_FAIL",
    "TERM_DATA",
    "TERM_MC_RECALL",
    "TERM_RC_RECLAIM"]

/-- The greatest number that is looked up; the reasons behind it are never reported. -/
def maxExitInfo : Int64 := 26

/-- Why the job of an event ended: empty unless the exit status is positive and the number of
    the reason is in range. -/
def exitReason (e : Event) : String :=
  let info := e.intOf FieldName.exitInfo
  if e.intOf FieldName.exitStatus ≤ 0 ∨ info < 0 ∨ maxExitInfo < info then ""
  else exitReasons[info.toInt.toNat]?.getD ""

/-- The state that an event reports. -/
def classify? (e : Event) : Option Classification :=
  if e.eventType = EventType.jobNew then some ⟨.pend, "new job submitted"⟩
  else if e.eventType = EventType.jobStartAccept then some ⟨.run, "job starts"⟩
  else if e.eventType = EventType.jobStatus then
    (JobState.ofName? (e.textOf FieldName.jobStatus)).map fun s =>
      ⟨s, if s.carriesExitReason then exitReason e else ""⟩
  else none

end JobTrace
