import JobTrace.Record.Event

/-!
Which job an event is about.

A job instance is named by its cluster, its number and its index within a job array.  Stores keep
one entry for each job, under a key that joins the three.
-/

namespace JobTrace

/-- The identity of one job instance. -/
@[ext]
structure JobIdentity where
  cluster : String
  jobId : Int64
  jobIndex : Int64
deriving DecidableEq

namespace JobIdentity

/-- The identity in the fields of an event.  A missing field leaves its part degenerate, but the
    identity can still be used as any other. -/
def ofEvent (e : Event) : JobIdentity :=
  ⟨e.textOf FieldName.cluster, e.intOf FieldName.jobId, e.intOf FieldName.jobIndex⟩

/-- The key under which stores keep the job. -/
def key (i : JobIdentity) : String :=
  i.cluster ++ "_" ++ Int64.decimal i.jobId ++ "_" ++ Int64.decimal i.jobIndex

end JobIdentity

end JobTrace
