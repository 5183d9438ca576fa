import JobTrace.Topic.Config
import JobTrace.Proofs.Tracking.History
import JobTrace.Proofs.Flushing.Durability
import JobTrace.Proofs.Flushing.Moments
import JobTrace.Proofs.Flushing.Calls
import JobTrace.Proofs.Pipeline.Handling
import JobTrace.Proofs.Pipeline.Restart
import JobTrace.Proofs.Tracking.Locality
import JobTrace.Proofs.Tracking.Streams
import JobTrace.Proofs.Tracking.Repeats
import JobTrace.Proofs.Tracking.Ending
import JobTrace.Proofs.Tracking.Creation
import JobTrace.Proofs.Processing.FanOut
import JobTrace.Proofs.Pipeline.Traffic
import JobTrace.Proofs.Pipeline.Schedules
import JobTrace.Proofs.Processing.Companions
import JobTrace.Proofs.Processing.Descriptions
import JobTrace.Proofs.Processing.Weaving
import JobTrace.Proofs.Tracking.Reporting
import JobTrace.Proofs.Store.Loading
import JobTrace.Proofs.Flushing.Isolation
import JobTrace.Proofs.Routing.Segments
import JobTrace.Proofs.Store.Replacing
import JobTrace.Proofs.Store.Atomicity
import JobTrace.Proofs.Tracking.Silence
import JobTrace.Proofs.Processing.Injection
import JobTrace.Proofs.Projection.Selection
import JobTrace.Proofs.Job.Recognition
import JobTrace.Proofs.Record.Rereading
import JobTrace.Proofs.Field.Trials
import JobTrace.Proofs.Topic.Rereading
import JobTrace.Proofs.Store.Tables
import JobTrace.Proofs.Files.Components
import JobTrace.Proofs.Processing.Margins
