import ApalisRedis.Acknowledgement
import ApalisRedis.Delivery
import ApalisRedis.Fencing
import ApalisRedis.Idempotency
import ApalisRedis.Persist
import ApalisRedis.RoundTrip
import ApalisRedis.VacuumSafety
import ApalisRedis.Waiting
import ApalisRedis.Locks
import ApalisRedis.Enqueue
import ApalisRedis.Bulk
import ApalisRedis.Announcements
import ApalisRedis.Factory
import ApalisRedis.Isolation
import ApalisRedis.Status
import ApalisRedis.Redelivery
import ApalisRedis.Events
import ApalisRedis.Signal
import ApalisRedis.Fetching
import ApalisRedis.Orphans
import ApalisRedis.Retries
import ApalisRedis.KeyOwners
import ApalisRedis.Batching
import ApalisRedis.Shutdown
import ApalisRedis.ReplyFormat
import ApalisRedis.Polling
import ApalisRedis.Listing
import ApalisRedis.WorkerListing
import ApalisRedis.Metrics
import ApalisRedis.GlobalMetrics
import ApalisRedis.QueueListing
import ApalisRedis.Readers
import ApalisRedis.Pubsub
import ApalisRedis.OrphanCutoff
import ApalisRedis.ArgumentVectors
import ApalisRedis.Operations
import ApalisRedis.Clients
import ApalisRedis.Recovery
import ApalisRedis.Exclusion
import ApalisRedis.Completion
import ApalisRedis.Fairness
import ApalisRedis.Provenance
import ApalisRedis.Durability
import ApalisRedis.EventLog
import ApalisRedis.Draining
import ApalisRedis.Wakeups
import ApalisRedis.Deliveries
import ApalisRedis.Transparency
import ApalisRedis.Forgetting
