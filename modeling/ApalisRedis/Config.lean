import ApalisRedis.Redis.Commands
import Mathlib.Tactic.Simps.Basic

/-!
# The queue's configuration and its Redis keys

`Store` is what one queue keeps in Redis: one field for each key template of
`config.rs`, the registry of queues, the messages published so far and the
server clock.  The key builders of `Config` are typed keys into it.  Each
template is `"{queue}:suffix"`, so replacing `{queue}` puts the queue's name in
front of the suffix.
-/

namespace ApalisRedis

open Redis

/-- The compact form of task arguments. -/
abbrev Bytes := ByteArray

/-- The Redis keys of one queue, with the server's clock and its messages. -/
structure Store where
  /-- `{queue}:data` -/
  jobData : Hash Bytes
  /-- `{queue}:meta:<task_id>` -/
  jobMeta : String → Hash String
  /-- `{queue}:active` -/
  activeJobs : List String
  /-- `{queue}:scheduled` -/
  scheduledJobs : ZSet
  /-- `{queue}:inflight:<worker>` -/
  inflightJobs : String → Finset String
  /-- `{queue}:done` -/
  doneJobs : Finset String
  /-- `{queue}:dead` -/
  deadJobs : Finset String
  /-- `{queue}:workers` -/
  workers : ZSet
  /-- `{queue}:workers:metadata:<worker>` -/
  workerMetadata : String → Hash String
  /-- `{queue}:signal` -/
  signal : List String
  /-- `{queue}:idempotency:<key>` -/
  idempotency : String → Option Claim
  /-- `core:apalis:queues:list` -/
  queues : ZSet
  /-- What was published, as pairs of channel and message. -/
  published : List (String × String)
  /-- The server's clock in milliseconds. -/
  clock : Nat

/-- A queue that nothing was ever pushed to. -/
def Store.empty : Store where
  jobData := ∅
  jobMeta := fun _ => ∅
  activeJobs := []
  scheduledJobs := ∅
  inflightJobs := fun _ => ∅
  doneJobs := ∅
  deadJobs := ∅
  workers := ∅
  workerMetadata := fun _ => ∅
  signal := []
  idempotency := fun _ => none
  queues := ∅
  published := []
  clock := 0

/-- Where a task of the queue can be. -/
inductive Place where
  | active
  | scheduled
  | inflight (worker : String)
  | done
  | dead
deriving DecidableEq

namespace Store

/-- What `PUBLISH` leaves when events are emitted. -/
def say (s : Store) (emitEvents : Bool) (channel message : String) : Store :=
  { s with
    published := if emitEvents then s.published ++ [(channel, message)] else s.published }

/-- The signal list holds the single value that pollers wait for. -/
def wake (s : Store) : Store :=
  { s with signal := ["1"] }

end Store

namespace Keys

variable (queue : String)

/-- `Config::active_jobs_list` -/
@[simps name get set] def activeJobsList : Key Store (List String) where
  name := queue ++ ":active"
  get := Store.activeJobs
  set v s := { s with activeJobs := v }

/-- `Config::workers_set` -/
@[simps name get set] def workersSet : Key Store ZSet where
  name := queue ++ ":workers"
  get := Store.workers
  set v s := { s with workers := v }

/-- `Config::worker_metadata_key` -/
@[simps name get set] def workerMetadataKey (worker : String) : Key Store (Hash String) where
  name := queue ++ ":workers:metadata:" ++ worker
  get s := s.workerMetadata worker
  set v s := { s with workerMetadata := Function.update s.workerMetadata worker v }

/-- `Config::dead_jobs_set` -/
@[simps name get set] def deadJobsSet : Key Store (Finset String) where
  name := queue ++ ":dead"
  get := Store.deadJobs
  set v s := { s with deadJobs := v }

/-- `Config::done_jobs_set` -/
@[simps name get set] def doneJobsSet : Key Store (Finset String) where
  name := queue ++ ":done"
  get := Store.doneJobs
  set v s := { s with doneJobs := v }

/-- `Config::inflight_jobs_set`, the prefix that `:` and a worker's name extend. -/
@[simps name get set] def inflightJobsSet (worker : String) : Key Store (Finset String) where
  name := queue ++ ":inflight" ++ ":" ++ worker
  get s := s.inflightJobs worker
  set v s := { s with inflightJobs := Function.update s.inflightJobs worker v }

/-- `Config::inflight_set_for` -/
abbrev inflightSetFor (worker : String) : Key Store (Finset String) :=
  inflightJobsSet queue worker

/-- `Config::job_data_hash` -/
@[simps name get set] def jobDataHash : Key Store (Hash Bytes) where
  name := queue ++ ":data"
  get := Store.jobData
  set v s := { s with jobData := v }

/-- `Config::job_meta_hash`, the prefix that `:` and a task id extend. -/
@[simps name get set] def jobMetaHash (taskId : String) : Key Store (Hash String) where
  name := queue ++ ":meta" ++ ":" ++ taskId
  get s := s.jobMeta taskId
  set v s := { s with jobMeta := Function.update s.jobMeta taskId v }

/-- `Config::scheduled_jobs_set` -/
@[simps name get set] def scheduledJobsSet : Key Store ZSet where
  name := queue ++ ":scheduled"
  get := Store.scheduledJobs
  set v s := { s with scheduledJobs := v }

/-- `Config::signal_list` -/
@[simps name get set] def signalList : Key Store (List String) where
  name := queue ++ ":signal"
  get := Store.signal
  set v s := { s with signal := v }

/-- `Config::idempotency_key_set`, the prefix that `:` and a key extend. -/
@[simps name get set] def idempotencyKeySet (key : String) : Key Store (Option Claim) where
  name := queue ++ ":idempotency" ++ ":" ++ key
  get s := s.idempotency key
  set v s := { s with idempotency := Function.update s.idempotency key v }

end Keys

/-- The registry that `register_worker.lua` names itself. -/
@[simps name get set] def queuesList : Key Store ZSet where
  name := "core:apalis:queues:list"
  get := Store.queues
  set v s := { s with queues := v }

/-- The server's publish/subscribe messages. -/
@[simps name get set] def pubsub : Key Store (List (String × String)) where
  name := ""
  get := Store.published
  set v s := { s with published := v }

/-- Configuration of a worker's queue, batching and liveness detection. -/
structure Config where
  batchSize : Nat
  heartbeatInterval : Rust.Duration
  missedHeartbeats : Nat
  queue : String
  lockTasks : Bool
  emitEvents : Bool
  idempotencyTtl : Option Rust.Duration

namespace Config

/-- `Config::default` -/
def default : Config where
  batchSize := 10
  heartbeatInterval := .fromSecs 30 (by decide)
  missedHeartbeats := 10
  queue := "default"
  lockTasks := true
  emitEvents := true
  idempotencyTtl := none

/-- `Config::orphaned_duration`: the miss count is cast to `u32`, and the
multiplication panics (`none`) on overflow. -/
def orphanedDuration (cfg : Config) : Option Rust.Duration :=
  cfg.heartbeatInterval.mul (Rust.asU32 cfg.missedHeartbeats)

end Config

end ApalisRedis
