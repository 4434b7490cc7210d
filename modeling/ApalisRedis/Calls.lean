import ApalisRedis.Lua.FetchNext
import ApalisRedis.Lua.HandleResults
import ApalisRedis.Lua.Leases
import ApalisRedis.Lua.Vacuum
import ApalisRedis.Lua.Workers

/-!
# Calls of a queue, and runs of calls

A `Call` is one script that the persistence operations evaluate, at the keys of
its queue; `Op` adds the two vacuum scripts.  Every call is atomic, so whatever
several clients do together is one list of calls.  A call that raises leaves
the writes it made, and the run goes on from there.

Time passes for the server's key expiry by `wait`; every other instant that a
script sees is an argument of its call.
-/

namespace ApalisRedis

open Lua Redis Script

/-- One evaluated script, with the arguments that come after its keys. -/
inductive Call where
  | pushTasks (idempotencyTtl : Nat) (emitEvents : Bool) (batch : List PushRecord)
  | registerWorker (now : Nat) (worker : String) (threshold : Nat)
      (backendName service : String)
  | keepAlive (now : Nat) (worker : String)
  | fetchNext (now batchSize : Nat) (worker : String)
  | acquireLeases (worker : String) (now : Nat) (emitEvents : Bool) (taskIds : List String)
  | renewLeases (worker : String) (now : Nat) (emitEvents : Bool) (taskIds : List String)
  | handleResults (worker : String) (emitEvents : Bool) (batch : List AckRecord)
  | releaseLeases (worker : String) (emitEvents : Bool) (jobIds : List String)
  | reenqueueOrphaned (cutoff : Nat) (only : Option String)
  | wait (milliseconds : Nat)

/-- A call of the persistence operations, or one of the vacuum scripts. -/
inductive Op where
  | call (c : Call)
  | vacuum
  | vacuumBefore (seconds : Nat)

section Scripts

variable (rt : Runtime) (queue : String)

def pushTasksScript (idempotencyTtl : Nat) (emitEvents : Bool) (batch : List PushRecord) :
    Script Store (Nat × Nat) :=
  batchPush rt (Keys.jobDataHash queue) (Keys.activeJobsList queue) (Keys.signalList queue)
    (Keys.jobMetaHash queue) (Keys.scheduledJobsSet queue) (Keys.idempotencyKeySet queue)
    idempotencyTtl emitEvents batch

/-- The loop over the batch decides; after it only the signal is set. -/
theorem run_pushTasks
    (idempotencyTtl : Nat)
    (emitEvents : Bool)
    (batch : List PushRecord)
    (s : Store) :
    (pushTasksScript rt queue idempotencyTtl emitEvents batch).run s =
      match (batch.foldlM (pushTaskAt rt queue idempotencyTtl emitEvents) (0, 0)).run s with
      | (.ok counts, t) => (.ok counts, if 0 < counts.1 then t.wake else t)
      | (.error e, t) => (.error e, t) := by
  have hloop : pushTasksScript rt queue idempotencyTtl emitEvents batch = (do
      let counts ← batch.foldlM (pushTaskAt rt queue idempotencyTtl emitEvents) (0, 0)
      if 0 < counts.1 then
        setSignal (Keys.signalList queue)
      pure counts) := rfl
  rw [hloop, run_bind]
  rcases (batch.foldlM (pushTaskAt rt queue idempotencyTtl emitEvents) (0, 0)).run s with
    ⟨e | counts, t⟩
  · rfl
  · by_cases hpos : 0 < counts.1 <;> simp [hpos, run_map]

/-- The signal is set when something was enqueued. -/
def Store.signalled (s : Store) (enqueued : Nat) : Store :=
  if 0 < enqueued then s.wake else s

/-- What the script leaves and replies. -/
theorem run_pushTasks_records
    (ttl : Nat)
    (emitEvents : Bool)
    (batch : List PushRecord)
    (s : Store) :
    let accepted := s.acceptedRecords rt queue ttl emitEvents batch
    let outcome := (pushTasksScript rt queue ttl emitEvents batch).run s
    ((∀ r ∈ accepted, rt.Fits (2 * (pushMeta rt r).length)) ∧
      outcome = (.ok (tally accepted),
        (s.pushRecords rt queue ttl emitEvents batch).signalled (tally accepted).1)) ∨
    (¬∀ r ∈ accepted, rt.Fits (2 * (pushMeta rt r).length)) ∧
      ∃ message, outcome.1 = .error message := by
  intro accepted outcome
  have hscript : outcome = _ := run_pushTasks rt queue ttl emitEvents batch s
  rcases run_pushRecords rt queue ttl emitEvents batch (0, 0) s with
    ⟨hall, hok⟩ | ⟨hstuck, message, herror⟩
  · rw [hok] at hscript
    simp only [Nat.zero_add] at hscript
    exact .inl ⟨hall, hscript⟩
  · refine .inr ⟨hstuck, message, ?_⟩
    generalize (batch.foldlM (pushTaskAt rt queue ttl emitEvents) (0, 0)).run s = loop
      at hscript herror
    obtain ⟨reply, t⟩ := loop
    cases herror
    rw [hscript]

def registerWorkerScript (now : Nat) (worker : String) (threshold : Nat)
    (backendName service : String) : Script Store Unit :=
  registerWorker (Keys.workersSet queue) (Keys.workerMetadataKey queue worker) now worker
    threshold backendName service

def keepAliveScript (now : Nat) (worker : String) : Script Store Unit :=
  keepAlive (Keys.workersSet queue) now worker

def fetchNextScript (now batchSize : Nat) (worker : String) : Script Store FetchReply :=
  fetchNext rt (Keys.workersSet queue) (Keys.activeJobsList queue)
    (Keys.inflightSetFor queue worker) (Keys.jobDataHash queue) (Keys.signalList queue)
    (Keys.jobMetaHash queue) (Keys.scheduledJobsSet queue) now batchSize worker

def acquireLeasesScript (worker : String) (now : Nat) (emitEvents : Bool)
    (taskIds : List String) : Script Store Nat :=
  acquireLeases (Keys.inflightSetFor queue worker) (Keys.workersSet queue)
    (Keys.jobMetaHash queue) (Keys.activeJobsList queue) worker now emitEvents taskIds

/-- `renew_leases` of `task_lease.rs` passes three keys and no `KEYS[4]`. -/
def renewLeasesScript (worker : String) (now : Nat) (emitEvents : Bool)
    (taskIds : List String) : Script Store Nat :=
  renewLeases (Keys.inflightSetFor queue worker) (Keys.workersSet queue)
    (Keys.jobMetaHash queue) worker now emitEvents none taskIds

def handleResultsScript (worker : String) (emitEvents : Bool) (batch : List AckRecord) :
    Script Store Nat :=
  handleResults (Keys.inflightSetFor queue worker) (Keys.doneJobsSet queue)
    (Keys.deadJobsSet queue) (Keys.scheduledJobsSet queue) (Keys.jobMetaHash queue)
    emitEvents batch

def releaseLeasesScript (worker : String) (emitEvents : Bool) (jobIds : List String) :
    Script Store Nat :=
  releaseLeases rt (Keys.inflightSetFor queue worker) (Keys.jobMetaHash queue)
    (Keys.activeJobsList queue) (Keys.signalList queue) emitEvents jobIds

def reenqueueOrphanedScript (cutoff : Nat) (only : Option String) : Script Store Nat :=
  reenqueueOrphaned rt (Keys.workersSet queue) (Keys.activeJobsList queue)
    (Keys.signalList queue) (Keys.inflightJobsSet queue) cutoff only

def vacuumScript : Script Store Nat :=
  vacuum rt (Keys.jobDataHash queue) (Keys.jobMetaHash queue)

def vacuumBeforeScript (seconds : Nat) : Script Store Nat :=
  vacuumBefore rt (Keys.jobDataHash queue) (Keys.jobMetaHash queue) seconds

/-- A call, replying with the number of tasks it reports. -/
def Call.exec : Call → Script Store Nat
  | .pushTasks ttl emitEvents batch =>
      (fun counts => counts.1 + counts.2) <$> pushTasksScript rt queue ttl emitEvents batch
  | .registerWorker now worker threshold backendName service =>
      (fun _ => 1) <$> registerWorkerScript queue now worker threshold backendName service
  | .keepAlive now worker => (fun _ => 1) <$> keepAliveScript queue now worker
  | .fetchNext now batchSize worker =>
      (fun reply => reply.1.length) <$> fetchNextScript rt queue now batchSize worker
  | .acquireLeases worker now emitEvents taskIds =>
      acquireLeasesScript queue worker now emitEvents taskIds
  | .renewLeases worker now emitEvents taskIds =>
      renewLeasesScript queue worker now emitEvents taskIds
  | .handleResults worker emitEvents batch => handleResultsScript queue worker emitEvents batch
  | .releaseLeases worker emitEvents jobIds =>
      releaseLeasesScript rt queue worker emitEvents jobIds
  | .reenqueueOrphaned cutoff only => reenqueueOrphanedScript rt queue cutoff only
  | .wait milliseconds =>
      command (fun _ => 0) fun s => { s with clock := s.clock + milliseconds }

def Op.exec : Op → Script Store Nat
  | .call c => c.exec rt queue
  | .vacuum => vacuumScript rt queue
  | .vacuumBefore seconds => vacuumBeforeScript rt queue seconds

/-- The state after a run of calls, whatever each of them replied. -/
def run (calls : List Call) (s : Store) : Store :=
  calls.foldl (fun s c => ((c.exec rt queue).run s).2) s

/-- The state after a run that may also vacuum. -/
def runOps (ops : List Op) (s : Store) : Store :=
  ops.foldl (fun s op => ((op.exec rt queue).run s).2) s

theorem run_append
    (calls later : List Call)
    (s : Store) :
    run rt queue (calls ++ later) s = run rt queue later (run rt queue calls s) :=
  List.foldl_append

theorem runOps_append
    (ops later : List Op)
    (s : Store) :
    runOps rt queue (ops ++ later) s = runOps rt queue later (runOps rt queue ops s) :=
  List.foldl_append

theorem runOps_map_call
    (calls : List Call)
    (s : Store) :
    runOps rt queue (calls.map .call) s = run rt queue calls s := by
  rw [runOps, List.foldl_map]
  rfl

end Scripts

end ApalisRedis
