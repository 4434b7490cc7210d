import ApalisRedis.Events
import ApalisRedis.Polling
import ApalisRedis.Shutdown
import ApalisRedis.Systems.Interleaving

/-!
# The operations, one `await` at a time

An operation of `RedisPersistence` reads the client's clock and sends commands
to the server.  Each command is atomic, but the operations of several clients
interleave between their commands; a caller may drop an operation at any
`await`, and a connection may lose a command or its reply.

`Async` is the type of the operations as such programs, with the errors of the
source; a panic is an error here as well.  Only `wait_for` catches errors and not
panics, so that those of `check_status` are kept apart.

**Results.**
* `implements_register`, `implements_heartbeat`, `implements_handleEvents`, ...:
  an operation that nobody interferes with is the script-level operation.
* `Yields.bind`, `yields_mapM`: the rules for operations among others.
-/

namespace ApalisRedis

open Lua Redis Script Rust Systems

/-- What an operation asks for: the client's clock, or an answer of the server. -/
inductive Instruction where
  | timestamp
  | evalsha (c : Call)
  | fetch (now batchSize : Nat) (worker : String)
  | hget (taskId field : String)
  | zrem (member : String)
  | vacuum
  | vacuumBefore (seconds : Nat)

/-- The reply to an instruction.  A command may fail. -/
abbrev Instruction.Reply : Instruction → Type
  | .timestamp => Nat
  | .evalsha _ => Except String Nat
  | .fetch _ _ _ => Except String FetchReply
  | .hget _ _ => Except String (Option String)
  | .zrem _ => Except String Unit
  | .vacuum | .vacuumBefore _ => Except String Nat

/-- An asynchronous function with a `Result`. -/
abbrev Async : Type → Type :=
  ExceptT String (Program Instruction Instruction.Reply)

namespace Async

/-- `current_timestamp` -/
def timestamp : Async Nat :=
  ExceptT.lift (Program.request Instruction.timestamp)

def evalsha (c : Call) : Async Nat :=
  ExceptT.mk (Program.request (Instruction.evalsha c))

def fetch (now batchSize : Nat) (worker : String) : Async FetchReply :=
  ExceptT.mk (Program.request (Instruction.fetch now batchSize worker))

def hget (taskId field : String) : Async (Option String) :=
  ExceptT.mk (Program.request (Instruction.hget taskId field))

def zrem (member : String) : Async Unit :=
  ExceptT.mk (Program.request (Instruction.zrem member))

/-- A step on no state. -/
def fallible {α : Type} (x : Except String α) : Async α :=
  ExceptT.mk (pure x)

/-- The caller goes on with the error. -/
def catching {α : Type} (x : Async α) : Async (Except String α) :=
  ExceptT.mk (Except.ok <$> x.run)

section Operations

variable (checks : Bool) (cfg : Config)

/-- `now - dead_for` on `u64`. -/
def expiredBefore (now deadFor : Nat) : Async Nat :=
  match u64Sub checks now deadFor with
  | some cutoff => pure cutoff
  | none => fallible (.error "attempt to subtract with overflow")

/-- `Config::orphaned_duration` -/
def orphanedAfter : Async Duration :=
  match cfg.orphanedDuration with
  | some d => pure d
  | none => fallible (.error "overflow when multiplying duration by scalar")

/-- `queries::reenqueue_orphaned` -/
def reenqueueOrphaned (filter : WorkerFilter) : Async Nat := do
  let now ← timestamp
  match filter with
  | .only worker => do
      let cutoff ← expiredBefore checks now cfg.heartbeatInterval.asSecs
      evalsha (.reenqueueOrphaned cutoff (some worker))
  | _ => do
      let deadFor ← orphanedAfter cfg
      let cutoff ← expiredBefore checks now deadFor.asSecs
      evalsha (.reenqueueOrphaned cutoff none)

/-- `queries::register_worker` -/
def registerWorker (worker service : String) : Async Unit := do
  let now ← timestamp
  let threshold ← orphanedAfter cfg
  let _ ← evalsha (.registerWorker now worker threshold.asSecs "RedisStorage" service)

/-- `queries::keep_alive` -/
def keepAlive (worker : String) : Async Unit := do
  let now ← timestamp
  let _ ← evalsha (.keepAlive now worker)

/-- `queries::renew_leases` -/
def renewLeases (worker : String) (taskCount : Nat) (tasks : Option (List String)) :
    Async Nat :=
  if taskCount = 0 then
    pure 0
  else do
    let now ← timestamp
    match tasks with
    | none => fallible (.error "WorkerOutOfSync")
    | some taskIds => evalsha (.renewLeases worker now cfg.emitEvents taskIds)

/-- `queries::acquire_leases` -/
def acquireLeases (worker : String) (taskIds : List String) : Async Nat :=
  if taskIds.isEmpty then
    pure 0
  else do
    let now ← timestamp
    evalsha (.acquireLeases worker now cfg.emitEvents taskIds)

variable {core : Core} {Outcome : Type} (encode : Outcome → Except String String)

/-- `queries::handle_results` -/
def handleResults (worker : String) (payloads : List (TaskResult core Outcome)) : Async Unit :=
  if payloads.isEmpty then
    pure ()
  else do
    let timestamp ← timestamp
    let records ← fallible (payloads.mapM (ackRecord encode timestamp))
    let _ ← evalsha (.handleResults worker cfg.emitEvents records)

/-- `queries::release_leases`, which unwraps the id of every task. -/
def releaseLeases (worker : String) (tasks : List (RedisTask core)) : Async Nat :=
  match tasks.mapM RedisTask.taskId with
  | some taskIds =>
      evalsha (.releaseLeases worker cfg.emitEvents (taskIds.map core.printTaskId))
  | none => fallible (.error "called Option::unwrap() on a None value")

/-- `queries::fetch_next` -/
def fetchNext (core : Core) (worker : String) : Async (List (RedisTask core)) := do
  let now ← timestamp
  let reply ← fetch now cfg.batchSize worker
  let tasks ← fallible (deserializeWithMeta core (FetchReply.values reply))
  pure (tasks.map CompactTask.intoFullCompact)

/-- `queries::push_tasks`, which reads the clock for every task; `requests` come
with the ids that are generated for those without one. -/
def pushTasks (requests : List (RedisTask core × core.TaskId)) : Async Nat := do
  let subs ← requests.mapM fun request => do
    let current ← timestamp
    pure (⟨request.1, current, request.2⟩ : Submission core)
  evalsha (.submit ((cfg.idempotencyTtl.map Duration.asSecs).getD 0) cfg.emitEvents subs)

/-- The body of the loop of `check_status`, with its three commands.  The inner
error is the panic of the `unwrap`. -/
def checkTask (decode : String → Except String Outcome) (taskId : core.TaskId) :
    Async (Option (Except String (TaskResult core Outcome))) := do
  let status ← hget (core.printTaskId taskId) "status"
  match status with
  | none => pure none
  | some statusStr => do
      let status ← fallible (core.parseStatus statusStr)
      let serializedResult ← hget (core.printTaskId taskId) "result"
      let attempt ← hget (core.printTaskId taskId) "attempts"
      let attempt ← fallible (attempt.mapM (parseUnsigned 64))
      match serializedResult with
      | none => pure none
      | some data => do
          let result ← fallible (decode data)
          pure (some ((core.parseTaskId (core.printTaskId taskId)).map fun taskId =>
            ⟨taskId, attempt.getD 1, status, result⟩))

/-- `check_status`, whose inner error is a panic. -/
def checkStatus (decode : String → Except String Outcome) :
    List core.TaskId → Async (Except String (List (TaskResult core Outcome)))
  | [] => pure (.ok [])
  | taskId :: taskIds => do
      let row ← checkTask decode taskId
      match row with
      | none => checkStatus decode taskIds
      | some (.error panic) => pure (.error panic)
      | some (.ok result) => do
          let results ← checkStatus decode taskIds
          pure (results.map (result :: ·))

/-- One poll of the stream that `wait_for` unfolds. -/
def waitFor (decode : String → Except String Outcome) (order : HashOrder)
    (pendingIds : Finset String) :
    Async (Option (List (Except String (TaskResult core Outcome)) × Finset String)) := do
  if pendingIds = ∅ then
    pure none
  else
    let idsToCheck ← fallible ((order.iter pendingIds).mapM core.parseTaskId)
    let checked ← catching (checkStatus decode idsToCheck)
    match checked with
    | .ok (.ok results) =>
        if results.isEmpty then
          -- Here the source sleeps, which the time that passes anyway includes.
          pure (some ([], pendingIds))
        else
          pure (some (results.map .ok, remaining pendingIds results))
    | .ok (.error panic) => fallible (.error panic)
    | .error e => pure (some ([.error e], pendingIds))

/-- The items of the stream, polled once for each iteration order until it is over. -/
def stream (decode : String → Except String Outcome) :
    List HashOrder → Finset String → Async (List (Except String (TaskResult core Outcome)))
  | [], _ => pure []
  | order :: orders, pendingIds => do
      let polled : Option (List (Except String (TaskResult core Outcome)) × Finset String) ←
        waitFor decode order pendingIds
      match polled with
      | none => pure []
      | some (items, pendingIds) => do
          let later ← stream decode orders pendingIds
          pure (items ++ later)

/-- `RedisPersistence::register` -/
def register (worker service : String) : Async Unit := do
  let _ ← reenqueueOrphaned checks cfg (.only worker)
  registerWorker cfg worker service

/-- `RedisPersistence::heartbeat` -/
def heartbeat (worker : String) (taskCount : Nat) (tasks : Option (List String)) :
    Async Unit := do
  keepAlive worker
  if cfg.lockTasks then
    let _ ← renewLeases cfg worker taskCount tasks
  let _ ← reenqueueOrphaned checks cfg (.allExcept worker)

/-- `RedisPersistence::handle_events` -/
def handleEvents (worker : String) (events : List (TaskEvent core Outcome)) : Async Unit :=
  if (lockIds events).isEmpty && (ackPayloads events).isEmpty then
    pure ()
  else do
    if !(lockIds events).isEmpty then
      let _ ← acquireLeases cfg worker (lockIds events)
    if !(ackPayloads events).isEmpty then
      handleResults cfg encode worker (ackPayloads events)

/-- `RedisPersistence::reenqueue_abandoned` -/
def reenqueueAbandoned (worker : String) (tasks : List (RedisTask core)) :
    Async (Except ReenqueueMismatch Nat) := do
  let count ← releaseLeases cfg worker tasks
  if cfg.lockTasks ∧ count ≠ tasks.length then
    pure (.error ⟨tasks.length, count⟩)
  else
    pure (.ok count)

/-- The cleanup future of `RedisStorage::poll_close`. -/
def cleanup (worker : String) : Async Unit :=
  zrem (Keys.inflightSetFor cfg.queue worker).name

/-- `Vacuum::vacuum` -/
def vacuum : Async Nat :=
  ExceptT.mk (Program.request Instruction.vacuum)

/-- `Vacuum::vacuum_before` -/
def vacuumBefore (duration : Duration) : Async Nat :=
  ExceptT.mk (Program.request (Instruction.vacuumBefore duration.asSecs))

end Operations

section Alone

variable (rt : Runtime) (queue : String)

/-- A server that nobody else talks to, and a clock with the given readings. -/
def serve : (i : Instruction) → Store × (Nat → Nat) → i.Reply × Store × (Nat → Nat)
  | .timestamp, (s, clock) => (clock 0, s, fun n => clock (n + 1))
  | .evalsha c, (s, clock) => (((c.exec rt queue).run s).1, ((c.exec rt queue).run s).2, clock)
  | .fetch now batchSize worker, (s, clock) =>
      let outcome := (fetchNextScript rt queue now batchSize worker).run s
      (outcome.1, outcome.2, clock)
  | .hget taskId field, (s, clock) =>
      let outcome := (Redis.hget (Keys.jobMetaHash queue taskId) field).run s
      (outcome.1, outcome.2, clock)
  | .zrem member, (s, clock) =>
      let outcome := (Redis.zrem (Keys.workersSet queue) [member]).run s
      (outcome.1, outcome.2, clock)
  | .vacuum, (s, clock) =>
      let outcome := (vacuumScript rt queue).run s
      (outcome.1, outcome.2, clock)
  | .vacuumBefore seconds, (s, clock) =>
      let outcome := (vacuumBeforeScript rt queue seconds).run s
      (outcome.1, outcome.2, clock)

/-- The operation alone returns and leaves what the script does, and has read the
clock at most `n` times, and `n` times when it succeeds. -/
def Implements {α : Type} (n : Nat) (x : Async α) (y : (Nat → Nat) → Script Store α) : Prop :=
  ∀ s clock, ∃ m, x.run.alone (serve rt queue) (s, clock) =
    (((y clock).run s).1, ((y clock).run s).2, fun k => clock (k + m)) ∧ m ≤ n ∧
      ∀ a, ((y clock).run s).1 = .ok a → m = n

variable {rt queue} {α β : Type}

theorem implements_pure
    (a : α) :
    Implements rt queue 0 (pure a) fun _ => pure a :=
  fun _ _ => ⟨0, rfl, Nat.le_refl 0, fun _ _ => rfl⟩

theorem implements_fallible
    (x : Except String α) :
    Implements rt queue 0 (fallible x) fun _ => Script.fallible x :=
  fun _ _ => ⟨0, rfl, Nat.le_refl 0, fun _ _ => rfl⟩

theorem implements_timestamp :
    Implements rt queue 1 timestamp fun clock => pure (clock 0) :=
  fun _ _ => ⟨1, rfl, Nat.le_refl 1, fun _ _ => rfl⟩

theorem implements_evalsha
    (c : Call) :
    Implements rt queue 0 (evalsha c) fun _ => c.exec rt queue :=
  fun _ _ => ⟨0, rfl, Nat.le_refl 0, fun _ _ => rfl⟩

theorem implements_fetch
    (now batchSize : Nat)
    (worker : String) :
    Implements rt queue 0 (fetch now batchSize worker) fun _ =>
      fetchNextScript rt queue now batchSize worker :=
  fun _ _ => ⟨0, rfl, Nat.le_refl 0, fun _ _ => rfl⟩

theorem implements_hget
    (taskId field : String) :
    Implements rt queue 0 (hget taskId field) fun _ =>
      Redis.hget (Keys.jobMetaHash queue taskId) field :=
  fun _ _ => ⟨0, rfl, Nat.le_refl 0, fun _ _ => rfl⟩

theorem implements_zrem
    (member : String) :
    Implements rt queue 0 (zrem member) fun _ =>
      Redis.zrem (Keys.workersSet queue) [member] :=
  fun _ _ => ⟨0, rfl, Nat.le_refl 0, fun _ _ => rfl⟩

/-- One operation after another, which goes on with the later readings. -/
theorem Implements.bind
    {n m : Nat}
    {x : Async α}
    {y : (Nat → Nat) → Script Store α}
    {f : α → Async β}
    {g : α → (Nat → Nat) → Script Store β}
    (hx : Implements rt queue n x y)
    (hf : ∀ a, Implements rt queue m (f a) (g a)) :
    Implements rt queue (n + m) (x >>= f) fun clock =>
      y clock >>= fun a => g a fun k => clock (k + n) := by
  intro s clock
  obtain ⟨k, hrun, hle, hcount⟩ := hx s clock
  rw [ExceptT.run_bind, Program.alone_bind, hrun, Script.run_bind]
  rcases houtcome : (y clock).run s with ⟨e | a, t⟩
  · exact ⟨k, rfl, by omega, by simp⟩
  · obtain rfl := hcount a (congrArg Prod.fst houtcome)
    obtain ⟨k', hrun', hle', hcount'⟩ := hf a t fun i => clock (i + k)
    refine ⟨k + k', ?_, by omega, fun b hb => by rw [hcount' b hb]⟩
    refine hrun'.trans (Prod.ext rfl (Prod.ext rfl ?_))
    funext i
    exact congrArg clock (by omega)

/-- The first operation does not read the clock. -/
theorem Implements.andThen
    {m : Nat}
    {x : Async α}
    {y : (Nat → Nat) → Script Store α}
    {f : α → Async β}
    {g : α → (Nat → Nat) → Script Store β}
    (hx : Implements rt queue 0 x y)
    (hf : ∀ a, Implements rt queue m (f a) (g a)) :
    Implements rt queue m (x >>= f) fun clock => y clock >>= fun a => g a clock := by
  have hbind := hx.bind hf
  rw [Nat.zero_add] at hbind
  exact hbind

/-- The script written differently. -/
theorem Implements.congr
    {n : Nat}
    {x : Async α}
    {y y' : (Nat → Nat) → Script Store α}
    (hx : Implements rt queue n x y)
    (hsame : ∀ clock, y clock = y' clock) :
    Implements rt queue n x y' := by
  rwa [show y' = y from funext fun clock => (hsame clock).symm]

variable (rt) (checks : Bool) (cfg : Config)

theorem implements_expiredBefore
    (now deadFor : Nat) :
    Implements rt queue 0 (expiredBefore checks now deadFor) fun _ =>
      ApalisRedis.expiredBefore checks now deadFor := by
  unfold expiredBefore ApalisRedis.expiredBefore
  cases u64Sub checks now deadFor with
  | some cutoff => exact implements_pure cutoff
  | none => exact implements_fallible _

theorem implements_orphanedAfter :
    Implements rt queue 0 (orphanedAfter cfg) fun _ => ApalisRedis.orphanedAfter cfg := by
  unfold orphanedAfter ApalisRedis.orphanedAfter
  cases cfg.orphanedDuration with
  | some d => exact implements_pure d
  | none => exact implements_fallible _

theorem implements_reenqueueOrphaned
    (filter : WorkerFilter) :
    Implements rt cfg.queue 1 (reenqueueOrphaned checks cfg filter) fun clock =>
      reenqueue rt checks cfg (clock 0) filter := by
  refine (implements_timestamp.bind (m := 0) (g := fun now _ =>
    reenqueue rt checks cfg now filter) fun now => ?_).congr fun _ => rfl
  cases filter with
  | only worker =>
      exact (implements_expiredBefore rt checks now _).bind fun cutoff => implements_evalsha _
  | allExcept worker =>
      exact (implements_orphanedAfter rt cfg).bind fun deadFor =>
        (implements_expiredBefore rt checks now _).bind fun cutoff => implements_evalsha _

/-- A script that replies with nothing, as a call whose reply is thrown away. -/
theorem exec_discard
    (f : Unit → Nat)
    (x : Script Store Unit) :
    (do let _ ← f <$> x) = x := by
  rw [bind_map_left, bind_pure_unit]

theorem implements_registerWorker
    (worker service : String) :
    Implements rt cfg.queue 1 (registerWorker cfg worker service) fun clock =>
      registerName cfg (clock 0) worker service := by
  refine (implements_timestamp.bind (m := 0) (g := fun now _ =>
    registerName cfg now worker service) fun now => ?_).congr fun _ => rfl
  refine ((implements_orphanedAfter rt cfg).bind fun threshold =>
    (implements_evalsha _).bind fun _ => implements_pure ()).congr fun clock => ?_
  exact bind_congr fun threshold => exec_discard _ _

theorem implements_keepAlive
    (worker : String) :
    Implements rt queue 1 (keepAlive worker) fun clock =>
      keepAliveScript queue (clock 0) worker := by
  refine (implements_timestamp.bind (m := 0) (g := fun now _ =>
    keepAliveScript queue now worker) fun now => ?_).congr fun _ => rfl
  refine ((implements_evalsha _).bind fun _ => implements_pure ()).congr fun clock => ?_
  exact exec_discard _ _

/-- `register` reads the clock for its sweep and again for the registration. -/
theorem implements_register
    (worker service : String) :
    Implements rt cfg.queue 2 (register checks cfg worker service) fun clock =>
      ApalisRedis.register rt checks cfg (clock 0) (clock 1) worker service :=
  (implements_reenqueueOrphaned rt checks cfg (.only worker)).bind fun _ =>
    implements_registerWorker rt cfg worker service

/-- How often a renewal reads the clock. -/
def renewReadings (taskCount : Nat) : Nat :=
  if taskCount = 0 then 0 else 1

theorem implements_renewLeases
    (worker : String)
    (taskCount : Nat)
    (tasks : Option (List String)) :
    Implements rt cfg.queue (renewReadings taskCount) (renewLeases cfg worker taskCount tasks)
      fun clock => renewTracked cfg (clock 0) worker taskCount tasks := by
  unfold renewLeases renewTracked renewReadings
  by_cases hcount : taskCount = 0
  · simp only [hcount, if_true]
    exact implements_pure 0
  · simp only [hcount, if_false]
    cases tasks with
    | none =>
        exact (implements_timestamp.bind fun now => implements_fallible _).congr fun _ => rfl
    | some taskIds =>
        exact (implements_timestamp.bind fun now => implements_evalsha _).congr fun _ => rfl

/-- `heartbeat` reads the clock for the heartbeat, for the renewal if there is
one, and for the sweep. -/
theorem implements_heartbeat
    (worker : String)
    (taskCount : Nat)
    (tasks : Option (List String)) :
    let renewals := if cfg.lockTasks then renewReadings taskCount else 0
    Implements rt cfg.queue (1 + (renewals + 1)) (heartbeat checks cfg worker taskCount tasks)
      fun clock => ApalisRedis.heartbeat rt checks cfg (clock 0) (clock 1) (clock (1 + renewals))
        worker taskCount tasks := by
  intro renewals
  have hsweep := (implements_reenqueueOrphaned rt checks cfg (.allExcept worker)).bind
    fun _ => implements_pure ()
  unfold heartbeat ApalisRedis.heartbeat
  cases hlock : cfg.lockTasks with
  | false =>
      have hnone : renewals = 0 := if_neg (by simp [hlock])
      rw [hnone]
      exact ((implements_keepAlive rt worker).bind fun _ => hsweep).congr fun _ => rfl
  | true =>
      have hsome : renewals = renewReadings taskCount := if_pos hlock
      rw [hsome]
      refine ((implements_keepAlive rt worker).bind fun _ =>
        (implements_renewLeases rt cfg worker taskCount tasks).bind fun _ => hsweep).congr
          fun clock => ?_
      simp only [Nat.zero_add, Nat.add_comm 1, if_true]

theorem implements_acquireLeases
    (worker : String)
    (taskIds : List String)
    (hsome : taskIds ≠ []) :
    Implements rt cfg.queue 1 (acquireLeases cfg worker taskIds) fun clock =>
      Queries.acquireLeases cfg worker (clock 0) taskIds := by
  have hnonempty : taskIds.isEmpty = false := by simpa using hsome
  unfold acquireLeases Queries.acquireLeases
  simp only [hnonempty, Bool.false_eq_true, if_false]
  exact (implements_timestamp.bind fun now => implements_evalsha _).congr fun _ => rfl

variable {core : Core} {Outcome : Type} (encode : Outcome → Except String String)

theorem implements_handleResults
    (worker : String)
    (payloads : List (TaskResult core Outcome))
    (hsome : payloads ≠ []) :
    Implements rt cfg.queue 1 (handleResults cfg encode worker payloads) fun clock =>
      Queries.handleResults encode cfg worker (clock 0) payloads := by
  have hnonempty : payloads.isEmpty = false := by simpa using hsome
  unfold handleResults Queries.handleResults
  simp only [hnonempty, Bool.false_eq_true, if_false]
  exact (implements_timestamp.bind fun timestamp => (implements_fallible _).bind fun records =>
    (implements_evalsha _).bind fun _ => implements_pure ()).congr fun _ => rfl

/-- `handle_events` reads the clock for the leases, if there are any, and for the outcomes. -/
theorem implements_handleEvents
    (worker : String)
    (events : List (TaskEvent core Outcome)) :
    let locking := if (lockIds events).isEmpty then 0 else 1
    let recording := if (ackPayloads events).isEmpty then 0 else 1
    Implements rt cfg.queue (locking + recording) (handleEvents cfg encode worker events)
      fun clock => ApalisRedis.handleEvents encode cfg worker (clock 0) (clock locking) events := by
  intro locking recording
  unfold handleEvents ApalisRedis.handleEvents
  rcases eq_or_ne (lockIds events) [] with hlocks | hlocks <;>
    rcases eq_or_ne (ackPayloads events) [] with hacks | hacks
  · simpa [locking, recording, hlocks, hacks] using implements_pure ()
  · have hrecord := implements_handleResults rt cfg encode worker _ hacks
    simpa [locking, recording, hlocks, hacks] using hrecord
  · have hlock := (implements_acquireLeases rt cfg worker _ hlocks).bind fun _ =>
      implements_pure ()
    simpa [locking, recording, hlocks, hacks] using hlock
  · have hboth := (implements_acquireLeases rt cfg worker _ hlocks).bind fun _ =>
      implements_handleResults rt cfg encode worker _ hacks
    simpa [locking, recording, hlocks, hacks] using hboth

theorem implements_releaseLeases
    (worker : String)
    (tasks : List (RedisTask core)) :
    Implements rt cfg.queue 0 (releaseLeases cfg worker tasks) fun _ =>
      Queries.releaseLeases rt cfg worker tasks := by
  unfold releaseLeases Queries.releaseLeases
  cases tasks.mapM RedisTask.taskId with
  | some taskIds => exact implements_evalsha _
  | none => exact implements_fallible _

theorem implements_reenqueueAbandoned
    (worker : String)
    (tasks : List (RedisTask core)) :
    Implements rt cfg.queue 0 (reenqueueAbandoned cfg worker tasks) fun _ =>
      ApalisRedis.reenqueueAbandoned rt cfg worker tasks := by
  unfold reenqueueAbandoned ApalisRedis.reenqueueAbandoned
  refine (implements_releaseLeases rt cfg worker tasks).andThen fun count => ?_
  by_cases hmismatch : cfg.lockTasks ∧ count ≠ tasks.length
  · simp only [if_pos hmismatch]
    exact implements_pure _
  · simp only [if_neg hmismatch]
    exact implements_pure _

theorem implements_fetchNext
    (worker : String) :
    Implements rt cfg.queue 1 (fetchNext cfg core worker) fun clock =>
      fetchTasks core rt cfg (clock 0) worker := by
  refine (implements_timestamp.bind fun now => (implements_fetch _ _ _).andThen fun reply =>
    (implements_fallible _).andThen fun tasks => implements_pure _).congr fun clock => ?_
  refine bind_congr (x := fetchNextScript rt cfg.queue (clock 0) cfg.batchSize worker)
    fun reply => ?_
  cases deserializeWithMeta core (FetchReply.values reply) <;> rfl

/-- The batch that `push_tasks` builds, with a reading of the clock for each task. -/
def submissions (requests : List (RedisTask core × core.TaskId)) (clock : Nat → Nat) :
    List (Submission core) :=
  requests.mapIdx fun k request => ⟨request.1, clock k, request.2⟩

theorem implements_submissions
    (requests : List (RedisTask core × core.TaskId)) :
    Implements rt queue requests.length (requests.mapM fun request => do
        let current ← timestamp
        pure (⟨request.1, current, request.2⟩ : Submission core))
      fun clock => pure (submissions requests clock) := by
  induction requests with
  | nil => exact implements_pure []
  | cons request requests ih =>
      rw [List.mapM_cons, List.length_cons, Nat.add_comm]
      refine ((implements_timestamp.bind fun current => implements_pure _).bind fun sub =>
        ih.bind fun subs' => implements_pure (sub :: subs')).congr fun clock => ?_
      simp only [submissions, List.mapIdx_cons]
      rfl

theorem implements_pushTasks
    (requests : List (RedisTask core × core.TaskId)) :
    Implements rt queue requests.length (pushTasks cfg requests) fun clock =>
      (Call.submit ((cfg.idempotencyTtl.map Duration.asSecs).getD 0) cfg.emitEvents
        (submissions requests clock)).exec rt queue :=
  ((implements_submissions rt requests).bind fun _ => implements_evalsha _).congr
    fun _ => rfl

variable (decode : String → Except String Outcome)

theorem implements_checkTask
    (taskId : core.TaskId) :
    Implements rt queue 0 (checkTask decode taskId) fun _ =>
      ApalisRedis.checkTask core decode queue taskId := by
  unfold checkTask ApalisRedis.checkTask
  refine (implements_hget _ _).andThen fun status => ?_
  cases status with
  | none => exact implements_pure none
  | some statusStr =>
      refine (implements_fallible _).andThen fun status => (implements_hget _ _).andThen
        fun serializedResult => (implements_hget _ _).andThen fun attempt =>
          (implements_fallible _).andThen fun attempt => ?_
      cases serializedResult with
      | none => exact implements_pure none
      | some data => exact (implements_fallible _).andThen fun result => implements_pure _

theorem implements_checkStatus
    (taskIds : List core.TaskId) :
    Implements rt queue 0 (checkStatus decode taskIds) fun _ =>
      ApalisRedis.checkStatus core decode queue taskIds := by
  induction taskIds with
  | nil => exact implements_pure (Except.ok [])
  | cons taskId taskIds ih =>
      rw [checkStatus, ApalisRedis.checkStatus]
      refine (implements_checkTask rt decode taskId).andThen fun row => ?_
      rcases row with _ | (panic | result)
      · exact ih
      · exact implements_pure _
      · exact ih.andThen fun results => implements_pure _

theorem implements_catching
    {x : Async α}
    {y : Script Store α}
    (hx : Implements rt queue 0 x fun _ => y) :
    Implements rt queue 0 (catching x) fun _ => Script.catching y := by
  intro s clock
  obtain ⟨k, hrun, hle, -⟩ := hx s clock
  obtain rfl := Nat.le_zero.mp hle
  refine ⟨0, ?_, Nat.le_refl 0, fun _ _ => rfl⟩
  change (Except.ok <$> x.run : Program _ _ _).alone (serve rt queue) (s, clock) = _
  rw [map_eq_pure_bind, Program.alone_bind, hrun]
  rfl

theorem implements_waitFor
    (order : HashOrder)
    (pendingIds : Finset String) :
    Implements rt queue 0 (waitFor decode order pendingIds) fun _ =>
      ApalisRedis.waitFor core decode queue order pendingIds := by
  unfold waitFor ApalisRedis.waitFor
  split
  · exact implements_pure none
  · refine (implements_fallible _).andThen fun ids =>
      (implements_catching rt (implements_checkStatus rt decode ids)).andThen fun checked => ?_
    rcases checked with e | (panic | results)
    · exact implements_pure _
    · exact implements_fallible _
    · dsimp only
      split <;> exact implements_pure _

theorem implements_cleanup
    (worker : String) :
    Implements rt cfg.queue 0 (cleanup cfg worker) fun _ => ApalisRedis.cleanup cfg worker :=
  implements_zrem _

theorem implements_vacuum :
    Implements rt queue 0 vacuum fun _ => vacuumScript rt queue :=
  fun _ _ => ⟨0, rfl, Nat.le_refl 0, fun _ _ => rfl⟩

theorem implements_vacuumBefore
    (duration : Duration) :
    Implements rt queue 0 (vacuumBefore duration) fun _ =>
      vacuumBeforeScript rt queue duration.asSecs :=
  fun _ _ => ⟨0, rfl, Nat.le_refl 0, fun _ _ => rfl⟩

end Alone

section Interference

universe u

variable {σ : Type u} {acts : (i : Instruction) → σ → i.Reply → σ → Prop}
variable {R : σ → σ → Prop} {P : Instruction → σ → Prop} {w : σ} {α β γ : Type}

variable (acts R P) in
/-- Whatever the others do within `R`, the operation performs only instructions
that `P` admits, and `Q` holds when it succeeds. -/
def Yields (Q : α → σ → Prop) (x : Async α) (w : σ) : Prop :=
  x.run.Meets acts R P (fun reply w' => ∀ a, reply = .ok a → Q a w') w

theorem yields_pure
    {Q : α → σ → Prop}
    {a : α}
    (hQ : ∀ t, R w t → Q a t) :
    Yields acts R P Q (pure a) w :=
  fun t ht b hb => by
    cases hb
    exact hQ t ht

theorem yields_fallible
    {Q : α → σ → Prop}
    {x : Except String α}
    (hQ : ∀ a, x = .ok a → ∀ t, R w t → Q a t) :
    Yields acts R P Q (fallible x) w :=
  fun t ht a ha => hQ a ha t ht

theorem yields_timestamp
    {Q : Nat → σ → Prop}
    (hP : ∀ t, R w t → P .timestamp t)
    (hQ : ∀ t now u u', R w t → acts .timestamp t now u → R u u' → Q now u') :
    Yields acts R P Q timestamp w :=
  fun t ht => ⟨hP t ht, fun now u hu u' hu' a ha => by
    cases ha
    exact hQ t now u u' ht hu hu'⟩

theorem yields_evalsha
    {Q : Nat → σ → Prop}
    {c : Call}
    (hP : ∀ t, R w t → P (.evalsha c) t)
    (hQ : ∀ t n u u', R w t → acts (.evalsha c) t (.ok n) u → R u u' → Q n u') :
    Yields acts R P Q (evalsha c) w :=
  Program.meets_request hP fun t _ u u' ht hu hu' a ha => hQ t a u u' ht (ha ▸ hu) hu'

theorem yields_fetch
    {Q : FetchReply → σ → Prop}
    {now batchSize : Nat}
    {worker : String}
    (hP : ∀ t, R w t → P (.fetch now batchSize worker) t)
    (hQ : ∀ t a u u', R w t → acts (.fetch now batchSize worker) t (.ok a) u → R u u' → Q a u') :
    Yields acts R P Q (fetch now batchSize worker) w :=
  Program.meets_request hP fun t _ u u' ht hu hu' a ha => hQ t a u u' ht (ha ▸ hu) hu'

theorem yields_hget
    {Q : Option String → σ → Prop}
    {taskId field : String}
    (hP : ∀ t, R w t → P (.hget taskId field) t)
    (hQ : ∀ t a u u', R w t → acts (.hget taskId field) t (.ok a) u → R u u' → Q a u') :
    Yields acts R P Q (hget taskId field) w :=
  Program.meets_request hP fun t _ u u' ht hu hu' a ha => hQ t a u u' ht (ha ▸ hu) hu'

theorem yields_zrem
    {Q : Unit → σ → Prop}
    {member : String}
    (hP : ∀ t, R w t → P (.zrem member) t)
    (hQ : ∀ t a u u', R w t → acts (.zrem member) t (.ok a) u → R u u' → Q a u') :
    Yields acts R P Q (zrem member) w :=
  Program.meets_request hP fun t _ u u' ht hu hu' a ha => hQ t a u u' ht (ha ▸ hu) hu'

/-- One operation after another: what follows an error returns it. -/
theorem Yields.bind
    (hrefl : ∀ w, R w w)
    {Q : α → σ → Prop}
    {Q' : β → σ → Prop}
    {x : Async α}
    {f : α → Async β}
    (hx : Yields acts R P Q x w)
    (hf : ∀ a w', Q a w' → Yields acts R P Q' (f a) w') :
    Yields acts R P Q' (x >>= f) w := by
  unfold Yields
  rw [ExceptT.run_bind]
  refine Program.Meets.bind hrefl hx fun reply w' hw' => ?_
  cases reply with
  | error e => exact fun t ht a ha => by cases ha
  | ok a => exact hf a w' (hw' a rfl)

/-- A traversal keeps what each of its operations keeps, and collects what they return. -/
theorem yields_mapM
    (hrefl : ∀ w, R w w)
    {I : σ → Prop}
    {V : γ → β → Prop}
    {f : γ → Async β}
    (hstable : ∀ w t, R w t → I w → I t)
    {xs : List γ}
    (hf : ∀ x ∈ xs, ∀ w, I w → Yields acts R P (fun b w' => I w' ∧ V x b) (f x) w)
    (hw : I w) :
    Yields acts R P (fun bs w' => I w' ∧ List.Forall₂ V xs bs) (xs.mapM f) w := by
  induction xs generalizing w with
  | nil => exact yields_pure fun t ht => ⟨hstable w t ht hw, .nil⟩
  | cons x xs ih =>
      rw [List.mapM_cons]
      refine (hf x List.mem_cons_self w hw).bind hrefl fun b w' ⟨hw', hb⟩ => ?_
      refine (ih (fun y hy => hf y (List.mem_cons_of_mem _ hy)) hw').bind hrefl
        fun bs w'' ⟨hw'', hbs⟩ => ?_
      exact yields_pure fun t ht => ⟨hstable w'' t ht hw'', .cons hb hbs⟩

/-- A check keeps what the check of each task keeps, and collects the rows, unless
one of them panics. -/
theorem yields_checkTasks
    {core : Core}
    {Outcome : Type}
    {decode : String → Except String Outcome}
    (hrefl : ∀ w, R w w)
    {I : σ → Prop}
    {V : core.TaskId → Option (Except String (TaskResult core Outcome)) → Prop}
    (hstable : ∀ w t, R w t → I w → I t)
    {taskIds : List core.TaskId}
    (hrow : ∀ taskId ∈ taskIds, ∀ w, I w → Yields acts R P
      (fun row w' => I w' ∧ V taskId row) (checkTask decode taskId) w)
    (hw : I w) :
    Yields acts R P (fun checked w' => I w' ∧
        (∀ results, checked = .ok results → ∃ rows, results = rows.filterMap id ∧
          List.Forall₂ (fun taskId row => V taskId (row.map .ok)) taskIds rows) ∧
        ∀ panic, checked = .error panic → ∃ taskId ∈ taskIds, V taskId (some (.error panic)))
      (checkStatus decode taskIds) w := by
  induction taskIds generalizing w with
  | nil =>
      refine yields_pure fun t ht => ⟨hstable w t ht hw, fun results hresults => ?_,
        fun panic hpanic => (by cases hpanic)⟩
      exact ⟨[], (Except.ok.inj hresults).symm, .nil⟩
  | cons taskId taskIds ih =>
      have hlater := fun w hw => @ih w
        (fun other hother => hrow other (List.mem_cons_of_mem _ hother)) hw
      rw [checkStatus]
      refine (hrow taskId List.mem_cons_self w hw).bind hrefl fun row w' ⟨hw', hV⟩ => ?_
      rcases row with _ | (panic | result)
      · refine (hlater w' hw').imp fun reply w'' hreply checked hchecked => ?_
        obtain ⟨hw'', hresults, hpanics⟩ := hreply checked hchecked
        refine ⟨hw'', fun results hok => ?_, fun panic hpanic => ?_⟩
        · obtain ⟨rows, rfl, hall⟩ := hresults results hok
          exact ⟨none :: rows, rfl, .cons hV hall⟩
        · obtain ⟨other, hother, hV'⟩ := hpanics panic hpanic
          exact ⟨other, List.mem_cons_of_mem _ hother, hV'⟩
      · refine yields_pure fun t ht => ⟨hstable w' t ht hw', fun results hok => (by cases hok),
          fun panic' hpanic => ?_⟩
        cases hpanic
        exact ⟨taskId, List.mem_cons_self, hV⟩
      · refine (hlater w' hw').bind hrefl fun checked w'' ⟨hw'', hresults, hpanics⟩ => ?_
        refine yields_pure fun t ht => ⟨hstable w'' t ht hw'', fun results hok => ?_,
          fun panic hpanic => ?_⟩
        · cases checked with
          | error panic => cases hok
          | ok rest =>
              cases hok
              obtain ⟨rows, rfl, hall⟩ := hresults rest rfl
              exact ⟨some result :: rows, rfl, .cons hV hall⟩
        · cases checked with
          | ok rest => cases hpanic
          | error panic' =>
              cases hpanic
              obtain ⟨other, hother, hV'⟩ := hpanics panic rfl
              exact ⟨other, List.mem_cons_of_mem _ hother, hV'⟩

variable (acts R P) in
/-- Whatever the others do within `R`, the operation does not fail. -/
def Returns (Q : α → σ → Prop) (x : Async α) (w : σ) : Prop :=
  x.run.Meets acts R P (fun reply w' => ∃ a, reply = .ok a ∧ Q a w') w

theorem Returns.yields
    {Q : α → σ → Prop}
    {x : Async α}
    (hx : Returns acts R P Q x w) :
    Yields acts R P Q x w :=
  Program.Meets.imp (fun reply w' ⟨a, hreply, ha⟩ b hb => by
    obtain rfl := Except.ok.inj (hreply.symm.trans hb)
    exact ha) hx

theorem returns_pure
    {Q : α → σ → Prop}
    {a : α}
    (hQ : ∀ t, R w t → Q a t) :
    Returns acts R P Q (pure a) w :=
  fun t ht => ⟨a, rfl, hQ t ht⟩

theorem returns_catching
    {Q : Except String α → σ → Prop}
    {x : Async α}
    (hrefl : ∀ w, R w w)
    (hstable : ∀ reply w t, R w t → Q reply w → Q reply t)
    (hx : x.run.Meets acts R P Q w) :
    Returns acts R P Q (catching x) w :=
  Program.Meets.bind hrefl hx fun reply w' hreply t ht => ⟨reply, rfl, hstable reply w' t ht hreply⟩

theorem Returns.bind
    (hrefl : ∀ w, R w w)
    {Q : α → σ → Prop}
    {Q' : β → σ → Prop}
    {x : Async α}
    {f : α → Async β}
    (hx : Returns acts R P Q x w)
    (hf : ∀ a w', Q a w' → Returns acts R P Q' (f a) w') :
    Returns acts R P Q' (x >>= f) w := by
  unfold Returns
  rw [ExceptT.run_bind]
  refine Program.Meets.bind hrefl hx fun reply w' ⟨a, hreply, ha⟩ => ?_
  rw [hreply]
  exact hf a w' ha

end Interference

end Async

end ApalisRedis
