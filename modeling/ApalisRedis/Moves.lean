import ApalisRedis.Calls

/-!
# What a call can do to the queue

Every write that a script makes belongs to one of a dozen moves.  A move has
its guard and its effect written out, so an invariant of the queue is proved
once for the moves and holds for every call, also for one that raises midway.

`Powers` says what the callers of a run may do beyond that: which names they
may register, which records they may push and which outcomes they may record,
whether they fetch, whether they recover orphans, whether a push may fail after
storing the data (a failing `unpack`), and whether anybody vacuums.

**Results.**
* `Call.movesBy`, `Op.movesBy`: every call is a sequence of moves.
* `moves_run`, `moves_runOps`: so is every run.
-/

namespace ApalisRedis

open Lua Redis Script

/-- What the callers of a run may do. -/
structure Powers where
  register : String → Prop
  push : PushRecord → Prop
  deliver : Prop
  stash : Prop
  discard : Prop
  ack : AckRecord → Prop := fun _ => True
  recover : Prop := True

/-- The two stores differ at most in signals, messages, claims and registries. -/
structure Store.SameTasks (s t : Store) : Prop where
  jobData : t.jobData = s.jobData
  jobMeta : t.jobMeta = s.jobMeta
  activeJobs : t.activeJobs = s.activeJobs
  scheduledJobs : t.scheduledJobs = s.scheduledJobs
  inflightJobs : t.inflightJobs = s.inflightJobs
  doneJobs : t.doneJobs = s.doneJobs
  deadJobs : t.deadJobs = s.deadJobs
  workers : t.workers = s.workers

/-- One move, with its guard. -/
inductive Move (rt : Runtime) (may : Powers) : Store → Store → Prop
  | bookkeep {s t : Store} (hsame : s.SameTasks t) : Move rt may s t
  | stash {s : Store} (r : PushRecord) (hmay : may.stash) (hnew : r.taskId ∉ s.jobData) :
      Move rt may s (s.stash r)
  | submit {s : Store} (r : PushRecord) (hnew : r.taskId ∉ s.jobData) (hmay : may.push r) :
      Move rt may s (s.submit rt r)
  | promote {s : Store} (taskIds : List String) (hnd : taskIds.Nodup)
      (hids : ∀ id ∈ taskIds, id ∈ s.scheduledJobs) (hmay : may.deliver) :
      Move rt may s (s.promote taskIds)
  | deliver {s : Store} (worker : String) (taskIds : List String) (hworker : worker ∈ s.workers)
      (hids : taskIds <+: s.activeJobs) (hmay : may.deliver) :
      Move rt may s (s.deliver worker taskIds)
  | lock {s : Store} (worker : String) (now : Nat) (taskId : String)
      (hheld : taskId ∈ s.inflightJobs worker) : Move rt may s (s.lock worker now taskId)
  | renew {s : Store} (worker : String) (now : Nat) (taskId : String)
      (hheld : taskId ∈ s.inflightJobs worker) : Move rt may s (s.renew now taskId)
  | ack {s : Store} (worker : String) (r : AckRecord)
      (hheld : r.taskId ∈ s.inflightJobs worker) (hmay : may.ack r) :
      Move rt may s (s.ack worker r)
  | release {s : Store} (worker : String) (taskIds : List String) (hnd : taskIds.Nodup)
      (hheld : ∀ id ∈ taskIds, id ∈ s.inflightJobs worker) :
      Move rt may s (s.release worker taskIds)
  | recover {s : Store} (worker : String) (jobs : List String) (hnd : jobs.Nodup)
      (hjobs : ∀ id, id ∈ jobs ↔ id ∈ s.inflightJobs worker) (hmay : may.recover) :
      Move rt may s (s.recover worker jobs)
  | beat {s : Store} (worker : String) (now : Nat)
      (hworker : worker ∈ s.workers ∨ may.register worker) : Move rt may s (s.beat now worker)
  | discard {s : Store} (taskId : String) (hmay : may.discard) :
      Move rt may s (s.discard taskId)

/-- Several moves. -/
abbrev Moves (rt : Runtime) (may : Powers) : Store → Store → Prop :=
  Relation.ReflTransGen (Move rt may)

section Moves

variable {rt : Runtime} {may : Powers} (queue : String)

theorem SameTasks.say
    (s : Store)
    (emitEvents : Bool)
    (channel message : String) :
    s.SameTasks (s.say emitEvents channel message) := by
  constructor <;> rfl

theorem SameTasks.wake
    (s : Store) :
    s.SameTasks s.wake := by
  constructor <;> rfl

/-- A move, then bookkeeping. -/
theorem Move.then
    {s t u : Store}
    (h : Move rt may s t)
    (hsame : t.SameTasks u) :
    Moves rt may s u :=
  (Relation.ReflTransGen.single h).tail (.bookkeep hsame)

theorem pushTask_movesBy
    {r : PushRecord}
    (hstash : ¬rt.Fits (2 * (pushMeta rt r).length) → may.stash)
    (ttl : Nat)
    (emitEvents : Bool)
    (counts : Nat × Nat)
    (hpush : may.push r)
    (s : Store) :
    MovesBy (Move rt may) (pushTaskAt rt queue ttl emitEvents counts r) s := by
  have hclaim : Move rt may s (s.claimKey ttl r) := .bookkeep (by constructor <;> rfl)
  have hrun := run_pushTaskAt rt queue ttl emitEvents counts r s
  by_cases hnew : s.KeyFree r ∧ r.taskId ∉ s.jobData
  · rw [if_pos hnew] at hrun
    by_cases hfits : rt.Fits (2 * (pushMeta rt r).length)
    · rw [if_pos hfits] at hrun
      have hsubmit : Move rt may (s.claimKey ttl r) ((s.claimKey ttl r).submit rt r) :=
        .submit r hnew.2 hpush
      exact .of_run hrun ((Relation.ReflTransGen.single hclaim).trans
        (hsubmit.then (SameTasks.say ..)))
    · rw [if_neg hfits] at hrun
      have hput : Move rt may (s.claimKey ttl r) ((s.claimKey ttl r).stash r) :=
        .stash r (hstash hfits) hnew.2
      exact .of_run hrun ((Relation.ReflTransGen.single hclaim).tail hput)
  · rw [if_neg hnew] at hrun
    exact .of_run hrun (.single hclaim)

theorem setSignal_movesBy
    (s : Store) :
    MovesBy (Move rt may) (setSignal (Keys.signalList queue)) s :=
  .of_run (run_setSignal queue s) (.single (.bookkeep (SameTasks.wake s)))

/-- A batch is moves when the pushes that `unpack` fails in may be cut short. -/
theorem pushBatch_movesBy
    (hstash : ∀ r, may.push r → ¬rt.Fits (2 * (pushMeta rt r).length) → may.stash)
    (ttl : Nat)
    (emitEvents : Bool)
    (batch : List PushRecord)
    (hpush : ∀ r ∈ batch, may.push r)
    (counts : Nat × Nat)
    (s : Store) :
    MovesBy (Move rt may) (batch.foldlM (pushTaskAt rt queue ttl emitEvents) counts) s :=
  (MovesBy.foldlM (I := fun _ => True) batch (fun r hr counts s _ =>
    ⟨pushTask_movesBy queue (hstash r (hpush r hr)) ttl emitEvents counts (hpush r hr) s, trivial⟩)
    counts s trivial).1

theorem pushLoop_movesBy
    (hstash : ∀ n, ¬rt.Fits n → may.stash)
    (ttl : Nat)
    (emitEvents : Bool)
    (batch : List PushRecord)
    (hpush : ∀ r ∈ batch, may.push r)
    (counts : Nat × Nat)
    (s : Store) :
    MovesBy (Move rt may) (batch.foldlM (pushTaskAt rt queue ttl emitEvents) counts) s :=
  pushBatch_movesBy queue (fun _ _ hfits => hstash _ hfits) ttl emitEvents batch hpush counts s

theorem pushTasks_movesBy
    (hstash : ∀ r, may.push r → ¬rt.Fits (2 * (pushMeta rt r).length) → may.stash)
    (ttl : Nat)
    (emitEvents : Bool)
    (batch : List PushRecord)
    (hpush : ∀ r ∈ batch, may.push r)
    (s : Store) :
    MovesBy (Move rt may) (pushTasksScript rt queue ttl emitEvents batch) s := by
  have hloop := pushBatch_movesBy queue hstash ttl emitEvents batch hpush
  unfold pushTasksScript batchPush
  refine (hloop (0, 0) s).bind fun counts t _ => ?_
  split
  · exact (setSignal_movesBy queue t).bind fun _ _ _ => .pure _ _
  · exact .pure _ _

theorem registerWorker_movesBy
    (now : Nat)
    (worker : String)
    (threshold : Nat)
    (backendName service : String)
    (s : Store)
    (hmay : may.register worker) :
    MovesBy (Move rt may)
      (registerWorkerScript queue now worker threshold backendName service) s := by
  have hrun := run_registerWorker queue now worker threshold backendName service s
  by_cases hactive : s.StillActive now threshold worker
  · rw [if_pos hactive] at hrun
    exact .of_run hrun .refl
  · rw [if_neg hactive] at hrun
    have hbeat : Move rt may s (s.beat now worker) := .beat worker now (.inr hmay)
    exact .of_run hrun (hbeat.then (by constructor <;> rfl))

theorem keepAlive_movesBy
    (now : Nat)
    (worker : String)
    (s : Store) :
    MovesBy (Move rt may) (keepAliveScript queue now worker) s := by
  have hrun := run_keepAlive queue now worker s
  by_cases hworker : worker ∈ s.workers
  · rw [if_pos hworker] at hrun
    exact .of_run hrun (.single (.beat worker now (.inl hworker)))
  · rw [if_neg hworker] at hrun
    exact .of_run hrun .refl

theorem moves_promoted
    (hfetch : may.deliver)
    (now : Nat)
    (s : Store) :
    Moves rt may s (s.promoted now) := by
  unfold Store.promoted
  split
  · exact .refl
  · have hpromote : Move rt may s (s.promote (s.due now)) :=
      .promote _ (ZSet.nodup_rangeByScore _ _ _) (fun id hid => ZSet.mem_of_mem_rangeByScore hid)
        hfetch
    exact hpromote.then (SameTasks.wake _)

theorem workers_promoted
    (now : Nat)
    (s : Store) :
    (s.promoted now).workers = s.workers := by
  unfold Store.promoted
  split <;> rfl

theorem fetchNext_movesBy
    (hfetch : may.deliver)
    (now batchSize : Nat)
    (worker : String)
    (s : Store) :
    MovesBy (Move rt may) (fetchNextScript rt queue now batchSize worker) s := by
  rcases fetchNext_cases rt queue worker now batchSize s with
    ⟨-, message, hrun⟩ | ⟨-, -, hrun⟩ | ⟨⟨hworker, -⟩, -, hrun⟩
  · exact .of_run hrun .refl
  · exact .of_run hrun (moves_promoted hfetch now s)
  · have hdeliver : Move rt may (s.promoted now)
        ((s.promoted now).deliver worker ((s.promoted now).front batchSize)) :=
      .deliver worker _ (by rw [workers_promoted]; exact hworker) (slice_zero_isPrefix _ _) hfetch
    refine .of_run hrun ((moves_promoted hfetch now s).trans (hdeliver.then ?_))
    constructor <;> rfl

theorem checkHeld_movesBy
    (worker message : String)
    (taskIds : List String)
    (s : Store) :
    MovesBy (Move rt may)
      (taskIds.foldlM (fun _ id => checkHeld (Keys.inflightSetFor queue worker) message id) ())
      s := by
  have hrun := run_checkHeld_all queue worker message taskIds s
  cases hfind : taskIds.find? fun id => decide (id ∉ s.inflightJobs worker) with
  | none =>
      rw [hfind] at hrun
      exact .of_run hrun .refl
  | some id =>
      rw [hfind] at hrun
      exact .of_run hrun .refl

/-- After a validation that passed, every task is held and nothing has changed. -/
theorem held_of_checkHeld
    {worker message : String}
    {taskIds : List String}
    {s t : Store}
    (h : (taskIds.foldlM
      (fun _ id => checkHeld (Keys.inflightSetFor queue worker) message id) ()).run s =
        (.ok (), t)) :
    t = s ∧ ∀ id ∈ taskIds, id ∈ s.inflightJobs worker := by
  rw [run_checkHeld_all] at h
  cases hfind : taskIds.find? fun id => decide (id ∉ s.inflightJobs worker) with
  | none =>
      rw [hfind] at h
      cases h
      refine ⟨rfl, fun id hid => ?_⟩
      simpa using List.find?_eq_none.mp hfind id hid
  | some id =>
      rw [hfind] at h
      cases h

/-- What follows a validation runs from a state in which every task is held. -/
theorem validated_movesBy
    {β : Type}
    {body : Script Store β}
    {worker message : String}
    {taskIds : List String}
    {s : Store}
    (hbody : (∀ id ∈ taskIds, id ∈ s.inflightJobs worker) → MovesBy (Move rt may) body s) :
    MovesBy (Move rt may)
      (taskIds.foldlM (fun _ id => checkHeld (Keys.inflightSetFor queue worker) message id) () >>=
        fun _ => body)
      s := by
  refine (checkHeld_movesBy queue worker message taskIds s).bind fun _ t ht => ?_
  obtain ⟨rfl, hheld⟩ := held_of_checkHeld queue ht
  exact hbody hheld

theorem acquireLeases_movesBy
    (worker : String)
    (now : Nat)
    (emitEvents : Bool)
    (taskIds : List String)
    (s : Store) :
    MovesBy (Move rt may) (acquireLeasesScript queue worker now emitEvents taskIds) s := by
  have hloop := MovesBy.foldlM (R := Move rt may)
    (I := fun s => ∀ id ∈ taskIds, id ∈ s.inflightJobs worker)
    (f := fun (_ : Unit) id => lockTask (Keys.inflightSetFor queue worker)
      (Keys.jobMetaHash queue) (Keys.activeJobsList queue) worker now emitEvents id) taskIds
    (fun id hid _ s hheld => by
      have hrun := run_lockTask queue worker now emitEvents id s
      have hlock : Move rt may s (s.lock worker now id) := .lock worker now id (hheld id hid)
      refine ⟨.of_run hrun (hlock.then (SameTasks.say ..)), fun id' hid' => ?_⟩
      rw [hrun]
      simp [Store.lock, Store.say, hheld id' hid'])
  refine .query_bind ?_
  dsimp only
  split
  · exact .raise_bind _ _ _
  · split
    · exact .pure _ _
    · exact validated_movesBy queue fun hheld =>
        (hloop () s hheld).1.bind fun _ _ _ => .pure _ _

theorem renewLeases_movesBy
    (worker : String)
    (now : Nat)
    (emitEvents : Bool)
    (taskIds : List String)
    (s : Store) :
    MovesBy (Move rt may) (renewLeasesScript queue worker now emitEvents taskIds) s := by
  have hloop := MovesBy.foldlM (R := Move rt may)
    (I := fun s => ∀ id ∈ taskIds, id ∈ s.inflightJobs worker)
    (f := fun (_ : Unit) id => renewTask (Keys.jobMetaHash queue) worker now emitEvents none id)
    taskIds
    (fun id hid _ s hheld => by
      have hrun := run_renewTask queue worker now emitEvents id s
      refine ⟨.of_run hrun (.single (.renew worker now id (hheld id hid))), ?_⟩
      rw [hrun]
      exact hheld)
  refine .query_bind ?_
  dsimp only
  split
  · exact .raise_bind _ _ _
  · split
    · exact .pure _ _
    · exact validated_movesBy queue fun hheld =>
        (hloop () s hheld).1.bind fun _ _ _ => .pure _ _

theorem ackLoop_movesBy
    (worker : String)
    (emitEvents : Bool)
    (batch : List AckRecord)
    (hmay : ∀ r ∈ batch, may.ack r)
    (acked : Nat)
    (s : Store) :
    MovesBy (Move rt may) (batch.foldlM (ackTask (Keys.inflightSetFor queue worker)
      (Keys.doneJobsSet queue) (Keys.deadJobsSet queue) (Keys.scheduledJobsSet queue)
      (Keys.jobMetaHash queue) emitEvents) acked) s := by
  refine (MovesBy.foldlM (I := fun _ => True) batch (fun r hr acked s _ => ⟨?_, trivial⟩)
    acked s trivial).1
  have hrun := run_ackTask queue worker emitEvents acked r s
  by_cases hheld : r.taskId ∈ s.inflightJobs worker
  · rw [if_pos hheld] at hrun
    have hack : Move rt may s (s.ack worker r) := .ack worker r hheld (hmay r hr)
    exact .of_run hrun (hack.then (SameTasks.say ..))
  · rw [if_neg hheld] at hrun
    exact .of_run hrun .refl

theorem handleResults_movesBy
    (worker : String)
    (emitEvents : Bool)
    (batch : List AckRecord)
    (hmay : ∀ r ∈ batch, may.ack r)
    (s : Store) :
    MovesBy (Move rt may) (handleResultsScript queue worker emitEvents batch) s :=
  ackLoop_movesBy queue worker emitEvents batch hmay 0 s

theorem releaseTask_movesBy
    (worker : String)
    (emitEvents : Bool)
    (reenqueued : Nat)
    (jobId : String)
    (s : Store) :
    MovesBy (Move rt may) (releaseTask (Keys.inflightSetFor queue worker)
      (Keys.jobMetaHash queue) (Keys.activeJobsList queue) emitEvents reenqueued jobId) s := by
  have hrun := run_releaseTask queue worker emitEvents reenqueued jobId s
  by_cases hheld : jobId ∈ s.inflightJobs worker
  · rw [if_pos hheld] at hrun
    have hrelease : Move rt may s (s.release worker [jobId]) :=
      .release worker [jobId] (List.nodup_singleton _) (by simpa using hheld)
    exact .of_run hrun (hrelease.then (SameTasks.say ..))
  · rw [if_neg hheld] at hrun
    exact .of_run hrun .refl

theorem releaseAll_movesBy
    (worker : String)
    (emitEvents : Bool)
    (s : Store) :
    MovesBy (Move rt may) (releaseAll rt (Keys.inflightSetFor queue worker)
      (Keys.jobMetaHash queue) (Keys.activeJobsList queue) emitEvents) s := by
  have hrun := run_releaseAll rt queue worker emitEvents s
  by_cases hfits : rt.Fits (rt.members (s.inflightJobs worker)).length
  · rw [if_pos hfits] at hrun
    have hrelease : Move rt may s (s.release worker (rt.members (s.inflightJobs worker))) :=
      .release worker _ (rt.nodup_members _) fun id hid => rt.mem_members.mp hid
    refine .of_run hrun (hrelease.then ?_)
    constructor <;> rfl
  · rw [if_neg hfits] at hrun
    exact .of_run hrun .refl

theorem releaseLeases_movesBy
    (worker : String)
    (emitEvents : Bool)
    (jobIds : List String)
    (s : Store) :
    MovesBy (Move rt may) (releaseLeasesScript rt queue worker emitEvents jobIds) s := by
  have hsignal : ∀ (reenqueued : Nat) (t : Store), MovesBy (Move rt may) (do
      if 0 < reenqueued then
        setSignal (Keys.signalList queue)
      pure reenqueued) t := by
    intro reenqueued t
    dsimp only
    split
    · exact (setSignal_movesBy queue t).bind fun _ _ _ => .pure _ _
    · exact .pure _ _
  unfold releaseLeasesScript releaseLeases
  dsimp only
  split
  · have hloop := MovesBy.foldlM (R := Move rt may) (I := fun _ => True) jobIds
      (fun id _ n s _ => ⟨releaseTask_movesBy queue worker emitEvents n id s, trivial⟩) 0 s trivial
    exact hloop.1.bind fun reenqueued t _ => hsignal reenqueued t
  · exact (releaseAll_movesBy queue worker emitEvents s).bind
      fun reenqueued t _ => hsignal reenqueued t

theorem recoverWorker_movesBy
    (hmay : may.recover)
    (processed : Nat)
    (worker : String)
    (s : Store) :
    MovesBy (Move rt may) (recoverWorker rt (Keys.workersSet queue) (Keys.activeJobsList queue)
      (Keys.inflightJobsSet queue) processed worker) s := by
  have hrun := run_recoverWorker rt queue processed worker s
  by_cases hfits : rt.Fits (rt.members (s.inflightJobs worker)).length
  · rw [if_pos hfits] at hrun
    exact .of_run hrun
      (.single (.recover worker _ (rt.nodup_members _) (fun _ => rt.mem_members) hmay))
  · rw [if_neg hfits] at hrun
    exact .of_run hrun .refl

theorem reenqueueOrphaned_movesBy
    (hmay : may.recover)
    (cutoff : Nat)
    (only : Option String)
    (s : Store) :
    MovesBy (Move rt may) (reenqueueOrphanedScript rt queue cutoff only) s := by
  refine MovesBy.bind (.of_run (run_expiredWorkers queue cutoff only s) .refl)
    fun workers t _ => ?_
  refine MovesBy.bind (MovesBy.foldlM (I := fun _ => True) workers
    (fun w _ n s _ => ⟨recoverWorker_movesBy queue hmay n w s, trivial⟩) 0 t trivial).1
    fun processed u _ => ?_
  split
  · exact (setSignal_movesBy queue u).bind fun _ _ _ => .pure _ _
  · exact .pure _ _

theorem vacuum_movesBy
    (hmay : may.discard)
    (s : Store) :
    MovesBy (Move rt may) (vacuumScript rt queue) s := by
  refine .query_bind ?_
  refine (MovesBy.foldlM (I := fun _ => True) _ (fun id _ n s _ => ⟨?_, trivial⟩) 0 s trivial).1
  have hrun := run_vacuumTask queue n id s
  by_cases hterminal : s.Terminal id
  · rw [if_pos hterminal] at hrun
    exact .of_run hrun (.single (.discard id hmay))
  · rw [if_neg hterminal] at hrun
    exact .of_run hrun .refl

theorem vacuumBefore_movesBy
    (hmay : may.discard)
    (seconds : Nat)
    (s : Store) :
    MovesBy (Move rt may) (vacuumBeforeScript rt queue seconds) s := by
  refine .query_bind (.query_bind ?_)
  generalize s.clock = clock
  refine (MovesBy.foldlM (I := fun _ => True) _ (fun id _ n s _ => ⟨?_, trivial⟩) 0 s trivial).1
  have hrun := run_vacuumTaskBefore rt queue ((clock / 1000 : Nat) - (seconds : Int)) n id s
  unfold MovesBy
  rw [hrun]
  split
  · exact .single (.discard id hmay)
  · exact .refl

/-- The powers that a call uses. -/
def Call.Within (may : Powers) : Call → Prop
  | .pushTasks _ _ batch => ∀ r ∈ batch, may.push r
  | .registerWorker _ worker _ _ _ => may.register worker
  | .fetchNext _ _ _ => may.deliver
  | .handleResults _ _ batch => ∀ r ∈ batch, may.ack r
  | .reenqueueOrphaned _ _ => may.recover
  | _ => True

/-- The powers that a call of a run with vacuums uses. -/
def Op.Within (may : Powers) : Op → Prop
  | .call c => c.Within may
  | _ => may.discard

theorem Call.movesBy_within
    (hstash : ∀ r, may.push r → ¬rt.Fits (2 * (pushMeta rt r).length) → may.stash)
    (c : Call)
    (hc : c.Within may)
    (s : Store) :
    MovesBy (Move rt may) (c.exec rt queue) s := by
  cases c with
  | pushTasks ttl emitEvents batch =>
      exact (pushTasks_movesBy queue hstash ttl emitEvents batch hc s).map
  | registerWorker now worker threshold backendName service =>
      exact (registerWorker_movesBy queue now worker threshold backendName service s hc).map
  | keepAlive now worker => exact (keepAlive_movesBy queue now worker s).map
  | fetchNext now batchSize worker =>
      exact (fetchNext_movesBy queue hc now batchSize worker s).map
  | acquireLeases worker now emitEvents taskIds =>
      exact acquireLeases_movesBy queue worker now emitEvents taskIds s
  | renewLeases worker now emitEvents taskIds =>
      exact renewLeases_movesBy queue worker now emitEvents taskIds s
  | handleResults worker emitEvents batch =>
      exact handleResults_movesBy queue worker emitEvents batch hc s
  | releaseLeases worker emitEvents jobIds =>
      exact releaseLeases_movesBy queue worker emitEvents jobIds s
  | reenqueueOrphaned cutoff only => exact reenqueueOrphaned_movesBy queue hc cutoff only s
  | wait milliseconds =>
      exact .of_run (run_command _ _ s) (.single (.bookkeep (by constructor <;> rfl)))

theorem Call.movesBy
    (hstash : ∀ n, ¬rt.Fits n → may.stash)
    (c : Call)
    (hc : c.Within may)
    (s : Store) :
    MovesBy (Move rt may) (c.exec rt queue) s :=
  c.movesBy_within queue (fun _ _ hfits => hstash _ hfits) hc s

theorem Op.movesBy
    (hstash : ∀ n, ¬rt.Fits n → may.stash)
    (op : Op)
    (hop : op.Within may)
    (s : Store) :
    MovesBy (Move rt may) (op.exec rt queue) s := by
  cases op with
  | call c => exact c.movesBy queue hstash hop s
  | vacuum => exact vacuum_movesBy queue hop s
  | vacuumBefore seconds => exact vacuumBefore_movesBy queue hop seconds s

/-- **Every run is a sequence of moves.** -/
theorem moves_runOps
    (hstash : ∀ n, ¬rt.Fits n → may.stash) :
    ∀ (ops : List Op), (∀ op ∈ ops, op.Within may) →
      ∀ (s : Store), Moves rt may s (runOps rt queue ops s)
  | [], _, _ => .refl
  | op :: ops, hops, s => by
      have hfirst : Moves rt may s ((op.exec rt queue).run s).2 :=
        op.movesBy queue hstash (hops op (by simp)) s
      exact hfirst.trans (moves_runOps hstash ops
        (fun op' hop' => hops op' (List.mem_cons_of_mem _ hop')) _)

theorem moves_run
    (hstash : ∀ n, ¬rt.Fits n → may.stash)
    (calls : List Call)
    (hcalls : ∀ c ∈ calls, c.Within may)
    (s : Store) :
    Moves rt may s (run rt queue calls s) := by
  rw [← runOps_map_call]
  refine moves_runOps queue hstash _ (fun op hop => ?_) s
  obtain ⟨c, hc, rfl⟩ := List.mem_map.mp hop
  exact hcalls c hc

end Moves

end ApalisRedis
