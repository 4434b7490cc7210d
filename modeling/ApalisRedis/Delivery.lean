import ApalisRedis.Decode
import ApalisRedis.Lifecycle

/-!
# Pushing and fetching tasks

`push_tasks` flattens tasks into the arguments of `batch_push.lua`, and
`fetch_next` decodes the reply of `fetch_next.lua`, after the script has already
moved the tasks.

**Results.**
* `fetchTasks_cases`: what a fetch returns and leaves.
* `strandsNothing_iff`: the fetches that strand no task.
-/

namespace ApalisRedis

open Lua Redis Script

/-- One iteration of the loop of `push_tasks`: the request, the clock read for
it, and the id generated for it. -/
structure Submission (core : Core) where
  request : RedisTask core
  current : Nat
  ulid : core.TaskId

namespace Submission

variable {core : Core} (sub : Submission core)

/-- The id under which the task is pushed. -/
def taskId : core.TaskId :=
  sub.request.taskId.getD sub.ulid

/-- The arguments that `push_tasks` passes for one task. -/
def record : PushRecord where
  taskId := core.printTaskId sub.taskId
  taskData := sub.request.args
  attempts := Rust.asU32 sub.request.attempt
  maxAttempts := sub.request.maxAttempts.getD 25
  metadata := sub.request.metadata
  scheduleTime :=
    if sub.current < sub.request.runAt.getD 0 then sub.request.runAt.getD 0 else sub.current
  idempotencyKey := sub.request.idempotencyKey.getD ""

end Submission

/-- `queries::push_tasks`, with the time to live and the event flag of its configuration. -/
def Call.submit {core : Core} (ttl : Nat) (emitEvents : Bool) (subs : List (Submission core)) :
    Call :=
  .pushTasks ttl emitEvents (subs.map Submission.record)

/-- Clients push what `push_tasks` builds, and do whatever else they like. -/
def clients (core : Core) : Powers where
  register _ := True
  push r := ∃ sub : Submission core, sub.record = r
  deliver := True
  stash := True
  discard := True

theorem Call.within_submit
    {core : Core}
    (ttl : Nat)
    (emitEvents : Bool)
    (subs : List (Submission core)) :
    (Call.submit ttl emitEvents subs).Within (clients core) := by
  intro r hr
  obtain ⟨sub, -, hsub⟩ := List.mem_map.mp hr
  exact ⟨sub, hsub⟩

/-- A push between what other clients do. -/
theorem within_aroundSubmit
    {core : Core}
    (before later : List Op)
    (hbefore : ∀ op ∈ before, op.Within (clients core))
    (hlater : ∀ op ∈ later, op.Within (clients core))
    (ttl : Nat)
    (emitEvents : Bool)
    (subs : List (Submission core)) :
    ∀ op ∈ before ++ [.call (.submit ttl emitEvents subs)] ++ later, op.Within (clients core) := by
  intro op hop
  rcases List.mem_append.mp hop with hop | hop
  · rcases List.mem_append.mp hop with hop | hop
    · exact hbefore op hop
    · rw [List.mem_singleton.mp hop]
      exact Call.within_submit ttl emitEvents subs
  · exact hlater op hop

section Queries

variable (core : Core) (rt : Runtime) (cfg : Config)

/-- `queries::fetch_next`: the script runs first, and its reply is decoded. -/
def fetchTasks (now : Nat) (worker : String) : Script Store (List (RedisTask core)) := do
  let reply ← fetchNextScript rt cfg.queue now cfg.batchSize worker
  match deserializeWithMeta core (FetchReply.values reply) with
  | .ok tasks => pure (tasks.map CompactTask.intoFullCompact)
  | .error message => raise message

/-- The tasks that the next fetch hands out, unless it raises. -/
def Store.nextIds (s : Store) (cfg : Config) (now : Nat) : List String :=
  (s.promoted now).front cfg.batchSize

/-- What a fetch that does not raise leaves. -/
def Store.fetched (s : Store) (cfg : Config) (now : Nat) (worker : String) : Store :=
  ((s.promoted now).deliver worker (s.nextIds cfg now)).quiet
    (decide ((s.nextIds cfg now).length < cfg.batchSize))

variable (now : Nat) (worker : String) (s : Store)

theorem taskAt_promoted
    (id : String) :
    (s.promoted now).taskAt core id = s.taskAt core id := by
  unfold Store.promoted
  split <;> rfl

/-- **What a fetch returns and leaves**: it is refused before any write, gets
stuck after promoting, or hands out its tasks, decoded or not. -/
theorem fetchTasks_cases :
    let outcome := (fetchTasks core rt cfg now worker).run s
    (¬(worker ∈ s.workers ∧ rt.Fits (s.due now).length) ∧
        ∃ message, outcome = (.error message, s)) ∨
      ((worker ∈ s.workers ∧ rt.Fits (s.due now).length) ∧
        ¬rt.Fits (s.nextIds cfg now).length ∧
        outcome = (.error "too many results to unpack", s.promoted now)) ∨
      ((worker ∈ s.workers ∧ rt.Fits (s.due now).length) ∧
        rt.Fits (s.nextIds cfg now).length ∧
        outcome = (((s.nextIds cfg now).mapM (s.taskAt core)).map fun tasks =>
          tasks.map CompactTask.intoFullCompact, s.fetched cfg now worker)) := by
  intro outcome
  have hdecode := deserialize_reply core rt (s.promoted now) (s.nextIds cfg now)
  have htask : (s.promoted now).taskAt core = s.taskAt core :=
    funext fun id => taskAt_promoted core now s id
  rw [htask] at hdecode
  rcases fetchNext_cases rt cfg.queue worker now cfg.batchSize s with
    ⟨hrefused, message, hrun⟩ | ⟨hready, hids, hrun⟩ | ⟨hready, hids, hrun⟩
  · exact .inl ⟨hrefused, message, run_bind_error hrun _⟩
  · exact .inr (.inl ⟨hready, hids, run_bind_error hrun _⟩)
  · refine .inr (.inr ⟨hready, hids, (run_bind_ok hrun _).trans ?_⟩)
    change (match deserializeWithMeta core (FetchReply.values
        ((s.promoted now).reply rt (s.nextIds cfg now))) with
      | .ok tasks => (pure (tasks.map CompactTask.intoFullCompact) : Script Store _)
      | .error message => raise message).run (s.fetched cfg now worker) = _
    rw [hdecode]
    cases (s.nextIds cfg now).mapM (s.taskAt core) <;> rfl

/-- Decoding the reply changes nothing. -/
theorem fetchTasks_snd :
    ((fetchTasks core rt cfg now worker).run s).2 =
      ((fetchNextScript rt cfg.queue now cfg.batchSize worker).run s).2 := by
  unfold fetchTasks
  rcases hrun : (fetchNextScript rt cfg.queue now cfg.batchSize worker).run s with ⟨e | reply, t⟩
  · rw [run_bind_error hrun]
  · rw [run_bind_ok hrun]
    cases deserializeWithMeta core (FetchReply.values reply) <;> rfl

/-- A fetch that returns tasks returns those it put in flight, and one that
fails has moved nothing. -/
def StrandsNothing : Prop :=
  let outcome := (fetchTasks core rt cfg now worker).run s
  (∀ tasks, outcome.1 = .ok tasks →
    outcome.2.inflightJobs worker \ s.inflightJobs worker =
      (tasks.filterMap fun task => task.taskId.map core.printTaskId).toFinset) ∧
  (∀ message, outcome.1 = .error message →
    outcome.2.activeJobs = s.activeJobs ∧ outcome.2.scheduledJobs = s.scheduledJobs ∧
      outcome.2.inflightJobs worker = s.inflightJobs worker)

/-- The texts that the ids are read back as. -/
def rereadIds (ids : List String) : Finset String :=
  (ids.filterMap fun id => (core.reread id).toOption).toFinset

/-- The script is refused before it writes anything; or it gets stuck without
having promoted anything; or every task it hands out can be decoded, and their
ids are read back as those of them that are not in flight with the worker already. -/
def FetchSafe : Prop :=
  worker ∈ s.workers ∧ rt.Fits (s.due now).length →
    if rt.Fits (s.nextIds cfg now).length then
      (∀ id ∈ s.nextIds cfg now, s.WellFormed core id) ∧
        rereadIds core (s.nextIds cfg now) =
          (s.nextIds cfg now).toFinset \ s.inflightJobs worker
    else
      s.due now = []

theorem scheduled_promoted_ne
    (hdue : s.due now ≠ []) :
    (s.promoted now).scheduledJobs ≠ s.scheduledJobs := by
  obtain ⟨id, hid⟩ := List.exists_mem_of_ne_nil _ hdue
  intro hsame
  have hmem : id ∈ (s.promoted now).scheduledJobs := by
    rw [hsame]
    exact ZSet.mem_of_mem_rangeByScore hid
  rw [Store.promoted, if_neg hdue] at hmem
  exact (Hash.mem_eraseAll.mp hmem).1 hid

theorem inflight_fetched :
    (s.fetched cfg now worker).inflightJobs worker =
      s.inflightJobs worker ∪ (s.nextIds cfg now).toFinset := by
  simp [Store.fetched, Store.quiet, Store.deliver, inflightJobs_promoted]

/-- A fetch of some tasks shortens the active list or the scheduled set. -/
theorem fetched_moves
    (hids : s.nextIds cfg now ≠ []) :
    ¬((s.fetched cfg now worker).activeJobs = s.activeJobs ∧
      (s.fetched cfg now worker).scheduledJobs = s.scheduledJobs) := by
  rintro ⟨hactive, hscheduled⟩
  by_cases hdue : s.due now = []
  · have hpromoted : s.promoted now = s := by
      rw [Store.promoted, if_pos hdue]
    have hisPrefix : s.nextIds cfg now <+: s.activeJobs := by
      rw [Store.nextIds, hpromoted]
      exact slice_zero_isPrefix _ _
    have hlen := hisPrefix.length_le
    have hpos := List.length_pos_iff.mpr hids
    have hdrop : (s.activeJobs.drop (s.nextIds cfg now).length).length =
        s.activeJobs.length := by
      have hlength := congrArg List.length hactive
      rwa [Store.fetched, hpromoted] at hlength
    rw [List.length_drop] at hdrop
    omega
  · exact scheduled_promoted_ne now s hdue hscheduled

variable {core s} in
theorem reread_of_taskAt
    {id : String}
    {task : CompactTask core}
    (htask : s.taskAt core id = .ok task) :
    core.reread id = .ok (core.printTaskId task.taskId) := by
  obtain ⟨data, taskId, attempts, maxAttempts, status, -, hid, -, -, -, rfl⟩ :=
    taskAt_eq_ok.mp htask
  exact Core.reread_of_parse hid

variable {core s} in
/-- The ids of the decoded tasks are the ids that were read, each read back. -/
theorem ids_of_decoded
    {ids : List String}
    {tasks : List (CompactTask core)}
    (hdecoded : ids.map (s.taskAt core) = tasks.map .ok) :
    (tasks.map CompactTask.intoFullCompact).filterMap
        (fun task => task.taskId.map core.printTaskId) =
      ids.filterMap fun id => (core.reread id).toOption := by
  induction ids generalizing tasks with
  | nil =>
      rw [List.map_eq_nil_iff.mp hdecoded.symm]
      rfl
  | cons id ids ih =>
      cases tasks with
      | nil => cases hdecoded
      | cons task tasks =>
          obtain ⟨htask, hrest⟩ := List.cons.inj hdecoded
          have hhead : (core.reread id).toOption = some (core.printTaskId task.taskId) := by
            rw [reread_of_taskAt htask]
            rfl
          have htail := ih hrest
          rw [List.filterMap_cons, hhead, ← htail]
          rfl

theorem newlyInflight_fetched :
    (s.fetched cfg now worker).inflightJobs worker \ s.inflightJobs worker =
      (s.nextIds cfg now).toFinset \ s.inflightJobs worker := by
  rw [inflight_fetched, Finset.union_sdiff_left]

/-- Of a fetch that hands out its tasks. -/
theorem strandsNothing_of_served
    (hrun : (fetchTasks core rt cfg now worker).run s =
      (((s.nextIds cfg now).mapM (s.taskAt core)).map fun tasks =>
        tasks.map CompactTask.intoFullCompact, s.fetched cfg now worker)) :
    StrandsNothing core rt cfg now worker s ↔
      (∀ id ∈ s.nextIds cfg now, s.WellFormed core id) ∧
        rereadIds core (s.nextIds cfg now) =
          (s.nextIds cfg now).toFinset \ s.inflightJobs worker := by
  unfold StrandsNothing
  rw [hrun]
  cases hdecoded : (s.nextIds cfg now).mapM (s.taskAt core) with
  | ok tasks =>
      have hwell : ∀ id ∈ s.nextIds cfg now, s.WellFormed core id := fun id hid =>
        (exists_taskAt core s).mp (exists_mapM_eq_ok.mp ⟨tasks, hdecoded⟩ id hid)
      have hreturned := ids_of_decoded (mapM_eq_ok.mp hdecoded)
      constructor
      · rintro ⟨hok, -⟩
        have hnew := hok _ rfl
        rw [hreturned, newlyInflight_fetched] at hnew
        exact ⟨hwell, hnew.symm⟩
      · rintro ⟨-, hids⟩
        refine ⟨fun returned hok => ?_, fun message herror => by cases herror⟩
        cases hok
        rw [hreturned, newlyInflight_fetched]
        exact hids.symm
  | error message =>
      have hne : s.nextIds cfg now ≠ [] := by
        intro hnil
        rw [hnil] at hdecoded
        cases hdecoded
      constructor
      · rintro ⟨-, herror⟩
        obtain ⟨hactive, hscheduled, -⟩ := herror message rfl
        exact absurd ⟨hactive, hscheduled⟩ (fetched_moves cfg now worker s hne)
      · rintro ⟨hwell, -⟩
        obtain ⟨tasks, htasks⟩ := exists_mapM_eq_ok.mpr fun id hid =>
          (exists_taskAt core s).mpr (hwell id hid)
        rw [hdecoded] at htasks
        cases htasks

variable {core} in
theorem filterMap_reread
    {ids : List String}
    (hback : ∀ id ∈ ids, core.ReadsBack id) :
    ids.filterMap (fun id => (core.reread id).toOption) = ids :=
  (List.filterMap_congr fun id hid => by rw [hback id hid]; rfl).trans List.filterMap_some

variable {core} in
/-- Where every id is read back as it is, the condition on the ids is that none
of them is in flight with the worker already. -/
theorem rereadIds_eq_sdiff_iff
    {ids : List String}
    (hback : ∀ id ∈ ids, core.ReadsBack id)
    (inflight : Finset String) :
    rereadIds core ids = ids.toFinset \ inflight ↔ ∀ id ∈ ids, id ∉ inflight := by
  rw [rereadIds, filterMap_reread hback, eq_comm, Finset.sdiff_eq_self_iff_disjoint,
    Finset.disjoint_left]
  simp only [List.mem_toFinset]

/-- What is still to be done was pushed under a printed id. -/
theorem printed_runOps
    (queue : String)
    (ops : List Op)
    (hops : ∀ op ∈ ops, op.Within (clients core)) :
    ∀ id, (runOps rt queue ops Store.empty).Live id →
      ∃ taskId, core.printTaskId taskId = id := by
  have hmoves : Moves rt (clients core) Store.empty (runOps rt queue ops Store.empty) :=
    moves_runOps queue (fun _ _ => trivial) ops hops _
  refine Systems.preserved
    (I := fun s => ∀ id, Store.Live s id → ∃ taskId, core.printTaskId taskId = id)
    (fun s t hmove hs id hid => ?_) hmoves fun id hid => absurd hid (Store.not_live_empty id)
  rcases hmove.live hid with hold | ⟨r, ⟨sub, rfl⟩, -, rfl, -⟩
  · exact hs id hold
  · exact ⟨sub.taskId, rfl⟩

theorem live_of_mem_nextIds
    {id : String}
    (hid : id ∈ s.nextIds cfg now) :
    s.Live id := by
  have hactive : id ∈ (s.promoted now).activeJobs := (slice_zero_isPrefix _ _).subset hid
  unfold Store.promoted at hactive
  split at hactive
  · exact .inl hactive
  · rcases List.mem_append.mp hactive with hactive | hdue
    · exact .inl hactive
    · exact .inr (.inl (ZSet.mem_of_mem_rangeByScore hdue))

/-- Where ids parse as they are printed, what a fetch takes is read back as it is. -/
theorem readsBack_nextIds
    (hcodec : core.ParsesPrinted)
    (ops : List Op)
    (hops : ∀ op ∈ ops, op.Within (clients core)) :
    ∀ id ∈ (runOps rt cfg.queue ops Store.empty).nextIds cfg now, core.ReadsBack id := by
  intro id hid
  obtain ⟨taskId, rfl⟩ :=
    printed_runOps core rt cfg.queue ops hops id (live_of_mem_nextIds cfg now _ hid)
  exact hcodec.readsBack taskId

end Queries

/-- The statuses of `apalis_core`. -/
inductive TaskStatus where
  | pending
  | queued
  | running
  | done
  | failed
  | killed

/-- Task ids that are plain texts, and the statuses under their names. -/
def Core.text : Core where
  TaskId := String
  printTaskId id := id
  parseTaskId text := .ok text
  Status := TaskStatus
  printStatus
    | .pending => "Pending"
    | .queued => "Queued"
    | .running => "Running"
    | .done => "Done"
    | .failed => "Failed"
    | .killed => "Killed"
  parseStatus
    | "Pending" => .ok .pending
    | "Queued" => .ok .queued
    | "Running" => .ok .running
    | "Done" => .ok .done
    | "Failed" => .ok .failed
    | "Killed" => .ok .killed
    | _ => .error "Unknown state"
  parse_printStatus status := by
    cases status <;> rfl
  pending := .pending
  print_pending := rfl

theorem Core.text_parsesPrinted :
    Core.text.ParsesPrinted :=
  fun _ => rfl

/-- A push of a task with the given id and metadata, at the instant 11. -/
def plainPush (id : String) (metadata : Hash String) : Submission Core.text where
  request := ⟨⟨#[1]⟩, some id, TaskStatus.pending, metadata, none, none, 0, none, none, none⟩
  current := 11
  ulid := "01"

/-- A worker registers. -/
def registerW : Call :=
  .registerWorker 10 "w" 300 "RedisStorage" ""

/-- A worker registers, and a batch is pushed. -/
def registerThenPush (subs : List (Submission Core.text)) : List Op :=
  [.call registerW, .call (.submit 0 true subs)]

theorem within_registerThenPush
    (subs : List (Submission Core.text)) :
    ∀ op ∈ registerThenPush subs, op.Within (clients Core.text) := by
  intro op hop
  rcases List.mem_cons.mp hop with rfl | hop
  · exact trivial
  · rcases List.mem_singleton.mp hop with rfl
    exact Call.within_submit 0 true subs

/-- The queue after a batch was pushed. -/
def pushedState (subs : List (Submission Core.text)) : Store :=
  runOps (.ascending none) Config.default.queue (registerThenPush subs) Store.empty

/-- Two tasks, one of them with metadata that use a name of the queue. -/
def mixedBatch : List (Submission Core.text) :=
  [plainPush "bad" (Finmap.singleton "attempts" "x"), plainPush "good" ∅]

end ApalisRedis
