import ApalisRedis.Commutation
import ApalisRedis.Leasing
import ApalisRedis.Status

/-!
# Batches of task events

A worker reports in batches, in which locks and completions come in any order.
`handle_events` acquires all the leases with one script and then records all the
outcomes with another one.  The first error ends it, and the batch is gone.

**Results.**
* `keepsAcks_iff`: when every outcome of a held task is recorded.
-/

namespace ApalisRedis

open Lua Redis Script

/-- `TaskEvent` of `apalis_core`. -/
inductive TaskEvent (core : Core) (Outcome : Type) where
  | lock (taskId : core.TaskId)
  | complete (payload : TaskResult core Outcome)

section Events

variable {core : Core} {Outcome : Type}
-- `serde_json::to_value` and printing it, for the results of tasks.
variable (encode : Outcome → Except String String)
variable (cfg : Config) (worker : String)

/-- The ids that `handle_events` asks to lock. -/
def lockIds (events : List (TaskEvent core Outcome)) : List String :=
  events.filterMap fun
    | .lock taskId => some (core.printTaskId taskId)
    | .complete _ => none

def ackPayloads (events : List (TaskEvent core Outcome)) : List (TaskResult core Outcome) :=
  events.filterMap fun
    | .lock _ => none
    | .complete payload => some payload

/-- The five arguments that `handle_results` passes for a payload. -/
def ackRecord (timestamp : Nat) (payload : TaskResult core Outcome) :
    Except String AckRecord := do
  let resultData ← encode payload.result
  pure ⟨core.printTaskId payload.taskId, timestamp, resultData,
    core.printStatus payload.status, payload.attempt⟩

/-- `queries::handle_results` -/
def Queries.handleResults (timestamp : Nat) (payloads : List (TaskResult core Outcome)) :
    Script Store Unit :=
  if payloads.isEmpty then
    pure ()
  else do
    let records ← fallible (payloads.mapM (ackRecord encode timestamp))
    let _ ← handleResultsScript cfg.queue worker cfg.emitEvents records

/-- `RedisPersistence::handle_events`, reading the clock twice. -/
def handleEvents (now later : Nat) (events : List (TaskEvent core Outcome)) :
    Script Store Unit :=
  if (lockIds events).isEmpty && (ackPayloads events).isEmpty then
    pure ()
  else do
    if !(lockIds events).isEmpty then
      let _ ← Queries.acquireLeases cfg worker now (lockIds events)
    if !(ackPayloads events).isEmpty then
      Queries.handleResults encode cfg worker later (ackPayloads events)

/-- The tasks that a batch completes. -/
def completedIds (events : List (TaskEvent core Outcome)) : List String :=
  (ackPayloads events).map fun payload => core.printTaskId payload.taskId

/-- The task has left the worker, is where its outcome sends it, and has the
outcome in its metadata. -/
def Store.Applied (t : Store) (worker : String) (r : AckRecord) : Prop :=
  r.taskId ∉ t.inflightJobs worker ∧ t.At r.taskId r.place ∧
    ∀ f ∈ ackMeta r, (t.jobMeta r.taskId).lookup f.1 = some f.2

/-- Every outcome of a task that the worker held is recorded. -/
def KeepsAcks (now later : Nat) (events : List (TaskEvent core Outcome)) (s : Store) : Prop :=
  ∀ payload ∈ ackPayloads events, core.printTaskId payload.taskId ∈ s.inflightJobs worker →
    ∃ r, ackRecord encode later payload = .ok r ∧
      ((handleEvents encode cfg worker now later events).run s).2.Applied worker r

/-- The leases that the batch asks for can be acquired. -/
def LocksSucceed (events : List (TaskEvent core Outcome)) (s : Store) : Prop :=
  lockIds events = [] ∨
    worker ∈ s.workers ∧ ∀ id ∈ lockIds events, id ∈ s.inflightJobs worker

/-- The tasks that are held come before those that are not. -/
def HeldFirst (held : Finset String) (ids : List String) : Prop :=
  ∃ first later, ids = first ++ later ∧ (∀ id ∈ first, id ∈ held) ∧ ∀ id ∈ later, id ∉ held

theorem inflight_lockAll
    {worker : String}
    (now : Nat)
    (emitEvents : Bool)
    (taskIds : List String)
    {s : Store}
    (hheld : ∀ id ∈ taskIds, id ∈ s.inflightJobs worker) :
    (s.lockAll cfg.queue worker now emitEvents taskIds).inflightJobs = s.inflightJobs := by
  induction taskIds generalizing s with
  | nil => rfl
  | cons id ids ih =>
      rw [List.forall_mem_cons] at hheld
      have hsame : ((s.lock worker now id).say emitEvents
          ("tasks:" ++ (cfg.queue ++ ":active") ++ ":lock") id).inflightJobs = s.inflightJobs := by
        change Function.update s.inflightJobs worker (insert id (s.inflightJobs worker)) = _
        rw [Finset.insert_eq_self.mpr hheld.1, Function.update_eq_self]
      refine (ih fun id' hid' => ?_).trans hsame
      rw [hsame]
      exact hheld.2 id' hid'

/-- The batch fails while it locks and changes nothing, or goes on with the
outcomes in a state with the same inflight sets. -/
theorem handleEvents_cases
    (now later : Nat)
    (events : List (TaskEvent core Outcome))
    (s : Store) :
    (LocksSucceed worker events s ∧ ∃ u : Store, u.inflightJobs = s.inflightJobs ∧
        (handleEvents encode cfg worker now later events).run s =
          (Queries.handleResults encode cfg worker later (ackPayloads events)).run u) ∨
      (¬LocksSucceed worker events s ∧
        ∃ e, (handleEvents encode cfg worker now later events).run s = (.error e, s)) := by
  have hresults : ∀ u : Store, (if !(ackPayloads events).isEmpty then
      Queries.handleResults encode cfg worker later (ackPayloads events) else pure ()).run u =
        (Queries.handleResults encode cfg worker later (ackPayloads events)).run u := by
    intro u
    cases hacks : (ackPayloads events).isEmpty <;> simp [Queries.handleResults, hacks]
  by_cases hlocks : lockIds events = []
  · refine .inl ⟨.inl hlocks, s, rfl, ?_⟩
    rw [← hresults]
    cases hacks : (ackPayloads events).isEmpty <;> simp [handleEvents, hlocks, hacks]
  · have hunfold : (handleEvents encode cfg worker now later events).run s =
        (acquireLeasesScript cfg.queue worker now cfg.emitEvents (lockIds events) >>= fun _ =>
          if !(ackPayloads events).isEmpty then
            Queries.handleResults encode cfg worker later (ackPayloads events)
          else pure ()).run s := by
      simp [handleEvents, Queries.acquireLeases, hlocks]
    have hacquire := run_acquireLeases cfg.queue worker now cfg.emitEvents (lockIds events) s
    by_cases hworker : worker ∈ s.workers
    · rw [if_neg (not_not.mpr hworker)] at hacquire
      cases hfind : (lockIds events).find? fun id => decide (id ∉ s.inflightJobs worker) with
      | none =>
          have hheld : ∀ id ∈ lockIds events, id ∈ s.inflightJobs worker := by
            simpa using hfind
          rw [hfind] at hacquire
          refine .inl ⟨.inr ⟨hworker, hheld⟩, _,
            inflight_lockAll cfg now cfg.emitEvents _ hheld, ?_⟩
          rw [hunfold, run_bind_ok hacquire, hresults]
      | some id =>
          have hid : id ∈ lockIds events := List.mem_of_find?_eq_some hfind
          have hmissing : id ∉ s.inflightJobs worker := by
            simpa using List.find?_some hfind
          rw [hfind] at hacquire
          refine .inr ⟨?_, _, hunfold.trans (run_bind_error hacquire _)⟩
          rintro (h | ⟨-, hheld⟩)
          · exact hlocks h
          · exact hmissing (hheld id hid)
    · rw [if_pos hworker] at hacquire
      refine .inr ⟨?_, _, hunfold.trans (run_bind_error hacquire _)⟩
      rintro (h | ⟨h, -⟩)
      · exact hlocks h
      · exact hworker h

theorem taskId_of_record
    {timestamp : Nat}
    {payload : TaskResult core Outcome}
    {r : AckRecord}
    (hrecord : ackRecord encode timestamp payload = .ok r) :
    r.taskId = core.printTaskId payload.taskId := by
  obtain ⟨resultData, -, hmk⟩ := bind_eq_ok.mp hrecord
  cases hmk
  rfl

/-- The records of payloads are about the tasks of the payloads. -/
theorem ids_of_records
    {timestamp : Nat}
    {payloads : List (TaskResult core Outcome)}
    {records : List AckRecord}
    (hrecords : payloads.mapM (ackRecord encode timestamp) = .ok records) :
    records.map AckRecord.taskId =
      payloads.map fun payload => core.printTaskId payload.taskId := by
  induction payloads generalizing records with
  | nil =>
      cases hrecords
      rfl
  | cons payload rest ih =>
      rw [List.mapM_cons] at hrecords
      obtain ⟨r, hr, hrest⟩ := bind_eq_ok.mp hrecords
      obtain ⟨rs, hrs, heq⟩ := bind_eq_ok.mp hrest
      cases heq
      rw [List.map_cons, List.map_cons, ih hrs, taskId_of_record encode hr]

theorem record_of_payload
    {timestamp : Nat}
    {payloads : List (TaskResult core Outcome)}
    {records : List AckRecord}
    (hrecords : payloads.mapM (ackRecord encode timestamp) = .ok records)
    {payload : TaskResult core Outcome}
    (hpayload : payload ∈ payloads)
    {r : AckRecord}
    (hrecord : ackRecord encode timestamp payload = .ok r) :
    r ∈ records := by
  have hmem := List.mem_map_of_mem (f := ackRecord encode timestamp) hpayload
  rw [mapM_eq_ok.mp hrecords, hrecord] at hmem
  obtain ⟨r', hr', heq⟩ := List.mem_map.mp hmem
  exact Except.ok.inj heq ▸ hr'

theorem payload_of_record
    {timestamp : Nat}
    {payloads : List (TaskResult core Outcome)}
    {records : List AckRecord}
    (hrecords : payloads.mapM (ackRecord encode timestamp) = .ok records)
    {r : AckRecord}
    (hr : r ∈ records) :
    ∃ payload ∈ payloads, ackRecord encode timestamp payload = .ok r := by
  have hmem : Except.ok r ∈ records.map (Except.ok : AckRecord → Except String AckRecord) :=
    List.mem_map_of_mem hr
  rw [← mapM_eq_ok.mp hrecords] at hmem
  exact List.mem_map.mp hmem

theorem exists_record
    (timestamp : Nat)
    {payloads : List (TaskResult core Outcome)} :
    (∃ records, payloads.mapM (ackRecord encode timestamp) = .ok records) ↔
      ∀ payload ∈ payloads, ∃ text, encode payload.result = .ok text := by
  rw [exists_mapM_eq_ok]
  refine forall₂_congr fun payload _ => ?_
  unfold ackRecord
  cases encode payload.result with
  | error e => simp [bind, Except.bind]
  | ok text => simp [bind, Except.bind, pure, Except.pure]

/-- When the tasks that are held come first, the records of these are written. -/
theorem honoured_of_heldFirst
    {held : Finset String}
    {records : List AckRecord}
    (honce : ((records.map AckRecord.taskId).filter (· ∈ held)).Nodup)
    (h : HeldFirst held (records.map AckRecord.taskId)) :
    ∀ r ∈ records, r.taskId ∈ held → r ∈ honoured held records := by
  obtain ⟨first, later, hsplit, hfirst, hlater⟩ := h
  have hfilter : (first ++ later).filter (· ∈ held) = first := by
    rw [List.filter_append, List.filter_eq_self.mpr (by simpa using hfirst),
      List.filter_eq_nil_iff.mpr (by simpa using hlater), List.append_nil]
  rw [hsplit, hfilter] at honce
  obtain ⟨written, rest, rfl, rfl, rfl⟩ := List.map_eq_append_iff.mp hsplit
  intro r hr hheld
  rw [honoured_append (fun r' hr' => hfirst _ (List.mem_map_of_mem hr')) honce]
  refine List.mem_append_left _ ((List.mem_append.mp hr).resolve_right fun hlast => ?_)
  exact hlater _ (List.mem_map_of_mem hlast) hheld

theorem heldFirst_of_honoured
    {held : Finset String}
    {records : List AckRecord}
    (honce : ((records.map AckRecord.taskId).filter (· ∈ held)).Nodup)
    (hall : ∀ r ∈ records, r.taskId ∈ held →
      r.taskId ∈ (honoured held records).map AckRecord.taskId) :
    HeldFirst held (records.map AckRecord.taskId) := by
  obtain ⟨rest, hrest⟩ := honoured_prefix held records
  refine ⟨(honoured held records).map AckRecord.taskId, rest.map AckRecord.taskId, ?_,
    fun id hid => ?_, fun id hid hheld => ?_⟩
  · rw [← List.map_append, hrest]
  · obtain ⟨r, hr, rfl⟩ := List.mem_map.mp hid
    exact (held_of_honoured held records).1 r hr
  · obtain ⟨r, hr, rfl⟩ := List.mem_map.mp hid
    have hmem : r ∈ records := hrest ▸ List.mem_append_right _ hr
    have hwritten := hall r hmem hheld
    -- The task would be completed twice, once among the written records.
    rw [← hrest, List.map_append, List.filter_append, List.nodup_append] at honce
    refine honce.2.2 r.taskId ?_ r.taskId ?_ rfl
    · exact List.mem_filter.mpr ⟨hwritten, by simpa using hheld⟩
    · exact List.mem_filter.mpr ⟨hid, by simpa using hheld⟩

/-- A batch that leaves the inflight sets alone records the outcome of no held task. -/
theorem keepsAcks_iff_of_untouched
    {now later : Nat}
    {events : List (TaskEvent core Outcome)}
    {s : Store}
    (hsame : ((handleEvents encode cfg worker now later events).run s).2.inflightJobs =
      s.inflightJobs) :
    KeepsAcks encode cfg worker now later events s ↔
      ∀ id ∈ completedIds events, id ∉ s.inflightJobs worker := by
  constructor
  · intro h id hid hheld
    obtain ⟨payload, hpayload, rfl⟩ := List.mem_map.mp hid
    obtain ⟨r, hr, hgone, -⟩ := h payload hpayload hheld
    rw [hsame, taskId_of_record encode hr] at hgone
    exact hgone hheld
  · intro h payload hpayload hheld
    exact absurd hheld (h _ (List.mem_map_of_mem hpayload))

/-- The outcomes of a batch, when all of them can be encoded. -/
theorem run_recordResults
    {timestamp : Nat}
    {payloads : List (TaskResult core Outcome)}
    {records : List AckRecord}
    (hrecords : payloads.mapM (ackRecord encode timestamp) = .ok records)
    (u : Store) :
    ((Queries.handleResults encode cfg worker timestamp payloads).run u).2 =
      u.ackAll cfg.queue worker cfg.emitEvents (honoured (u.inflightJobs worker) records) := by
  cases payloads with
  | nil =>
      cases hrecords
      rfl
  | cons payload rest =>
      have hscript := run_handleResults cfg.queue worker cfg.emitEvents records u
      have hfallible : (fallible ((payload :: rest).mapM (ackRecord encode timestamp)) :
          Script Store (List AckRecord)).run u = (.ok records, u) := by
        rw [run_fallible, hrecords]
      rw [Queries.handleResults, List.isEmpty_cons, if_neg (by simp), run_bind_ok hfallible,
        run_bind]
      rcases hrun : (handleResultsScript cfg.queue worker cfg.emitEvents records).run u with
        ⟨e | n, t⟩ <;> rw [hrun] at hscript <;> exact congrArg Prod.snd hscript

theorem run_unrecordedResults
    (timestamp : Nat)
    {payloads : List (TaskResult core Outcome)}
    (hencodes : ¬∀ payload ∈ payloads, ∃ text, encode payload.result = .ok text)
    (u : Store) :
    ((Queries.handleResults encode cfg worker timestamp payloads).run u).2 = u := by
  rw [← exists_record encode timestamp] at hencodes
  unfold Queries.handleResults
  split
  · rfl
  · cases hrecords : payloads.mapM (ackRecord encode timestamp) with
    | error e => rfl
    | ok records => exact absurd ⟨records, hrecords⟩ hencodes

theorem applied_ackAll
    (queue : String)
    (emitEvents : Bool)
    (batch : List AckRecord)
    (s : Store)
    (honce : s.HoldsOnce worker batch) :
    ∀ r ∈ batch, (s.ackAll queue worker emitEvents batch).Applied worker r := by
  intro r hr
  obtain ⟨hgone, hplace, hmeta⟩ := recorded_ackAll queue worker emitEvents batch s honce r hr
  refine ⟨hgone, hplace, fun f hf => ?_⟩
  rw [hmeta]
  exact Hash.lookup_setAll_of_mem _ (nodup_ackMeta r) hf _

/-- **When every outcome of a held task is recorded**: when the batch completes no
held task, or it acquires its leases and completes the held tasks first. -/
theorem keepsAcks_iff
    (now later : Nat)
    (events : List (TaskEvent core Outcome))
    (s : Store)
    (honce : ((completedIds events).filter (· ∈ s.inflightJobs worker)).Nodup) :
    KeepsAcks encode cfg worker now later events s ↔
      (∀ id ∈ completedIds events, id ∉ s.inflightJobs worker) ∨
        LocksSucceed worker events s ∧
          (∀ payload ∈ ackPayloads events, ∃ text, encode payload.result = .ok text) ∧
          HeldFirst (s.inflightJobs worker) (completedIds events) := by
  rcases handleEvents_cases encode cfg worker now later events s with
    ⟨hlocks, u, hu, hrun⟩ | ⟨hlocks, e, hrun⟩
  · by_cases hencodes : ∀ payload ∈ ackPayloads events, ∃ text, encode payload.result = .ok text
    · obtain ⟨records, hrecords⟩ := (exists_record encode later).mpr hencodes
      have hids := ids_of_records encode hrecords
      have hstate := run_recordResults encode cfg worker hrecords u
      rw [← hrun, hu] at hstate
      change records.map AckRecord.taskId = completedIds events at hids
      rw [← hids] at honce ⊢
      constructor
      · intro h
        refine .inr ⟨hlocks, hencodes, heldFirst_of_honoured honce fun r hr hheld => ?_⟩
        obtain ⟨payload, hpayload, hrecord⟩ := payload_of_record encode hrecords hr
        rw [taskId_of_record encode hrecord] at hheld
        obtain ⟨r', hr', hgone, -⟩ := h payload hpayload hheld
        rw [hrecord] at hr'
        cases hr'
        rw [taskId_of_record encode hrecord] at hgone ⊢
        rw [hstate, inflight_ackAll, hu, Finset.mem_sdiff, not_and_not_right] at hgone
        exact List.mem_toFinset.mp (hgone hheld)
      · intro h payload hpayload hheld
        obtain ⟨r, hrecord⟩ := exists_mapM_eq_ok.mp ⟨records, hrecords⟩ payload hpayload
        have hr : r ∈ records := record_of_payload encode hrecords hpayload hrecord
        rw [← taskId_of_record encode hrecord] at hheld
        rcases h with hnone | ⟨-, -, hfirst⟩
        · exact absurd hheld (hnone _ (List.mem_map_of_mem hr))
        · have hwritten := honoured_of_heldFirst honce hfirst r hr hheld
          rw [← hu] at hwritten
          have happlied := applied_ackAll worker cfg.queue cfg.emitEvents _ u
            (holdsOnce_honoured worker records u) r hwritten
          rw [hu, ← hstate] at happlied
          exact ⟨r, hrecord, happlied⟩
    · have hstate := run_unrecordedResults encode cfg worker later hencodes u
      rw [← hrun] at hstate
      have huntouched := keepsAcks_iff_of_untouched encode cfg worker
        ((congrArg Store.inflightJobs hstate).trans hu)
      rw [huntouched]
      exact ⟨.inl, fun h => h.resolve_right fun hlater => hencodes hlater.2.1⟩
  · have huntouched := keepsAcks_iff_of_untouched encode cfg worker
      (congrArg (fun outcome => outcome.2.inflightJobs) hrun)
    rw [huntouched]
    exact ⟨.inl, fun h => h.resolve_right fun hlater => hlocks hlater.1⟩

end Events

/-- One task is locked and completed in one batch. -/
def lockedAndCompleted : List (TaskEvent Core.text String) :=
  [.lock "held", .complete ⟨"held", 1, .done, "null"⟩]

theorem locked_and_completed :
    KeepsAcks .ok Config.q "w" 101 102 lockedAndCompleted oneFetched := by
  refine (keepsAcks_iff .ok Config.q "w" 101 102 lockedAndCompleted oneFetched
    (by decide +kernel)).mpr (.inr
      ⟨.inr (by decide +kernel), fun payload _ => ⟨_, rfl⟩, ["held"], [], rfl, ?_, by simp⟩)
  decide +kernel

/-- One task is completed in a batch with a stale lock on another one. -/
def completedAndStale : List (TaskEvent Core.text String) :=
  [.complete ⟨"held", 1, .done, "null"⟩, .lock "stale"]

/-- The stale lock loses the outcome of the task that is held. -/
theorem stale_lock_loses_ack :
    ((completedIds completedAndStale).filter (· ∈ oneFetched.inflightJobs "w")).Nodup ∧
      ¬KeepsAcks .ok Config.q "w" 101 102 completedAndStale oneFetched := by
  refine ⟨by decide +kernel, fun h => ?_⟩
  have hheld : "held" ∈ oneFetched.inflightJobs "w" := by
    decide +kernel
  obtain ⟨r, hr, hgone, -⟩ := h _ List.mem_cons_self hheld
  cases hr
  revert hgone
  decide +kernel

end ApalisRedis
