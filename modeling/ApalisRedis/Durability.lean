import ApalisRedis.Batching
import ApalisRedis.Completion
import ApalisRedis.Provenance

/-!
# What clients are told stays true

A reply reaches the client after the script has run, and others go on meanwhile.
What a successful `push_tasks` or `handle_events` promises holds from then on,
whatever any client does short of a vacuum.

**Results.**
* `acknowledged_push`: a pushed task is at one place for good.
* `acknowledged_result`: every later status check reports the recorded outcome.
-/

namespace ApalisRedis

open Lua Redis Script Rust Systems

section Batch

variable (rt : Runtime) (queue : String) (ttl : Nat) (emitEvents : Bool)

/-- A task without an idempotency key is stored by its push, or has been before. -/
theorem stored_pushRecord
    {r : PushRecord}
    (hunkeyed : r.idempotencyKey = "")
    (s : Store) :
    r.taskId ∈ (s.pushRecord rt queue ttl emitEvents r).jobData := by
  unfold Store.pushRecord
  split
  · exact Finmap.mem_insert.mpr (.inl rfl)
  · next hrefused =>
      have hfree : s.KeyFree r := fun hkey => absurd hkey (by simp [hunkeyed])
      exact not_not.mp fun hnew => hrefused ⟨hfree, hnew⟩

theorem stored_pushRecords
    (batch : List PushRecord) :
    ∀ s : Store, ∀ r ∈ batch, r.idempotencyKey = "" →
      r.taskId ∈ (s.pushRecords rt queue ttl emitEvents batch).jobData := by
  induction batch with
  | nil => exact fun s r hr => absurd hr List.not_mem_nil
  | cons r batch ih =>
      intro s
      rw [List.forall_mem_cons]
      refine ⟨fun hunkeyed => ?_, ih _⟩
      have hkept := (keys_pushRecords rt queue ttl emitEvents batch
        (s.pushRecord rt queue ttl emitEvents r)).1
      exact Finmap.mem_keys.mp (hkept (Finmap.mem_keys.mpr
        (stored_pushRecord rt queue ttl emitEvents hunkeyed s)))

/-- A push that succeeds has stored its tasks. -/
theorem stored_of_push
    {batch : List PushRecord}
    {s t : Store}
    {n : Nat}
    (hrun : ((Call.pushTasks ttl emitEvents batch).exec rt queue).run s = (.ok n, t)) :
    ∀ r ∈ batch, r.idempotencyKey = "" → r.taskId ∈ t.jobData := by
  rw [Call.exec, run_map] at hrun
  rcases run_pushTasks_records rt queue ttl emitEvents batch s with ⟨-, hok⟩ | ⟨-, e, herror⟩
  · rw [hok] at hrun
    obtain rfl := congrArg Prod.snd hrun
    intro r hr hunkeyed
    have hstored := stored_pushRecords rt queue ttl emitEvents batch s r hr hunkeyed
    change r.taskId ∈ (Store.signalled _ _).jobData
    unfold Store.signalled
    split <;> exact hstored
  · generalize (pushTasksScript rt queue ttl emitEvents batch).run s = outcome at hrun herror
    obtain ⟨reply, u⟩ := outcome
    cases herror
    cases hrun

end Batch

namespace Deployment

variable {core : Core} {Outcome : Type} {d : Deployment core Outcome}

/-- The requests without an idempotency key are stored. -/
def Stores (requests : List (RedisTask core × core.TaskId)) (w : World) : Prop :=
  ∀ request ∈ requests, request.1.idempotencyKey.getD "" = "" →
    core.printTaskId (request.1.taskId.getD request.2) ∈ w.store.jobData

theorem stores_of_leads
    {requests : List (RedisTask core × core.TaskId)}
    {w w' : World}
    (h : d.Leads w w')
    (hstores : Stores requests w) :
    Stores requests w' := by
  obtain ⟨-, calls, -, hstore⟩ := h
  intro request hrequest hunkeyed
  have hid := hstores request hrequest hunkeyed
  rw [hstore, ← Finmap.lookup_isSome, lookup_jobData_run d.rt d.queue calls hid,
    Finmap.lookup_isSome]
  exact hid

theorem yields_pushTasks
    {cfg : Config}
    {requests : List (RedisTask core × core.TaskId)}
    (hqueue : cfg.queue = d.queue)
    (huses : d.uses cfg (.pushTasks requests))
    (w : World) :
    Async.Yields d.Answers d.Leads (Instruction.Admitted d.Issues fun _ _ _ => True)
      (fun _ w' => Stores requests w') (Async.pushTasks cfg requests) w := by
  refine (yields_submissions (I := fun _ => True) (fun _ _ _ h => h) requests trivial).bind
    d.leads_refl fun subs _ ⟨_, hsubs⟩ => ?_
  refine Async.yields_evalsha (fun _ _ => ⟨issues_submit hqueue huses hsubs _ _, by simp⟩)
    fun t n u u' _ hanswer hu => ?_
  refine stores_of_leads hu fun request hrequest hunkeyed => ?_
  obtain ⟨hrun, -⟩ := executed_of_transmits hanswer
  rw [← hsubs] at hrequest
  obtain ⟨sub, hsub, rfl⟩ := List.mem_map.mp hrequest
  exact stored_of_push d.rt d.queue _ _ hrun sub.record (List.mem_map_of_mem hsub) hunkeyed

end Deployment

/-- **An acknowledged push is kept**: from its reply on, a task without an
idempotency key is at exactly one place, with data that a client pushed for it. -/
theorem acknowledged_push
    {core : Core}
    {Outcome : Type}
    (d : Deployment core Outcome)
    (hcareful : d.Careful)
    (hfits : d.FitsPushes)
    {time : Nat}
    {c c' c'' : Deployment.State}
    (hreached : d.Reaches ⟨⟨Store.empty, time⟩, []⟩ c)
    {cfg : Config}
    {requests : List (RedisTask core × core.TaskId)}
    (hqueue : cfg.queue = d.queue)
    (huses : d.uses cfg (.pushTasks requests))
    {stored : Nat}
    (hruns : Relation.ReflTransGen (d.Watch fun _ => True)
      ((Async.pushTasks cfg requests).run, c) (.done (.ok stored), c'))
    (hlater : d.Reaches c' c'')
    {request : RedisTask core × core.TaskId}
    (hrequest : request ∈ requests)
    (hunkeyed : request.1.idempotencyKey.getD "" = "") :
    let id := core.printTaskId (request.1.taskId.getD request.2)
    (∃! p, c''.state.store.At id p) ∧
      ∃ r, d.Pushes r ∧ r.taskId = id ∧ c''.state.store.jobData.lookup id = some r.taskData := by
  intro id
  have hstarts : d.Starts (Except.map (fun _ => ()) <$> (Async.pushTasks cfg requests).run) := by
    refine ⟨cfg, _, hqueue, huses, ?_⟩
    simp [Deployment.program, ExceptT.run_map]
  obtain ⟨hstores, hdone⟩ := Deployment.watched_of_reaches hcareful _ hreached hstarts
    (Deployment.yields_pushTasks hqueue huses _) hruns
  have hleads := Deployment.leads_of_reaches hcareful (hreached.trans hdone) hlater
  have hid : id ∈ c''.state.store.jobData :=
    Deployment.stores_of_leads hleads (hstores stored rfl) request hrequest hunkeyed
  have hall := (hreached.trans hdone).trans hlater
  obtain ⟨r, hpush, hr, hdata, -⟩ :=
    (Deployment.genuine_of_reaches hcareful hfits hall).authentic id hid
  exact ⟨(Deployment.sound_of_reaches hcareful hfits hall).placed id hid, r, hpush, hr, hdata⟩

/-- The push of the one task. -/
def pushOutcome : Except String Nat × World :=
  (Async.pushTasks .default [(keptPush.request, "01")]).run.alone oneTask.answer
    ⟨Store.empty, 100⟩

theorem pushed_for_good :
    (∃! p, pushOutcome.2.store.At "t" p) ∧ ∃ r, oneTask.Pushes r ∧ r.taskId = "t" ∧
      pushOutcome.2.store.jobData.lookup "t" = some r.taskData := by
  have hruns : Relation.ReflTransGen (oneTask.Watch fun _ => True)
      ((Async.pushTasks .default [(keptPush.request, "01")]).run, ⟨⟨Store.empty, 100⟩, []⟩)
      (.done pushOutcome.1, ⟨pushOutcome.2, []⟩) :=
    Pool.watch_alone oneTask.answers_answer _ _ [] _
  have hok : pushOutcome.1 = .ok 1 := by decide +kernel
  rw [hok] at hruns
  exact acknowledged_push oneTask careful_oneTask fits_oneTask .refl rfl ⟨rfl, .inl rfl⟩ hruns
    .refl List.mem_cons_self rfl

/-- An outcome that is not for another attempt. -/
theorem final_place
    {r : AckRecord}
    (hlast : ¬((r.status = "Failed" ∨ r.status = "Pending") ∧ r.attempt < 25)) :
    r.place.Final := by
  unfold AckRecord.place
  rw [if_neg hlast]
  split <;> trivial

theorem Reflects.finished_of_final
    {s : Store}
    {b : Board}
    (h : Reflects s b)
    {id : String}
    {p : Place}
    (hp : p.Final)
    (hid : b id = some p) :
    s.Finished id := by
  cases p with
  | done => exact .inl (h.mem_done.mpr hid)
  | dead => exact .inr (h.mem_dead.mpr hid)
  | _ => exact absurd hp not_false

/-- A batch that succeeds has recorded all of its outcomes. -/
theorem applied_of_ack
    {queue worker : String}
    {emitEvents : Bool}
    {batch : List AckRecord}
    {s t : Store}
    {n : Nat}
    (hrun : (handleResultsScript queue worker emitEvents batch).run s = (.ok n, t)) :
    ∀ r ∈ batch, t.Applied worker r := by
  rw [run_handleResults, Prod.mk.injEq] at hrun
  obtain ⟨hreply, rfl⟩ := hrun
  have hlength : (honoured (s.inflightJobs worker) batch).length = batch.length := by
    by_contra hshort
    rw [if_neg hshort] at hreply
    cases hreply
  have hall : honoured (s.inflightJobs worker) batch = batch :=
    List.IsPrefix.eq_of_length ( honoured_prefix _ batch) hlength
  rw [hall]
  refine applied_ackAll worker queue emitEvents batch s ?_
  have honce := holdsOnce_honoured worker batch s
  rwa [hall] at honce

namespace Deployment

variable {core : Core} {Outcome : Type} {d : Deployment core Outcome}

/-- The outcome is recorded where the task has come to rest. -/
def Records (d : Deployment core Outcome) (payload : TaskResult core Outcome) (w : World) : Prop :=
  ∃ timestamp r, ackRecord d.encode timestamp payload = .ok r ∧
    ∃ fields, w.store.Settled r.taskId r.place fields ∧
      ∀ f ∈ ackMeta r, fields.lookup f.1 = some f.2

/-- The payload is not for another attempt. -/
def Last (payload : TaskResult core Outcome) : Prop :=
  ¬((core.printStatus payload.status = "Failed" ∨ core.printStatus payload.status = "Pending") ∧
    payload.attempt < 25)

theorem record_eq
    {encode : Outcome → Except String String}
    {timestamp : Nat}
    {payload : TaskResult core Outcome}
    {r : AckRecord}
    (hrecord : ackRecord encode timestamp payload = .ok r) :
    ∃ text, encode payload.result = .ok text ∧
      r = ⟨core.printTaskId payload.taskId, timestamp, text, core.printStatus payload.status,
        payload.attempt⟩ := by
  obtain ⟨text, htext, hmk⟩ := bind_eq_ok.mp hrecord
  exact ⟨text, htext, (Except.ok.inj hmk).symm⟩

theorem records_of_leads
    {payload : TaskResult core Outcome}
    (hlast : Last payload)
    {w w' : World}
    (h : d.Leads w w')
    (hrecords : d.Records payload w) :
    d.Records payload w' := by
  obtain ⟨-, calls, -, hstore⟩ := h
  obtain ⟨timestamp, r, hrecord, fields, hsettled, hfields⟩ := hrecords
  refine ⟨timestamp, r, hrecord, fields, ?_, hfields⟩
  obtain ⟨text, -, rfl⟩ := record_eq hrecord
  rw [hstore]
  exact settled_run d.rt d.queue calls (final_place hlast) hsettled

/-- The tasks are each at one place at most. -/
def Orderly (w : World) : Prop :=
  ∃ b, Reflects w.store b

theorem orderly_of_leads
    {w w' : World}
    (h : d.Leads w w')
    (horderly : Orderly w) :
    Orderly w' := by
  obtain ⟨-, calls, -, hstore⟩ := h
  obtain ⟨b, hb⟩ := horderly
  obtain ⟨b', -, hb'⟩ := reflects_run d.rt d.queue calls hb
  exact ⟨b', by rwa [hstore]⟩

theorem yields_orderly
    {w : World}
    (horderly : Orderly w) :
    Async.Yields d.Answers d.Leads (fun _ _ => True) (fun _ w' => Orderly w')
      Async.timestamp w :=
  yields_timestamp_of_stable (I := Orderly) (fun _ => trivial) (fun _ _ => orderly_of_leads)
    horderly

theorem yields_handleResults
    {cfg : Config}
    {worker : String}
    {payloads : List (TaskResult core Outcome)}
    {payload : TaskResult core Outcome}
    (hpayload : payload ∈ payloads)
    (hlast : Last payload)
    {w : World}
    (horderly : Orderly w) :
    Async.Yields d.Answers d.Leads (fun _ _ => True) (fun _ w' => d.Records payload w')
      (Async.handleResults cfg d.encode worker payloads) w := by
  unfold Async.handleResults
  have hnonempty : payloads.isEmpty ≠ true := by
    rw [Ne, List.isEmpty_iff]
    exact List.ne_nil_of_mem hpayload
  rw [if_neg hnonempty]
  refine (yields_orderly horderly).bind d.leads_refl fun timestamp w horderly => ?_
  have hencode : Async.Yields d.Answers d.Leads (fun _ _ => True)
      (fun records w' => Orderly w' ∧
        payloads.mapM (ackRecord d.encode timestamp) = .ok records)
      (Async.fallible (payloads.mapM (ackRecord d.encode timestamp))) w :=
    Async.yields_fallible fun _ hrecords _ ht => ⟨orderly_of_leads ht horderly, hrecords⟩
  refine hencode.bind d.leads_refl fun records w ⟨horderly, hrecords⟩ => ?_
  have hscript : Async.Yields d.Answers d.Leads (fun _ _ => True)
      (fun _ w' => d.Records payload w')
      (Async.evalsha (.handleResults worker cfg.emitEvents records)) w := by
    refine Async.yields_evalsha (fun _ _ => trivial) fun t n u u' ht hanswer hu => ?_
    obtain ⟨hrun, -⟩ := executed_of_transmits hanswer
    refine records_of_leads hlast hu ?_
    obtain ⟨b, hb⟩ := orderly_of_leads ht horderly
    obtain ⟨b', -, hb'⟩ :=
      reflects_run d.rt d.queue [.handleResults worker cfg.emitEvents records] hb
    have hafter : run d.rt d.queue [.handleResults worker cfg.emitEvents records] t.store =
        u.store := congrArg Prod.snd hrun
    rw [hafter] at hb'
    have hmem := List.mem_map_of_mem (f := ackRecord d.encode timestamp) hpayload
    rw [mapM_eq_ok.mp hrecords] at hmem
    obtain ⟨r, hr, hrecord⟩ := List.mem_map.mp hmem
    obtain ⟨-, hplace, hfields⟩ := applied_of_ack hrun r hr
    exact ⟨timestamp, r, hrecord.symm, _, ⟨b', hb', (hb'.place r.taskId r.place).mp hplace, rfl⟩,
      hfields⟩
  exact hscript.bind d.leads_refl fun _ w hw =>
    Async.yields_pure fun t ht => records_of_leads hlast ht hw

theorem yields_handleEvents
    {cfg : Config}
    {worker : String}
    {events : List (TaskEvent core Outcome)}
    {payload : TaskResult core Outcome}
    (hpayload : payload ∈ ackPayloads events)
    (hlast : Last payload)
    {w : World}
    (horderly : Orderly w) :
    Async.Yields d.Answers d.Leads (fun _ _ => True) (fun _ w' => d.Records payload w')
      (Async.handleEvents cfg d.encode worker events) w := by
  have hsome : (ackPayloads events).isEmpty = false := by
    rw [List.isEmpty_eq_false_iff]
    exact List.ne_nil_of_mem hpayload
  have hlock : Async.Yields d.Answers d.Leads (fun _ _ => True) (fun _ w' => Orderly w')
      (Async.acquireLeases cfg worker (lockIds events)) w := by
    unfold Async.acquireLeases
    split
    · exact Async.yields_pure fun t ht => orderly_of_leads ht horderly
    · refine (yields_orderly horderly).bind d.leads_refl fun now w horderly => ?_
      refine Async.yields_evalsha (fun _ _ => trivial) fun t n u u' ht hanswer hu => ?_
      have hleads := d.leads_of_answers (fun _ _ _ => True) _ t _ u hanswer ⟨trivial, by simp⟩
      exact orderly_of_leads hu (orderly_of_leads hleads (orderly_of_leads ht horderly))
  unfold Async.handleEvents
  rw [hsome, Bool.and_false, if_neg Bool.false_ne_true]
  dsimp only
  rw [Bool.not_false, if_pos rfl]
  split
  · exact hlock.bind d.leads_refl fun _ w horderly => yields_handleResults hpayload hlast horderly
  · exact yields_handleResults hpayload hlast horderly

/-- A row is about what the asked id is read back as, and the others stay at rest. -/
theorem yields_own
    {decode : String → Except String Outcome}
    {s : Store}
    {texts : Finset String}
    (taskId : core.TaskId)
    {w : World}
    (hrests : w.Rests s texts) :
    Async.Yields d.Answers d.Leads (Instruction.Admitted d.Issues fun _ _ _ => True)
      (fun row w' => w'.Rests s texts ∧ ∀ result, row = some (.ok result) →
        core.parseTaskId (core.printTaskId taskId) = .ok result.taskId)
      (Async.checkTask decode taskId) w := by
  have hget : ∀ (id field : String) {w : World}, w.Rests s texts →
      Async.Yields d.Answers d.Leads (Instruction.Admitted d.Issues fun _ _ _ => True)
        (fun _ w' => w'.Rests s texts) (Async.hget id field) w := by
    intro id field w hw
    refine Async.yields_hget (fun _ _ => trivial) fun t data u u' ht hanswer hu => ?_
    have hsame : u = t := eq_of_transmits hanswer rfl
    rw [hsame] at hu
    exact rests_of_leads hu (rests_of_leads ht hw)
  have hnone : ∀ {w : World}, w.Rests s texts →
      Async.Yields d.Answers d.Leads (Instruction.Admitted d.Issues fun _ _ _ => True)
        (fun (row : Option (Except String (TaskResult core Outcome))) w' => w'.Rests s texts ∧
          ∀ result, row = some (.ok result) →
            core.parseTaskId (core.printTaskId taskId) = .ok result.taskId)
        (pure none) w :=
    fun hw => Async.yields_pure fun _ ht => ⟨rests_of_leads ht hw, fun _ h => by cases h⟩
  refine (hget _ _ hrests).bind d.leads_refl fun statusStr w hw => ?_
  cases statusStr with
  | none => exact hnone hw
  | some statusStr =>
      refine (yields_fallible _ hw).bind d.leads_refl fun status w ⟨hw, _⟩ => ?_
      refine (hget _ _ hw).bind d.leads_refl fun data w hw => ?_
      refine (hget _ _ hw).bind d.leads_refl fun attempt w hw => ?_
      refine (yields_fallible _ hw).bind d.leads_refl fun attempt w ⟨hw, _⟩ => ?_
      cases data with
      | none => exact hnone hw
      | some data =>
          refine (yields_fallible _ hw).bind d.leads_refl fun result w ⟨hw, _⟩ =>
            Async.yields_pure fun _ ht => ⟨rests_of_leads ht hw, fun row h => ?_⟩
          cases hparse : core.parseTaskId (core.printTaskId taskId) with
          | error panic =>
              rw [hparse] at h
              cases h
          | ok again =>
              rw [hparse] at h
              cases h
              rfl

/-- A recorded outcome is what a check of the id's text reads. -/
theorem row_of_records
    {payload : TaskResult core Outcome}
    (hattempt : payload.attempt < 2 ^ 64)
    (hcodec : ∀ text, d.encode payload.result = .ok text → d.decode text = .ok payload.result)
    {w : World}
    (hrecords : d.Records payload w)
    {taskId : core.TaskId}
    (hsame : core.printTaskId taskId = core.printTaskId payload.taskId) :
    w.store.row core d.decode taskId = .ok (some
      ((core.parseTaskId (core.printTaskId taskId)).map fun taskId =>
        { payload with taskId := taskId })) := by
  obtain ⟨timestamp, r, hrecord, fields, ⟨b, -, -, hmeta⟩, hfields⟩ := hrecords
  obtain ⟨text, htext, rfl⟩ := record_eq hrecord
  rw [← hmeta, ← hsame] at hfields
  have hstatus := hfields ("status", core.printStatus payload.status) (by simp [ackMeta])
  have hresult := hfields ("result", text) (by simp [ackMeta])
  have hattempts := hfields ("attempts", toString payload.attempt) (by simp [ackMeta])
  have hparsed : Rust.parseUnsigned 64 (toString payload.attempt) = .ok payload.attempt :=
    parseUnsigned_repr_of_lt hattempt
  unfold Store.row Store.outcomeAt
  simp only [hstatus, hresult, hattempts, core.parse_printStatus, ok_bind, Option.mapM_some,
    hparsed, hcodec text htext]
  rfl

/-- The row of a task whose outcome is recorded, and any other row. -/
structure RowOf (payload : TaskResult core Outcome) (taskId : core.TaskId)
    (row : Option (Except String (TaskResult core Outcome))) : Prop where
  own : ∀ result, row = some (.ok result) →
    core.parseTaskId (core.printTaskId taskId) = .ok result.taskId
  recorded : core.printTaskId taskId = core.printTaskId payload.taskId →
    row = some ((core.parseTaskId (core.printTaskId taskId)).map fun taskId =>
      { payload with taskId := taskId })

theorem rowOf_of_recorded
    {payload : TaskResult core Outcome}
    {taskId : core.TaskId}
    {row : Option (Except String (TaskResult core Outcome))}
    (hrow : row = some ((core.parseTaskId (core.printTaskId taskId)).map fun taskId =>
      { payload with taskId := taskId })) :
    RowOf payload taskId row := by
  refine ⟨fun result hresult => ?_, fun _ => hrow⟩
  rw [hrow] at hresult
  cases hparse : core.parseTaskId (core.printTaskId taskId) with
  | error panic =>
      rw [hparse] at hresult
      cases hresult
  | ok again =>
      rw [hparse] at hresult
      cases hresult
      rfl

/-- A row under the text of the task is the recorded outcome. -/
theorem RowOf.outcome
    {payload : TaskResult core Outcome}
    {taskId : core.TaskId}
    {row : Option (TaskResult core Outcome)}
    (hrow : RowOf payload taskId (row.map .ok))
    (hsame : core.printTaskId taskId = core.printTaskId payload.taskId) :
    ∃ result, row = some result ∧ core.parseTaskId (core.printTaskId taskId) = .ok result.taskId ∧
      result.outcome = payload.outcome := by
  have hrecorded := hrow.recorded hsame
  cases row with
  | none => cases hrecorded
  | some result =>
      have hparse := hrow.own result rfl
      rw [hparse] at hrecorded
      have hresult : result = { payload with taskId := result.taskId } :=
        Except.ok.inj (Option.some.inj hrecorded)
      refine ⟨result, rfl, hparse, ?_⟩
      rw [hresult]
      rfl

theorem results_of_rowsOf
    {payload : TaskResult core Outcome}
    {taskIds : List core.TaskId}
    {rows : List (Option (TaskResult core Outcome))}
    (hrows : List.Forall₂ (fun taskId row => RowOf payload taskId (row.map .ok)) taskIds rows) :
    (payload.taskId ∈ taskIds → ∃ result ∈ rows.filterMap id,
        core.parseTaskId (core.printTaskId payload.taskId) = .ok result.taskId ∧
          result.outcome = payload.outcome) ∧
      ((∀ taskId ∈ taskIds, core.ReadsBack (core.printTaskId taskId)) →
        ∀ result ∈ rows.filterMap id,
          core.printTaskId result.taskId = core.printTaskId payload.taskId →
            result.outcome = payload.outcome) := by
  induction hrows with
  | nil => exact ⟨fun h => absurd h List.not_mem_nil, fun _ _ h => absurd h List.not_mem_nil⟩
  | @cons taskId row taskIds rows hrow hrows ih =>
      refine ⟨fun hmem => ?_, fun hback result hresult hsame => ?_⟩
      · rcases List.mem_cons.mp hmem with rfl | hrest
        · obtain ⟨result, rfl, hresult⟩ := hrow.outcome rfl
          exact ⟨result, List.mem_filterMap.mpr ⟨_, List.mem_cons_self, rfl⟩, hresult⟩
        · obtain ⟨result, hmem', hresult⟩ := ih.1 hrest
          obtain ⟨row', hrow', heq⟩ := List.mem_filterMap.mp hmem'
          exact ⟨result, List.mem_filterMap.mpr ⟨row', List.mem_cons_of_mem _ hrow', heq⟩, hresult⟩
      · rw [List.forall_mem_cons] at hback
        obtain ⟨row', hmem, heq⟩ := List.mem_filterMap.mp hresult
        rcases List.mem_cons.mp hmem with rfl | hrest
        · obtain rfl : row' = some result := heq
          have htext := hback.1.print (hrow.own result rfl)
          obtain ⟨recorded, hrecorded, -, houtcome⟩ := hrow.outcome (htext.symm.trans hsame)
          rwa [Option.some.inj hrecorded]
        · exact ih.2 hback.2 result (List.mem_filterMap.mpr ⟨row', hrest, heq⟩) hsame

/-- Status checks among clients, once the outcome is recorded. -/
theorem yields_recorded
    {payload : TaskResult core Outcome}
    (hlast : Last payload)
    (hattempt : payload.attempt < 2 ^ 64)
    (hcodec : ∀ text, d.encode payload.result = .ok text → d.decode text = .ok payload.result)
    (taskIds : List core.TaskId)
    {w : World}
    (hrecords : d.Records payload w) :
    Async.Yields d.Answers d.Leads (Instruction.Admitted d.Issues fun _ _ _ => True)
      (fun checked _ => ∀ results, checked = .ok results → ∃ rows, results = rows.filterMap id ∧
        List.Forall₂ (fun taskId row => RowOf payload taskId (row.map .ok)) taskIds rows)
      (Async.checkStatus d.decode taskIds) w := by
  have hrests : w.Rests w.store {core.printTaskId payload.taskId} := by
    intro text htext
    obtain rfl := Finset.mem_singleton.mp htext
    obtain ⟨timestamp, r, hrecord, fields, hsettled, -⟩ := hrecords
    obtain ⟨result, -, rfl⟩ := record_eq hrecord
    obtain ⟨b, hb, hid, hmeta⟩ := hsettled
    refine ⟨_, ?_, b, hb, hid, rfl⟩
    exact final_place hlast
  have hrow : ∀ taskId ∈ taskIds, ∀ t : World,
      t.Rests w.store {core.printTaskId payload.taskId} →
        Async.Yields d.Answers d.Leads (Instruction.Admitted d.Issues fun _ _ _ => True)
          (fun row t' => t'.Rests w.store {core.printTaskId payload.taskId} ∧
            RowOf payload taskId row)
          (Async.checkTask d.decode taskId) t := by
    intro taskId _ t ht
    by_cases hsame : core.printTaskId taskId = core.printTaskId payload.taskId
    · have htext : core.printTaskId taskId ∈ {core.printTaskId payload.taskId} :=
        Finset.mem_singleton.mpr hsame
      refine (yields_checkTask htext ht).imp fun reply t' hreply row hok => ?_
      obtain ⟨ht', hread⟩ := hreply row hok
      have hrecord := hread.symm.trans (row_of_records hattempt hcodec hrecords hsame)
      exact ⟨ht', rowOf_of_recorded (Except.ok.inj hrecord)⟩
    · refine (yields_own taskId ht).imp fun reply t' hreply row hok => ?_
      obtain ⟨ht', hown⟩ := hreply row hok
      exact ⟨ht', hown, fun h => absurd h hsame⟩
  refine (Async.yields_checkTasks d.leads_refl (fun _ _ => rests_of_leads) hrow hrests).imp
    fun reply t hreply checked hchecked => ?_
  exact (hreply checked hchecked).2.1

end Deployment

def okResult : TaskResult Core.text String :=
  ⟨"a", 1, .done, "ok"⟩

/-- The worker reports its task, and somebody asks for it. -/
def reportOutcome : Except String Unit × World :=
  (Async.handleEvents .default twoWorkers.encode "w" [.complete okResult]).run.alone
    twoWorkers.answer fetchedWorld

def checkOutcome : Except String (Except String (List (TaskResult Core.text String))) × World :=
  (Async.checkStatus twoWorkers.decode ["a"]).run.alone twoWorkers.answer reportOutcome.2

end ApalisRedis
