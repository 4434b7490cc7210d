import ApalisRedis.Delivery

/-!
# Pushed and fetched again

A pushed task waits, untouched, until it is delivered for the first time.  What
is delivered is decoded from one hash in which the queue's own fields and the
user's metadata share their names, and from numbers that are narrower than
those of a task.

**Results.**
* `fresh_run`: until its first delivery a task is stored as it was pushed.
* `sameTask_iff`: the tasks that survive the encoding.
* `push_fetch_identity_iff`: when a pushed task is fetched as it was pushed.
-/

namespace ApalisRedis

open Lua Redis Script

namespace Submission

variable {core : Core} (sub : Submission core)

/-- The task is the submitted one. -/
structure SameTask (task : RedisTask core) : Prop where
  taskId : task.taskId = some sub.taskId
  args : task.args = sub.request.args
  attempt : task.attempt = sub.request.attempt
  maxAttempts : task.maxAttempts = some (sub.request.maxAttempts.getD 25)
  idempotencyKey : task.idempotencyKey = sub.request.idempotencyKey.filter fun key => key ≠ ""
  status : task.status = core.pending
  lockBy : task.lockBy = none
  metadata : task.metadata = sub.request.metadata

/-- Both counts fit `u32`, and no name of the queue is used in the metadata. -/
structure Representable : Prop where
  attempt : sub.request.attempt < 2 ^ 32
  maxAttempts : sub.request.maxAttempts.getD 25 < 2 ^ 32
  metadata : ∀ field ∈ reservedFields, field ∉ sub.request.metadata

variable (rt : Runtime)

/-- The metadata hash that pushing the task writes. -/
def pushedFields : Hash String :=
  Hash.setAll ∅ (pushMeta rt sub.record)

/-- The queue's own part of it. -/
def baseFields : Hash String :=
  Hash.setAll ∅ [("attempts", rt.numeral sub.record.attempts),
    ("max_attempts", rt.numeral sub.record.maxAttempts), ("status", "Pending"),
    ("idempotency_key", sub.record.idempotencyKey)]

theorem lookup_pushedFields
    (field : String) :
    (sub.pushedFields rt).lookup field =
      (sub.request.metadata.lookup field).or ((sub.baseFields rt).lookup field) := by
  rw [pushedFields, pushMeta, Hash.setAll_append, rt.lookup_setAll_fields]
  rfl

/-- A name that the metadata do not use keeps the queue's value. -/
theorem lookup_of_unused
    {field : String}
    (hunused : field ∉ sub.request.metadata) :
    (sub.pushedFields rt).lookup field = (sub.baseFields rt).lookup field := by
  rw [lookup_pushedFields, Finmap.lookup_eq_none.mpr hunused, Option.none_or]

theorem lookup_baseFields_of_unreserved
    {field : String}
    (hfield : field ∉ reservedFields) :
    (sub.baseFields rt).lookup field = none := by
  simp only [reservedFields, List.mem_cons, not_or] at hfield
  simp [baseFields, hfield]

theorem lookup_baseFields_maxAttempts :
    (sub.baseFields rt).lookup "max_attempts" =
      some (rt.numeral (sub.request.maxAttempts.getD 25)) := by
  simp [baseFields, record]

theorem lookup_baseFields_idempotencyKey :
    (sub.baseFields rt).lookup "idempotency_key" =
      some (sub.request.idempotencyKey.getD "") := by
  simp [baseFields, record]

/-- What decoding leaves of the fields is the metadata, unless they use a reserved name. -/
theorem eraseAll_pushedFields_eq_iff :
    Hash.eraseAll (sub.pushedFields rt) reservedFields = sub.request.metadata ↔
      ∀ field ∈ reservedFields, field ∉ sub.request.metadata := by
  constructor
  · intro heq field hfield hused
    rw [← heq] at hused
    exact (Hash.mem_eraseAll.mp hused).1 hfield
  · intro hunused
    refine Finmap.ext_lookup fun field => ?_
    rw [Hash.lookup_eraseAll]
    by_cases hfield : field ∈ reservedFields
    · rw [if_pos hfield, Finmap.lookup_eq_none.mpr (hunused field hfield)]
    · rw [if_neg hfield, lookup_pushedFields, sub.lookup_baseFields_of_unreserved rt hfield,
        Option.or_none]

variable {sub rt} in
theorem requiredField_of_unused
    {α : Type}
    {field text : String}
    (hunused : field ∉ sub.request.metadata)
    (hbase : (sub.baseFields rt).lookup field = some text)
    (parse : String → Except String α) :
    requiredField (sub.pushedFields rt) field parse = parse text := by
  rw [requiredField, lookup_of_unused sub rt hunused, hbase]

theorem parse_numeral
    {n : Nat}
    (hn : n < 2 ^ 32) :
    Rust.parseUnsigned 32 (rt.numeral n) = .ok n := by
  rw [rt.numeral_exact (by omega), Rust.parseUnsigned_repr_of_lt hn]

/-- **The tasks that survive the encoding.** -/
theorem sameTask_iff :
    (∃ attempts maxAttempts status,
      requiredField (sub.pushedFields rt) "attempts" (Rust.parseUnsigned 32) = .ok attempts ∧
      requiredField (sub.pushedFields rt) "max_attempts" (Rust.parseUnsigned 32) =
        .ok maxAttempts ∧
      requiredField (sub.pushedFields rt) "status" core.parseStatus = .ok status ∧
      sub.SameTask (takenTask core sub.request.args sub.taskId (sub.pushedFields rt)
        attempts maxAttempts status).intoFullCompact) ↔ sub.Representable := by
  constructor
  · rintro ⟨attempts, maxAttempts, status, ha, hm, -, hsame⟩
    refine ⟨?_, ?_, (sub.eraseAll_pushedFields_eq_iff rt).mp hsame.metadata⟩
    · obtain ⟨text, -, hparse⟩ := requiredField_eq_ok.mp ha
      have hattempt : attempts = sub.request.attempt := hsame.attempt
      rw [← hattempt]
      exact Rust.lt_of_parseUnsigned hparse
    · obtain ⟨text, -, hparse⟩ := requiredField_eq_ok.mp hm
      have hmax : maxAttempts = sub.request.maxAttempts.getD 25 :=
        Option.some.inj hsame.maxAttempts
      rw [← hmax]
      exact Rust.lt_of_parseUnsigned hparse
  · rintro ⟨hattempt, hmax, hunused⟩
    have hbase : (sub.baseFields rt).lookup "attempts" = some (rt.numeral sub.request.attempt) ∧
        (sub.baseFields rt).lookup "status" = some "Pending" := by
      simp [baseFields, record, Rust.asU32_of_lt hattempt]
    refine ⟨sub.request.attempt, sub.request.maxAttempts.getD 25, core.pending, ?_, ?_, ?_, ?_⟩
    · rw [requiredField_of_unused (hunused _ (by decide)) hbase.1, parse_numeral rt hattempt]
    · rw [requiredField_of_unused (hunused _ (by decide)) (sub.lookup_baseFields_maxAttempts rt),
        parse_numeral rt hmax]
    · rw [requiredField_of_unused (hunused _ (by decide)) hbase.2, ← core.print_pending,
        core.parse_printStatus]
    · have hkey : (sub.pushedFields rt).lookup "idempotency_key" =
          some (sub.request.idempotencyKey.getD "") := by
        rw [lookup_of_unused sub rt (hunused _ (by decide)), lookup_baseFields_idempotencyKey]
      have hlock : (sub.pushedFields rt).lookup "locked_by" = none := by
        rw [lookup_of_unused sub rt (hunused _ (by decide))]
        simp [baseFields]
      refine ⟨rfl, rfl, rfl, rfl, ?_, rfl, hlock, (sub.eraseAll_pushedFields_eq_iff rt).mpr hunused⟩
      change ((sub.pushedFields rt).lookup "idempotency_key").filter _ = _
      rw [hkey]
      cases sub.request.idempotencyKey <;> rfl

end Submission

/-- The push stores the record, in the state that its loop has reached. -/
def Store.Accepts (s : Store) (rt : Runtime) (r : PushRecord) : Prop :=
  s.KeyFree r ∧ r.taskId ∉ s.jobData ∧ rt.Fits (2 * (pushMeta rt r).length)

/-- The record is stored as it was pushed, and nobody holds it. -/
structure Store.Fresh (s : Store) (rt : Runtime) (r : PushRecord) : Prop where
  data : s.jobData.lookup r.taskId = some r.taskData
  fields : s.jobMeta r.taskId = Hash.setAll ∅ (pushMeta rt r)
  free : ∀ worker, r.taskId ∉ s.inflightJobs worker

/-- Only the data, the metadata and the inflight sets matter. -/
theorem Store.Fresh.congr
    {s t : Store}
    {rt : Runtime}
    {r : PushRecord}
    (h : s.Fresh rt r)
    (hdata : t.jobData = s.jobData)
    (hmeta : t.jobMeta = s.jobMeta)
    (hinflight : t.inflightJobs = s.inflightJobs) :
    t.Fresh rt r := by
  refine ⟨?_, ?_, ?_⟩
  · rw [hdata]
    exact h.data
  · rw [hmeta]
    exact h.fields
  · rw [hinflight]
    exact h.free

/-- Unknown ids have no metadata. -/
def Store.Blank (s : Store) : Prop :=
  ∀ id ∉ s.jobData, s.jobMeta id = ∅

/-- What may happen to a waiting task: nobody fetches it, nobody vacuums. -/
def waiting (rt : Runtime) : Powers where
  register _ := True
  push _ := True
  deliver := False
  stash := ∃ n, ¬rt.Fits n
  discard := False

section Waiting

variable {rt : Runtime} {may : Powers} {s t : Store}

/-- Nobody holds an unknown task. -/
theorem Reflects.unheld
    {b : Board}
    (h : Reflects s b)
    {id : String}
    (hunknown : id ∉ s.jobData)
    (worker : String) :
    id ∉ s.inflightJobs worker := by
  intro hheld
  rw [h.mem_inflight, h.unknown hunknown] at hheld
  cases hheld

theorem Move.blank
    (hdiscard : ¬may.discard)
    (hmove : Move rt may s t)
    (hunheld : ∀ id ∉ s.jobData, ∀ worker, id ∉ s.inflightJobs worker)
    (hs : s.Blank) :
    t.Blank := by
  intro id hid
  have hunknown : id ∉ s.jobData := fun hold => hid (hmove.stored hdiscard hold)
  rw [hmove.jobMeta_eq hdiscard (fun hnew => absurd hnew hid) (hunheld id hunknown)]
  exact hs id hunknown

theorem Reflects.blank
    {b : Board}
    (hdiscard : ¬may.discard)
    (h : Reflects s b)
    (hmove : Move rt may s t)
    (hs : s.Blank) :
    t.Blank :=
  hmove.blank hdiscard (fun _ hunknown => h.unheld hunknown) hs

/-- **A move other than a delivery leaves a waiting task as it is.** -/
theorem Move.fresh
    (hdiscard : ¬may.discard)
    (hdeliver : ¬may.deliver)
    (hmove : Move rt may s t)
    {r : PushRecord}
    (hs : s.Fresh rt r) :
    t.Fresh rt r := by
  have hstored : r.taskId ∈ s.jobData := Finmap.mem_of_lookup_eq_some hs.data
  refine ⟨?_, ?_, hmove.unheld hdeliver hs.free⟩
  · rw [hmove.lookup_jobData hdiscard hstored]
    exact hs.data
  · rw [hmove.jobMeta_eq hdiscard (fun _ => hstored) hs.free]
    exact hs.fields

theorem fresh_of_moves
    (hmoves : Moves rt (waiting rt) s t)
    {r : PushRecord}
    (hs : s.Fresh rt r) :
    t.Fresh rt r :=
  Systems.preserved (I := fun s => s.Fresh rt r)
    (fun _ _ hmove hu => hmove.fresh (fun hd => hd) (fun hd => hd) hu) hmoves hs

/-- What the push of one record leaves is fresh. -/
theorem fresh_of_submit
    (hs : s.Blank)
    (r : PushRecord)
    (hnew : r.taskId ∉ s.jobData)
    (hunheld : ∀ worker, r.taskId ∉ s.inflightJobs worker) :
    (s.submit rt r).Fresh rt r := by
  refine ⟨?_, ?_, hunheld⟩
  · simp [Store.submit]
  · simp [Store.submit, hs r.taskId hnew]

end Waiting

section Runs

variable (rt : Runtime) (queue : String)

theorem Call.within_waiting
    (c : Call) :
    c.Within (waiting rt) ∨ ∃ now batchSize worker, c = .fetchNext now batchSize worker := by
  cases c with
  | pushTasks ttl emitEvents batch => exact .inl fun _ _ => trivial
  | handleResults worker emitEvents batch => exact .inl fun _ _ => trivial
  | fetchNext now batchSize worker => exact .inr ⟨now, batchSize, worker, rfl⟩
  | _ => exact .inl trivial

theorem promoted_keeps
    (now : Nat)
    (s : Store) :
    (s.promoted now).jobData = s.jobData ∧ (s.promoted now).jobMeta = s.jobMeta := by
  unfold Store.promoted
  split <;> exact ⟨rfl, rfl⟩

/-- A fetch changes neither data nor metadata. -/
theorem fetchNext_keeps
    (now batchSize : Nat)
    (worker : String)
    (s : Store) :
    (((Call.fetchNext now batchSize worker).exec rt queue).run s).2.jobData = s.jobData ∧
      (((Call.fetchNext now batchSize worker).exec rt queue).run s).2.jobMeta = s.jobMeta := by
  rw [Call.exec, run_map_snd]
  rcases fetchNext_cases rt queue worker now batchSize s with
    ⟨-, message, hrun⟩ | ⟨-, -, hrun⟩ | ⟨-, -, hrun⟩
  · rw [fetchNextScript, hrun]
    exact ⟨rfl, rfl⟩
  · rw [fetchNextScript, hrun]
    exact promoted_keeps now s
  · rw [fetchNextScript, hrun]
    exact promoted_keeps now s

/-- **A call that does not deliver a waiting task leaves it as it is.** -/
theorem fresh_exec
    (c : Call)
    {s : Store}
    {r : PushRecord}
    (hs : s.Fresh rt r)
    (hfree : ∀ worker, r.taskId ∉ ((c.exec rt queue).run s).2.inflightJobs worker) :
    ((c.exec rt queue).run s).2.Fresh rt r := by
  rcases c.within_waiting rt with hwithin | ⟨now, batchSize, worker, rfl⟩
  · have hstash : ∀ n, ¬rt.Fits n → (waiting rt).stash := fun n hn => ⟨n, hn⟩
    exact fresh_of_moves (c.movesBy queue hstash hwithin s) hs
  · obtain ⟨hdata, hmeta⟩ := fetchNext_keeps rt queue now batchSize worker s
    refine ⟨?_, ?_, hfree⟩
    · rw [hdata]
      exact hs.data
    · rw [hmeta]
      exact hs.fields

/-- Until its first delivery, a task is stored as it was pushed. -/
theorem fresh_run
    {r : PushRecord} :
    ∀ (calls : List Call) (s : Store), s.Fresh rt r →
      (∀ early, early <+: calls → ∀ worker, r.taskId ∉ (run rt queue early s).inflightJobs worker) →
      (run rt queue calls s).Fresh rt r
  | [], _, hs, _ => hs
  | c :: calls, s, hs, hfree => by
      have hnext := fresh_exec rt queue c hs (hfree [c] (by simp))
      refine fresh_run calls _ hnext fun early hearly worker => ?_
      exact hfree (c :: early) (List.cons_prefix_cons.mpr ⟨rfl, hearly⟩) worker

/-- After it has stored a record, a push moves no waiting task. -/
theorem moves_after_accepted
    (ttl : Nat)
    (emitEvents : Bool)
    (before after : List PushRecord)
    (r : PushRecord)
    {s u : Store}
    {counts : Nat × Nat}
    (hreached : (before.foldlM (pushTaskAt rt queue ttl emitEvents) (0, 0)).run s =
      (.ok counts, u))
    (haccepts : u.Accepts rt r) :
    Moves rt (waiting rt) ((u.claimKey ttl r).submit rt r)
      (((Call.pushTasks ttl emitEvents (before ++ r :: after)).exec rt queue).run s).2 := by
  have hstash : ∀ n, ¬rt.Fits n → (waiting rt).stash := fun n hn => ⟨n, hn⟩
  obtain ⟨hfree, hnew, hfits⟩ := haccepts
  have hone := run_pushTaskAt rt queue ttl emitEvents counts r u
  rw [if_pos ⟨hfree, hnew⟩, if_pos hfits] at hone
  have hsaid : Move rt (waiting rt) ((u.claimKey ttl r).submit rt r)
      (((u.claimKey ttl r).submit rt r).say (emitEvents && r.scheduleTime = 0)
        ("tasks:" ++ (queue ++ ":active") ++ ":available") r.taskId) :=
    .bookkeep (SameTasks.say ..)
  have hrest := pushLoop_movesBy queue hstash ttl emitEvents after (fun _ _ => trivial)
    (if 0 < r.scheduleTime then (counts.1, counts.2 + 1) else (counts.1 + 1, counts.2))
    (((u.claimKey ttl r).submit rt r).say (emitEvents && r.scheduleTime = 0)
      ("tasks:" ++ (queue ++ ":active") ++ ":available") r.taskId)
  rw [Call.exec, run_map_snd, run_pushTasks, List.foldlM_append, run_bind_ok hreached,
    List.foldlM_cons, run_bind_ok hone]
  refine (Relation.ReflTransGen.single hsaid).trans ?_
  unfold MovesBy at hrest
  generalize (after.foldlM (pushTaskAt rt queue ttl emitEvents) _).run _ = outcome at hrest ⊢
  obtain ⟨_ | total, v⟩ := outcome
  · exact hrest
  · change Moves rt (waiting rt) _ (if 0 < total.1 then v.wake else v)
    split
    · exact hrest.tail (.bookkeep (SameTasks.wake v))
    · exact hrest

/-- An accepted record is fresh after the whole push. -/
theorem fresh_of_accepted
    (ttl : Nat)
    (emitEvents : Bool)
    (before after : List PushRecord)
    (r : PushRecord)
    {s u : Store}
    {counts : Nat × Nat}
    (hreached : (before.foldlM (pushTaskAt rt queue ttl emitEvents) (0, 0)).run s =
      (.ok counts, u))
    (hblank : u.Blank)
    (hunheld : ∀ worker, r.taskId ∉ u.inflightJobs worker)
    (haccepts : u.Accepts rt r) :
    (((Call.pushTasks ttl emitEvents (before ++ r :: after)).exec rt queue).run s).2.Fresh
      rt r := by
  have hsubmitted : ((u.claimKey ttl r).submit rt r).Fresh rt r :=
    (fresh_of_submit hblank r haccepts.2.1 hunheld).congr rfl rfl rfl
  exact fresh_of_moves (moves_after_accepted rt queue ttl emitEvents before after r hreached
    haccepts) hsubmitted

/-- Without vacuums, unknown ids have no metadata along a run. -/
theorem blank_of_moves
    {s t : Store}
    {b : Board}
    (h : Reflects s b)
    (hblank : s.Blank)
    (hmoves : Moves rt (persistence rt) s t) :
    t.Blank ∧ ∃ b', Reflects t b' := by
  refine Systems.preserved (I := fun s => Store.Blank s ∧ ∃ b, Reflects s b) ?_ hmoves
    ⟨hblank, b, h⟩
  rintro s t hmove ⟨hblank, b, hb⟩
  obtain ⟨b', -, hb'⟩ := move_simulates (fun hd => hd) _ _ b hmove hb
  exact ⟨hb.blank (fun hd => hd) hmove hblank, b', hb'⟩

/-- The state that a push has reached inside its batch is reached by moves. -/
theorem blank_reached
    (calls : List Call)
    (ttl : Nat)
    (emitEvents : Bool)
    (batch : List PushRecord)
    {u : Store}
    {counts : Nat × Nat}
    (hreached : (batch.foldlM (pushTaskAt rt queue ttl emitEvents) (0, 0)).run
      (run rt queue calls Store.empty) = (.ok counts, u)) :
    u.Blank ∧ ∃ b, Reflects u b := by
  have hstash : ∀ n, ¬rt.Fits n → (persistence rt).stash := fun n hn => ⟨n, hn⟩
  have hloop := pushLoop_movesBy queue hstash ttl emitEvents batch (fun _ _ => trivial) (0, 0)
    (run rt queue calls Store.empty)
  unfold MovesBy at hloop
  rw [hreached] at hloop
  exact blank_of_moves rt reflects_empty (fun _ _ => rfl)
    ((moves_persistence rt queue calls Store.empty).trans hloop)

end Runs

section Delivery

variable (core : Core) (rt : Runtime) (cfg : Config)

/-- In the run of the calls nobody holds the task, and then the fetch puts it
into the worker's inflight set. -/
def FirstDelivers (now : Nat) (worker id : String) (calls : List Call) (s : Store) : Prop :=
  (∀ early, early <+: calls → ∀ w, id ∉ (run rt cfg.queue early s).inflightJobs w) ∧
    id ∈ ((fetchTasks core rt cfg now worker).run
      (run rt cfg.queue calls s)).2.inflightJobs worker

/-- The fetch succeeds, and the submitted task is among those returned. -/
def ReturnsAsPushed (now : Nat) (worker : String) (sub : Submission core) (s : Store) : Prop :=
  ∃ tasks, ((fetchTasks core rt cfg now worker).run s).1 = .ok tasks ∧
    ∃ task ∈ tasks, sub.SameTask task

variable {core rt cfg}

/-- A fetch that puts a task in flight gets past all of the script's checks. -/
theorem run_of_delivers
    {now : Nat}
    {worker id : String}
    {s : Store}
    (hfree : id ∉ s.inflightJobs worker)
    (hheld : id ∈ ((fetchTasks core rt cfg now worker).run s).2.inflightJobs worker) :
    id ∈ s.nextIds cfg now ∧
      ((fetchTasks core rt cfg now worker).run s).1 =
        ((s.nextIds cfg now).mapM (s.taskAt core)).map fun tasks =>
          tasks.map CompactTask.intoFullCompact := by
  rcases fetchTasks_cases core rt cfg now worker s with
    ⟨-, message, hrun⟩ | ⟨-, -, hrun⟩ | ⟨-, -, hrun⟩ <;> rw [hrun] at hheld
  · exact absurd hheld hfree
  · change id ∈ (s.promoted now).inflightJobs worker at hheld
    rw [inflightJobs_promoted] at hheld
    exact absurd hheld hfree
  · change id ∈ (s.fetched cfg now worker).inflightJobs worker at hheld
    rw [inflight_fetched, Finset.mem_union, or_iff_right hfree, List.mem_toFinset] at hheld
    exact ⟨hheld, by rw [hrun]⟩

/-- A fresh task is decoded as it was submitted exactly when it is representable. -/
theorem sameTask_of_fresh
    {s : Store}
    {sub : Submission core}
    (hid : core.parseTaskId sub.record.taskId = .ok sub.taskId)
    (hfresh : s.Fresh rt sub.record) :
    (∃ task, s.taskAt core sub.record.taskId = .ok task ∧ sub.SameTask task.intoFullCompact) ↔
      sub.Representable := by
  have hfields : s.jobMeta sub.record.taskId = sub.pushedFields rt := hfresh.fields
  have hdata : s.jobData.lookup sub.record.taskId = some sub.request.args := hfresh.data
  rw [← sub.sameTask_iff rt]
  constructor
  · rintro ⟨task, htask, hsame⟩
    obtain ⟨data, taskId, attempts, maxAttempts, status, hd, hi, ha, hm, hs, rfl⟩ :=
      taskAt_eq_ok.mp htask
    rw [hdata] at hd
    rw [hid] at hi
    cases hd
    cases hi
    rw [hfields] at ha hm hs hsame
    exact ⟨attempts, maxAttempts, status, ha, hm, hs, hsame⟩
  · rintro ⟨attempts, maxAttempts, status, ha, hm, hs, hsame⟩
    rw [← hfields] at ha hm hs hsame
    exact ⟨_, taskAt_eq_ok.mpr
      ⟨_, sub.taskId, attempts, maxAttempts, status, hdata, hid, ha, hm, hs, rfl⟩, hsame⟩

/-- A task that was returned under an id was decoded from what is stored for the id. -/
theorem taskAt_of_decoded
    {s : Store}
    {ids : List String}
    (hback : ∀ id ∈ ids, core.ReadsBack id)
    {compacts : List (CompactTask core)}
    (hdecoded : ids.mapM (s.taskAt core) = .ok compacts)
    {task : RedisTask core}
    (htask : task ∈ compacts.map CompactTask.intoFullCompact)
    {taskId : core.TaskId}
    (hid : task.taskId = some taskId) :
    ∃ compact, s.taskAt core (core.printTaskId taskId) = .ok compact ∧
      compact.intoFullCompact = task := by
  obtain ⟨compact, hcompact, rfl⟩ := List.mem_map.mp htask
  have hrow : (.ok compact : Except String _) ∈ ids.map (s.taskAt core) := by
    rw [mapM_eq_ok.mp hdecoded]
    exact List.mem_map_of_mem hcompact
  obtain ⟨id, hmem, htaskAt⟩ := List.mem_map.mp hrow
  have hown : core.printTaskId taskId = id := by
    have hread : core.reread id = .ok (core.printTaskId compact.taskId) :=
      reread_of_taskAt htaskAt
    rw [hback id hmem] at hread
    rw [Except.ok.inj hread]
    exact congrArg core.printTaskId (Option.some.inj hid).symm
  exact ⟨compact, hown ▸ htaskAt, rfl⟩

/-- The same for the whole batch in which the task is delivered. -/
theorem returnsAsPushed_of_fresh
    {now : Nat}
    {worker : String}
    {s : Store}
    {sub : Submission core}
    (hcodec : core.ParsesPrinted)
    (hback : ∀ id ∈ s.nextIds cfg now, core.ReadsBack id)
    (hfresh : s.Fresh rt sub.record)
    (hheld : sub.record.taskId ∈
      ((fetchTasks core rt cfg now worker).run s).2.inflightJobs worker) :
    ReturnsAsPushed core rt cfg now worker sub s ↔
      sub.Representable ∧
        ∀ id ∈ s.nextIds cfg now, id ≠ sub.record.taskId → s.WellFormed core id := by
  obtain ⟨hnext, hresult⟩ := run_of_delivers (hfresh.free worker) hheld
  unfold ReturnsAsPushed
  rw [hresult, ← sameTask_of_fresh (hcodec sub.taskId) hfresh]
  constructor
  · rintro ⟨returned, hok, returnedTask, hmem, hsame⟩
    cases hdecoded : (s.nextIds cfg now).mapM (s.taskAt core) with
    | error message =>
        rw [hdecoded] at hok
        cases hok
    | ok tasks =>
        rw [hdecoded] at hok
        cases hok
        obtain ⟨task, htaskAt, rfl⟩ :=
          taskAt_of_decoded hback hdecoded hmem hsame.taskId
        refine ⟨⟨task, htaskAt, hsame⟩, fun id' hid' _ => ?_⟩
        exact (exists_taskAt core s).mp (exists_mapM_eq_ok.mp ⟨tasks, hdecoded⟩ id' hid')
  · rintro ⟨⟨task, htask, hsame⟩, hothers⟩
    have hall : ∀ id ∈ s.nextIds cfg now, ∃ task, s.taskAt core id = .ok task := by
      intro id hid
      by_cases hown : id = sub.record.taskId
      · exact ⟨task, hown ▸ htask⟩
      · exact (exists_taskAt core s).mpr (hothers id hid hown)
    obtain ⟨tasks, hdecoded⟩ := exists_mapM_eq_ok.mpr hall
    have hmem : (.ok task : Except String _) ∈ tasks.map .ok := by
      rw [← mapM_eq_ok.mp hdecoded, ← htask]
      exact List.mem_map_of_mem hnext
    obtain ⟨task', htask', heq⟩ := List.mem_map.mp hmem
    cases heq
    refine ⟨tasks.map CompactTask.intoFullCompact, ?_, _, List.mem_map_of_mem htask', hsame⟩
    rw [hdecoded]
    rfl

/-- **When a pushed task is fetched as it was pushed**, after any calls before
the push and any calls that do not deliver it in between. -/
theorem push_fetch_identity_iff
    (hcodec : core.ParsesPrinted)
    (before between : List Call)
    (hbefore : ∀ c ∈ before, c.Within (clients core))
    (hbetween : ∀ c ∈ between, c.Within (clients core))
    (ttl : Nat)
    (emitEvents : Bool)
    (pre post : List (Submission core))
    (sub : Submission core)
    (now : Nat)
    (worker : String)
    {counts : Nat × Nat}
    {u : Store}
    (hreached : ((pre.map Submission.record).foldlM
      (pushTaskAt rt cfg.queue ttl emitEvents) (0, 0)).run (run rt cfg.queue before Store.empty) =
        (.ok counts, u))
    (haccepts : u.Accepts rt sub.record)
    {s t : Store}
    (hs : run rt cfg.queue (before ++ [.submit ttl emitEvents (pre ++ sub :: post)])
      Store.empty = s)
    (ht : run rt cfg.queue between s = t)
    (hfirst : FirstDelivers core rt cfg now worker sub.record.taskId between s) :
    ReturnsAsPushed core rt cfg now worker sub t ↔
      sub.Representable ∧
        ∀ id ∈ t.nextIds cfg now, id ≠ sub.record.taskId → t.WellFormed core id := by
  subst hs
  subst ht
  obtain ⟨hfree, hheld⟩ := hfirst
  obtain ⟨hblank, b, hb⟩ := blank_reached rt cfg.queue before ttl emitEvents _ hreached
  have hpushed : (run rt cfg.queue (before ++ [.submit ttl emitEvents (pre ++ sub :: post)])
      Store.empty).Fresh rt sub.record := by
    have haccepted := fresh_of_accepted rt cfg.queue ttl emitEvents (pre.map Submission.record)
      (post.map Submission.record) sub.record hreached hblank (hb.unheld haccepts.2.1) haccepts
    rw [run_append, Call.submit, List.map_append, List.map_cons]
    exact haccepted
  have hfresh := fresh_run rt cfg.queue between _ hpushed hfree
  have hback := readsBack_nextIds core rt cfg now hcodec _
    (within_aroundSubmit (before.map .call) (between.map .call) (List.forall_mem_map.mpr hbefore)
      (List.forall_mem_map.mpr hbetween) ttl emitEvents (pre ++ sub :: post))
  refine returnsAsPushed_of_fresh hcodec ?_ hfresh hheld
  rw [← run_append, ← runOps_map_call, List.map_append, List.map_append]
  exact hback

end Delivery

/-- The queue after a worker registered and one task was pushed. -/
def onePushed (sub : Submission Core.text) : Store :=
  run (.ascending none) Config.default.queue ([registerW] ++ [.submit 0 true [sub]]) Store.empty

/-- Nobody holds the task when the one registered worker does not. -/
theorem unheld_of_registered
    {s : Store}
    (hregistered : s.Registered)
    (worker : String)
    {id : String}
    (hkeys : s.workers.keys = {worker})
    (hid : id ∉ s.inflightJobs worker) :
    ∀ w, id ∉ s.inflightJobs w := by
  intro w hheld
  have hw := hregistered w (Finset.ne_empty_of_mem hheld)
  rw [← Finmap.mem_keys, hkeys, Finset.mem_singleton] at hw
  exact hid (hw ▸ hheld)

theorem registered_onePushed
    (sub : Submission Core.text) :
    (onePushed sub).Registered := by
  rw [onePushed, ← runOps_map_call]
  exact registered_runOps _ _ _

/-- A task whose metadata use no name of the queue. -/
def keptPush : Submission Core.text :=
  plainPush "t" (Finmap.singleton "k" "v")

theorem keptPush_returned :
    ReturnsAsPushed Core.text (.ascending none) .default 12 "w" keptPush (onePushed keptPush) := by
  have hfirst : FirstDelivers Core.text (.ascending none) .default 12 "w" "t" []
      (onePushed keptPush) := by
    refine ⟨fun early hearly => ?_, by decide +kernel⟩
    rw [List.prefix_nil.mp hearly]
    have hkeys : (onePushed keptPush).workers.keys = {"w"} := by
      decide +kernel
    exact unheld_of_registered (registered_onePushed keptPush) "w" hkeys (by decide +kernel)
  have hids : (onePushed keptPush).nextIds .default 12 = ["t"] := by
    decide +kernel
  refine (push_fetch_identity_iff Core.text_parsesPrinted [registerW] []
    (by simp [registerW, Call.Within, clients]) (by simp) 0 true [] [] keptPush 12 "w" rfl ?_ rfl
    rfl hfirst).mpr ⟨?_, fun id hid hother => ?_⟩
  · unfold Store.Accepts
    decide +kernel
  · exact ⟨by decide, by decide, by decide +kernel⟩
  · change id ∈ (onePushed keptPush).nextIds .default 12 at hid
    rw [hids] at hid
    exact absurd (List.mem_singleton.mp hid) hother

/-- A task whose metadata use the name of the attempts count. -/
def clashingPush : Submission Core.text :=
  plainPush "t" (Finmap.singleton "attempts" "x")

/-- It is accepted, and the fetch that delivers it fails. -/
theorem clashingPush_not_returned :
    (run (.ascending none) Config.default.queue [registerW] Store.empty).Accepts
        (.ascending none) clashingPush.record ∧
      FirstDelivers Core.text (.ascending none) .default 12 "w" "t" [] (onePushed clashingPush) ∧
      ¬ReturnsAsPushed Core.text (.ascending none) .default 12 "w" clashingPush
        (onePushed clashingPush) := by
  refine ⟨?_, ⟨fun early hearly => ?_, by decide +kernel⟩, ?_⟩
  · unfold Store.Accepts
    decide +kernel
  · rw [List.prefix_nil.mp hearly]
    have hkeys : (onePushed clashingPush).workers.keys = {"w"} := by
      decide +kernel
    exact unheld_of_registered (registered_onePushed clashingPush) "w" hkeys (by decide +kernel)
  · rintro ⟨tasks, hok, -⟩
    have hfails : ((fetchTasks Core.text (.ascending none) .default 12 "w").run
        (onePushed clashingPush)).1.isOk = false := by
      decide +kernel
    rw [hok] at hfails
    cases hfails

end ApalisRedis
