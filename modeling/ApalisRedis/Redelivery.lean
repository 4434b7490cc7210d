import ApalisRedis.RoundTrip
import ApalisRedis.VacuumSafety

/-!
# Later deliveries of a task

A task may be delivered again, after it was given back, recovered or tried in
vain.  The scripts keep their own fields of a task in the hash from which its
metadata are read back, and decoding knows six of them; the outcome of an attempt
adds two more.

**Results.**
* `Move.lookup_jobMeta`: the fields that no move touches.
* `redelivered_iff`: when a later delivery hands over what was pushed.
-/

namespace ApalisRedis

open Lua Redis Script

/-- The fields that leasing, releasing and acknowledging rewrite. -/
def rewrittenFields : List String :=
  ["attempts", "status", "locked_by", "locked_at"]

/-- The fields that only an acknowledgement writes. -/
def outcomeFields : List String :=
  ["result", "done_at"]

/-- What does not depend on how often the task was tried. -/
structure Submission.HandedOver {core : Core} (sub : Submission core) (task : RedisTask core) :
    Prop where
  args : task.args = sub.request.args
  maxAttempts : task.maxAttempts = some (sub.request.maxAttempts.getD 25)
  idempotencyKey : task.idempotencyKey = sub.request.idempotencyKey
  metadata : task.metadata = sub.request.metadata

section Moves

variable {rt : Runtime} {may : Powers} {s t : Store}

/-- **The fields that no move touches.** -/
theorem Move.lookup_jobMeta
    (hdiscard : ¬may.discard)
    (hmove : Move rt may s t)
    {id : String}
    (hid : id ∈ s.jobData)
    {field : String}
    (hfield : field ∉ rewrittenFields)
    (hack : ∀ r, may.ack r → r.taskId = id → field ∉ outcomeFields) :
    (t.jobMeta id).lookup field = (s.jobMeta id).lookup field := by
  simp only [rewrittenFields, List.mem_cons, List.not_mem_nil, or_false, not_or] at hfield
  obtain ⟨hattempts, hstatus, hlockedBy, hlockedAt⟩ := hfield
  cases hmove with
  | bookkeep hsame => rw [hsame.jobMeta]
  | submit r hnew =>
      have hne : id ≠ r.taskId := by
        rintro rfl
        exact hnew hid
      exact congrArg (Finmap.lookup field) (Function.update_of_ne hne _ _)
  | lock worker now taskId hheld =>
      exact Hash.lookup_update_setAll s.jobMeta taskId _ id
        (by simp [hlockedAt, hlockedBy, hstatus])
  | renew worker now taskId hheld =>
      exact Hash.lookup_update_setAll s.jobMeta taskId _ id (by simp [hlockedAt])
  | ack worker r hheld hmay =>
      rcases eq_or_ne id r.taskId with rfl | hne
      · have houtcome := hack r hmay rfl
        simp only [outcomeFields, List.mem_cons, List.not_mem_nil, or_false, not_or] at houtcome
        exact Hash.lookup_update_setAll s.jobMeta r.taskId (ackMeta r) _
          (by simp [ackMeta, houtcome, hstatus, hattempts])
      · exact congrArg (Finmap.lookup field) (Function.update_of_ne hne _ _)
  | release worker taskIds hnd hheld =>
      change (ite _ (Store.resetMeta (s.jobMeta id)) (s.jobMeta id)).lookup field = _
      split
      · rw [Store.resetMeta, Hash.lookup_eraseAll, if_neg (by simp [hlockedAt, hlockedBy]),
          Hash.lookup_setAll_of_notMem _ (by simp [hstatus])]
      · rfl
  | discard taskId hmay => exact absurd hmay hdiscard
  | _ => rfl

/-- The same along several moves, with the data. -/
theorem kept_of_moves
    (hdiscard : ¬may.discard)
    (hmoves : Moves rt may s t)
    {id : String}
    {data : Bytes}
    (hdata : s.jobData.lookup id = some data) :
    t.jobData.lookup id = some data ∧
      ∀ field ∉ rewrittenFields, (∀ r, may.ack r → r.taskId = id → field ∉ outcomeFields) →
        (t.jobMeta id).lookup field = (s.jobMeta id).lookup field := by
  refine Systems.preserved (I := fun u => u.jobData.lookup id = some data ∧
    ∀ field ∉ rewrittenFields, (∀ r, may.ack r → r.taskId = id → field ∉ outcomeFields) →
      (u.jobMeta id).lookup field = (s.jobMeta id).lookup field) ?_ hmoves
    ⟨hdata, fun _ _ _ => rfl⟩
  rintro u v hmove ⟨hu, hfields⟩
  have hstored := Finmap.mem_of_lookup_eq_some hu
  refine ⟨(hmove.lookup_jobData hdiscard hstored).trans hu, fun field hfield hack => ?_⟩
  rw [hmove.lookup_jobMeta hdiscard hstored hfield hack]
  exact hfields field hfield hack

end Moves

section Decoding

variable {core : Core} {rt : Runtime}

/-- The stored fields of the task, besides those of its attempts, are the pushed ones. -/
structure Store.Keeps (s : Store) (rt : Runtime) (sub : Submission core) : Prop where
  data : s.jobData.lookup sub.record.taskId = some sub.request.args
  fields : ∀ field ∉ rewrittenFields, field ∉ outcomeFields →
    (s.jobMeta sub.record.taskId).lookup field = (sub.pushedFields rt).lookup field

/-- The outcome fields are those of the pushed metadata. -/
def Store.OutcomeAsPushed (s : Store) (sub : Submission core) : Prop :=
  ∀ field ∈ outcomeFields,
    (s.jobMeta sub.record.taskId).lookup field = sub.request.metadata.lookup field

/-- The metadata that are read back. -/
theorem eraseAll_eq_metadata_iff
    {s : Store}
    {sub : Submission core}
    (hkeeps : s.Keeps rt sub)
    (hunreserved : ∀ field ∈ reservedFields, field ∉ sub.request.metadata) :
    Hash.eraseAll (s.jobMeta sub.record.taskId) reservedFields = sub.request.metadata ↔
      s.OutcomeAsPushed sub := by
  constructor
  · intro heq field hfield
    rw [← heq, Hash.lookup_eraseAll, if_neg]
    simp only [outcomeFields, List.mem_cons, List.not_mem_nil, or_false] at hfield
    rcases hfield with rfl | rfl <;> decide
  · intro houtcome
    refine Finmap.ext_lookup fun field => ?_
    rw [Hash.lookup_eraseAll]
    split
    · next hfield => rw [Finmap.lookup_eq_none.mpr (hunreserved field hfield)]
    · next hfield =>
        rcases em (field ∈ outcomeFields) with hout | hin
        · exact houtcome field hout
        · have hrewritten : field ∉ rewrittenFields := by
            refine fun h => hfield ?_
            simp only [rewrittenFields, List.mem_cons, List.not_mem_nil, or_false] at h
            rcases h with rfl | rfl | rfl | rfl <;> decide
          rw [hkeeps.fields field hrewritten hin, Submission.lookup_pushedFields,
            sub.lookup_baseFields_of_unreserved rt hfield, Option.or_none]

/-- What a delivery decodes is what was pushed, up to the outcome fields. -/
theorem handedOver_iff
    {s : Store}
    {sub : Submission core}
    (hkeeps : s.Keeps rt sub)
    (hunreserved : ∀ field ∈ reservedFields, field ∉ sub.request.metadata)
    (hnumeral : ∀ n m, 2 ^ 53 ≤ n → Rust.parseUnsigned 32 (rt.numeral n) ≠ .ok m)
    {task : CompactTask core}
    (htask : s.taskAt core sub.record.taskId = .ok task) :
    sub.HandedOver task.intoFullCompact ↔
      s.OutcomeAsPushed sub ∧ sub.request.idempotencyKey ≠ some "" := by
  obtain ⟨data, taskId, attempts, maxAttempts, status, hdata, -, -, hm, -, rfl⟩ :=
    taskAt_eq_ok.mp htask
  rw [← eraseAll_eq_metadata_iff hkeeps hunreserved]
  have hkey : (s.jobMeta sub.record.taskId).lookup "idempotency_key" =
      some (sub.request.idempotencyKey.getD "") := by
    rw [hkeeps.fields _ (by decide) (by decide),
      sub.lookup_of_unused rt (hunreserved _ (by decide)), sub.lookup_baseFields_idempotencyKey]
  have hread : ((s.jobMeta sub.record.taskId).lookup "idempotency_key").filter
      (fun key => key ≠ "") = sub.request.idempotencyKey ↔
        sub.request.idempotencyKey ≠ some "" := by
    rw [hkey]
    rcases sub.request.idempotencyKey with _ | key
    · simp
    · rcases eq_or_ne key "" with rfl | hne
      · simp
      · simp [Option.filter, hne]
  refine ⟨fun h => ⟨h.metadata, hread.mp h.idempotencyKey⟩, fun ⟨hmetadata, hnonempty⟩ =>
    ⟨?_, ?_, hread.mpr hnonempty, hmetadata⟩⟩
  · exact Option.some.inj (hdata.symm.trans hkeeps.data)
  · obtain ⟨text, htext, hparse⟩ := requiredField_eq_ok.mp hm
    have hstored : (s.jobMeta sub.record.taskId).lookup "max_attempts" =
        some (rt.numeral (sub.request.maxAttempts.getD 25)) := by
      rw [hkeeps.fields _ (by decide) (by decide),
        sub.lookup_of_unused rt (hunreserved _ (by decide)), sub.lookup_baseFields_maxAttempts]
    obtain rfl := Option.some.inj (htext.symm.trans hstored)
    rcases Nat.lt_or_ge (sub.request.maxAttempts.getD 25) (2 ^ 53) with hlt | hge
    · rw [rt.numeral_exact hlt, Rust.parseUnsigned_repr] at hparse
      split at hparse
      · exact congrArg some (Except.ok.inj hparse).symm
      · cases hparse
    · exact absurd hparse (hnumeral _ _ hge)

end Decoding

section Vacuums

variable (rt : Runtime) (queue : String)

/-- A vacuum keeps what deleting one task keeps. -/
theorem vacuum_keeps
    {I : Store → Prop}
    (hdiscard : ∀ u taskId, I u → I (u.discard taskId))
    {s : Store}
    (hs : I s) :
    I ((vacuumScript rt queue).run s).2 := by
  refine foldlM_keeps (I := I) (rt.members s.jobData.keys) (fun id _ n u hu => ?_) 0 s hs
  rw [run_vacuumTask]
  split
  · exact hdiscard u id hu
  · exact hu

theorem vacuumBefore_keeps
    {I : Store → Prop}
    (hdiscard : ∀ u taskId, I u → I (u.discard taskId))
    (seconds : Nat)
    {s : Store}
    (hs : I s) :
    I ((vacuumBeforeScript rt queue seconds).run s).2 := by
  refine foldlM_keeps (I := I) (rt.members s.jobData.keys) (fun id _ n u hu => ?_) 0 s hs
  rw [run_vacuumTaskBefore]
  split
  · exact hdiscard u id hu
  · exact hu

theorem Store.Blank.discard
    {s : Store}
    (h : s.Blank)
    (taskId : String) :
    (s.discard taskId).Blank := by
  intro id hid
  refine Finmap.ext_lookup fun field => ?_
  rw [Vacuuming.lookup_discard, Finmap.lookup_empty]
  split
  · rfl
  · next hother =>
      have hunknown : id ∉ s.jobData := fun hold =>
        hid (Hash.mem_eraseAll.mpr ⟨by simpa using fun heq => hother (.inl heq), hold⟩)
      rw [h id hunknown, Finmap.lookup_empty]

theorem Store.Intact.unheld
    {s : Store}
    (h : s.Intact)
    {id : String}
    (hunknown : id ∉ s.jobData)
    (worker : String) :
    id ∉ s.inflightJobs worker :=
  fun hheld => hunknown (h id (.inr (.inr ⟨worker, hheld⟩))).1

variable {rt}

/-- Without deletions, unknown ids stay without metadata. -/
theorem blank_intact_of_moves
    {s t : Store}
    (hmoves : Moves rt (persistence rt) s t)
    (hs : s.Blank ∧ s.Intact) :
    t.Blank ∧ t.Intact := by
  refine Systems.preserved (I := fun u => Store.Blank u ∧ Store.Intact u) ?_ hmoves hs
  rintro u v hmove ⟨hblank, hintact⟩
  exact ⟨hmove.blank (fun hd => hd) (fun _ hunknown => hintact.unheld hunknown) hblank,
    hmove.intact (fun hd => hd) hintact⟩

/-- So do they when the vacuums spare the live tasks. -/
theorem blank_intact_runOps :
    ∀ (ops : List Op) (s : Store), SparingRun rt queue ops s → s.Blank ∧ s.Intact →
      (runOps rt queue ops s).Blank ∧ (runOps rt queue ops s).Intact
  | [], _, _, hs => hs
  | op :: ops, s, hrun, hs => by
      refine blank_intact_runOps ops _ hrun.2 ⟨?_, op.intact rt queue hrun.1 hs.2⟩
      cases op with
      | call c => exact (blank_intact_of_moves (moves_persistence rt queue [c] s) hs).1
      | vacuum => exact vacuum_keeps rt queue (fun _ taskId hu => hu.discard taskId) hs.1
      | vacuumBefore seconds =>
          exact vacuumBefore_keeps rt queue (fun _ taskId hu => hu.discard taskId) seconds hs.1

/-- The state that a push has reached inside its batch. -/
theorem blank_intact_reached
    (before : List Op)
    (hspares : SparingRun rt queue before Store.empty)
    (ttl : Nat)
    (emitEvents : Bool)
    (batch : List PushRecord)
    {u : Store}
    {counts : Nat × Nat}
    (hreached : (batch.foldlM (pushTaskAt rt queue ttl emitEvents) (0, 0)).run
      (runOps rt queue before Store.empty) = (.ok counts, u)) :
    u.Blank ∧ u.Intact := by
  have hstash : ∀ n, ¬rt.Fits n → (persistence rt).stash := fun n hn => ⟨n, hn⟩
  have hempty : Store.empty.Intact := fun id hlive => absurd hlive (Store.not_live_empty id)
  have hloop := pushLoop_movesBy queue hstash ttl emitEvents batch (fun _ _ => trivial) (0, 0)
    (runOps rt queue before Store.empty)
  unfold MovesBy at hloop
  rw [hreached] at hloop
  exact blank_intact_of_moves hloop
    (blank_intact_runOps queue before _ hspares ⟨fun _ _ => rfl, hempty⟩)

end Vacuums

/-- The call records an outcome of the task, if it gets to it. -/
def Call.Acknowledges (id : String) : Call → Prop
  | .handleResults _ _ batch => ∃ r ∈ batch, r.taskId = id
  | _ => False

def Op.Acknowledges (id : String) : Op → Prop
  | .call c => c.Acknowledges id
  | _ => False

/-- No vacuum deletes the task; the metadata of the id `result` are also the
result hash, from which every deletion takes a field. -/
def Op.Leaves (rt : Runtime) (s : Store) (id : String) (op : Op) : Prop :=
  ¬op.Deletes rt s id ∧ (id = "result" → ∀ field, ¬op.Deletes rt s field)

/-- A run that never deletes the task. -/
def LeavingRun (rt : Runtime) (queue : String) (id : String) : List Op → Store → Prop
  | [], _ => True
  | op :: ops, s => op.Leaves rt s id ∧ LeavingRun rt queue id ops ((op.exec rt queue).run s).2

/-- Persistence calls that record an outcome of the task only if `acked`. -/
def acknowledging (rt : Runtime) (id : String) (acked : Prop) : Powers where
  register _ := True
  push _ := True
  deliver := True
  stash := ∃ n, ¬rt.Fits n
  discard := False
  ack r := r.taskId = id → acked

theorem Call.within_acknowledging
    (rt : Runtime)
    (id : String)
    (c : Call) :
    c.Within (acknowledging rt id (c.Acknowledges id)) := by
  cases c with
  | pushTasks ttl emitEvents batch => exact fun _ _ => trivial
  | handleResults worker emitEvents batch => exact fun r hr heq => ⟨r, hr, heq⟩
  | _ => exact trivial

section Runs

variable {core : Core} {rt : Runtime} {cfg : Config}

/-- All data of the store are those of the other one. -/
def Store.DataOf (t s : Store) : Prop :=
  ∀ id data, t.jobData.lookup id = some data → s.jobData.lookup id = some data

/-- What a vacuum that does not delete the task keeps. -/
theorem Vacuuming.kept
    {deletes : String → Prop}
    {s t : Store}
    (h : Vacuuming deletes s t)
    (hshrinks : t.DataOf s)
    {id : String}
    (hid : ¬deletes id)
    {data : Bytes}
    (hdata : s.jobData.lookup id = some data) :
    t.jobData.lookup id = some data := by
  have hstored := h.data id (Finmap.mem_of_lookup_eq_some hdata) hid
  obtain ⟨data', hdata'⟩ := Finmap.mem_iff.mp hstored
  rw [hdata', ← hdata, hshrinks id data' hdata']

theorem Store.DataOf.discard
    {s u : Store}
    (hu : u.DataOf s)
    (taskId : String) :
    (u.discard taskId).DataOf s := by
  intro id data hdata
  change (Hash.eraseAll u.jobData [taskId]).lookup id = some data at hdata
  rw [Hash.lookup_eraseAll] at hdata
  split at hdata
  · cases hdata
  · exact hu id data hdata

/-- One operation keeps the task's data and the fields that it does not write. -/
theorem Op.kept
    (queue : String)
    (op : Op)
    {s : Store}
    {id : String}
    (hleaves : op.Leaves rt s id)
    {data : Bytes}
    (hdata : s.jobData.lookup id = some data) :
    ((op.exec rt queue).run s).2.jobData.lookup id = some data ∧
      ∀ field ∉ rewrittenFields, (op.Acknowledges id → field ∉ outcomeFields) →
        (((op.exec rt queue).run s).2.jobMeta id).lookup field = (s.jobMeta id).lookup field := by
  cases op with
  | call c =>
      have hstash : ∀ n, ¬rt.Fits n → (acknowledging rt id (c.Acknowledges id)).stash :=
        fun n hn => ⟨n, hn⟩
      obtain ⟨hkept, hfields⟩ := kept_of_moves (fun hd => hd)
        (c.movesBy queue hstash (c.within_acknowledging rt id) s) hdata
      exact ⟨hkept, fun field hfield hack =>
        hfields field hfield fun r hr heq => hack (hr heq)⟩
  | vacuum =>
      have hvacuum := vacuum_vacuuming rt queue s
      have hshrinks := vacuum_keeps (I := fun u => u.DataOf s) rt queue
        (fun _ taskId hu => hu.discard taskId) fun _ _ h => h
      refine ⟨hvacuum.kept hshrinks hleaves.1 hdata, fun field _ _ => ?_⟩
      exact hvacuum.fields id field hleaves.1 fun heq => hleaves.2 heq field
  | vacuumBefore seconds =>
      have hvacuum := vacuumBefore_vacuuming rt queue seconds s
      have hshrinks := vacuumBefore_keeps (I := fun u => u.DataOf s) rt queue
        (fun _ taskId hu => hu.discard taskId) seconds fun _ _ h => h
      refine ⟨hvacuum.kept hshrinks hleaves.1 hdata, fun field _ _ => ?_⟩
      exact hvacuum.fields id field hleaves.1 fun heq => hleaves.2 heq field

theorem kept_runOps
    (queue : String)
    {id : String}
    {data : Bytes} :
    ∀ (ops : List Op) (s : Store), LeavingRun rt queue id ops s →
      s.jobData.lookup id = some data →
      (runOps rt queue ops s).jobData.lookup id = some data ∧
        ∀ field ∉ rewrittenFields,
          ((∃ op ∈ ops, op.Acknowledges id) → field ∉ outcomeFields) →
          ((runOps rt queue ops s).jobMeta id).lookup field = (s.jobMeta id).lookup field
  | [], _, _, hdata => ⟨hdata, fun _ _ _ => rfl⟩
  | op :: ops, s, hrun, hdata => by
      obtain ⟨hnext, hone⟩ := op.kept queue hrun.1 hdata
      obtain ⟨hlast, hrest⟩ := kept_runOps queue ops _ hrun.2 hnext
      refine ⟨hlast, fun field hfield hack => ?_⟩
      have hlater := hrest field hfield fun ⟨other, hmem, hother⟩ =>
        hack ⟨other, List.mem_cons_of_mem _ hmem, hother⟩
      exact hlater.trans (hone field hfield fun hop => hack ⟨op, List.mem_cons_self, hop⟩)

theorem leavingRun_calls
    (queue id : String) :
    ∀ (calls : List Call) (s : Store), LeavingRun rt queue id (calls.map .call) s
  | [], _ => trivial
  | _ :: calls, _ => ⟨⟨fun hd => hd, fun _ _ hd => hd⟩, leavingRun_calls queue id calls _⟩

/-- A run that does not delete the task keeps it. -/
theorem keeps_run
    {s : Store}
    {sub : Submission core}
    (hfresh : s.Fresh rt sub.record)
    (later : List Op)
    (hleaves : LeavingRun rt cfg.queue sub.record.taskId later s) :
    (runOps rt cfg.queue later s).Keeps rt sub := by
  obtain ⟨hdata, hfields⟩ := kept_runOps cfg.queue later s hleaves hfresh.data
  refine ⟨hdata, fun field hrewritten houtcome => ?_⟩
  rw [hfields field hrewritten fun _ => houtcome, hfresh.fields]
  rfl

/-- Unless it acknowledges the task, it keeps the outcome fields as well. -/
theorem outcome_run
    {s : Store}
    {sub : Submission core}
    (hfresh : s.Fresh rt sub.record)
    (later : List Op)
    (hleaves : LeavingRun rt cfg.queue sub.record.taskId later s)
    (hunacked : ∀ op ∈ later, ¬op.Acknowledges sub.record.taskId) :
    (runOps rt cfg.queue later s).OutcomeAsPushed sub := by
  obtain ⟨-, hfields⟩ := kept_runOps cfg.queue later s hleaves hfresh.data
  intro field hfield
  have hnames : field ∉ rewrittenFields ∧ field ∉ reservedFields := by
    simp only [outcomeFields, List.mem_cons, List.not_mem_nil, or_false] at hfield
    rcases hfield with rfl | rfl <;> decide
  have hkept := hfields field hnames.1 fun ⟨op, hop, hack⟩ => absurd hack (hunacked op hop)
  rw [hkept, hfresh.fields]
  change (sub.pushedFields rt).lookup field = _
  rw [Submission.lookup_pushedFields, sub.lookup_baseFields_of_unreserved rt hnames.2,
    Option.or_none]

/-- The task that a fetch returns at a place was decoded from what is stored for
the id that it handed out there. -/
theorem taskAt_of_returned
    {now : Nat}
    {worker : String}
    {s : Store}
    {tasks : List (RedisTask core)}
    (hok : ((fetchTasks core rt cfg now worker).run s).1 = .ok tasks)
    {i : Nat}
    {id : String}
    (hid : (s.nextIds cfg now)[i]? = some id)
    {task : RedisTask core}
    (htask : tasks[i]? = some task) :
    ∃ compact, s.taskAt core id = .ok compact ∧ compact.intoFullCompact = task := by
  rcases fetchTasks_cases core rt cfg now worker s with
    ⟨-, message, hrun⟩ | ⟨-, -, hrun⟩ | ⟨-, -, hrun⟩
  · rw [hrun] at hok
    cases hok
  · rw [hrun] at hok
    cases hok
  · rw [hrun] at hok
    dsimp only at hok
    cases hdecoded : (s.nextIds cfg now).mapM (s.taskAt core) with
    | error message =>
        rw [hdecoded] at hok
        cases hok
    | ok compacts =>
        rw [hdecoded] at hok
        cases hok
        rw [List.getElem?_map] at htask
        obtain ⟨compact, hcompact, rfl⟩ := Option.map_eq_some_iff.mp htask
        exact ⟨compact, mapM_getElem? hdecoded hid hcompact, rfl⟩

/-- **When a delivery hands over what was pushed**: when the outcome fields are
those of the pushed metadata, and always before the task is acknowledged; an
empty idempotency key comes back as none.  The delivered task is the one at the
place at which the fetch hands out the pushed id. -/
theorem redelivered_iff
    (before later : List Op)
    (hspares : SparingRun rt cfg.queue before Store.empty)
    (ttl : Nat)
    (emitEvents : Bool)
    (pre post : List (Submission core))
    (sub : Submission core)
    (hunreserved : ∀ field ∈ reservedFields, field ∉ sub.request.metadata)
    (hnumeral : ∀ n m, 2 ^ 53 ≤ n → Rust.parseUnsigned 32 (rt.numeral n) ≠ .ok m)
    {counts : Nat × Nat}
    {u : Store}
    (hreached : ((pre.map Submission.record).foldlM
      (pushTaskAt rt cfg.queue ttl emitEvents) (0, 0)).run
        (runOps rt cfg.queue before Store.empty) = (.ok counts, u))
    (haccepts : u.Accepts rt sub.record)
    {s t : Store}
    (hs : runOps rt cfg.queue
      (before ++ [.call (.submit ttl emitEvents (pre ++ sub :: post))]) Store.empty = s)
    (hleaves : LeavingRun rt cfg.queue sub.record.taskId later s)
    (ht : runOps rt cfg.queue later s = t)
    (now : Nat)
    (worker : String)
    {tasks : List (RedisTask core)}
    (hok : ((fetchTasks core rt cfg now worker).run t).1 = .ok tasks)
    {i : Nat}
    (hid : (t.nextIds cfg now)[i]? = some sub.record.taskId)
    {task : RedisTask core}
    (htask : tasks[i]? = some task) :
    (sub.HandedOver task ↔
        t.OutcomeAsPushed sub ∧ sub.request.idempotencyKey ≠ some "") ∧
      ((∀ op ∈ later, ¬op.Acknowledges sub.record.taskId) → t.OutcomeAsPushed sub) := by
  subst hs
  subst ht
  obtain ⟨hblank, hintact⟩ := blank_intact_reached cfg.queue before hspares ttl emitEvents _
    hreached
  have hfresh : (runOps rt cfg.queue
      (before ++ [.call (.submit ttl emitEvents (pre ++ sub :: post))]) Store.empty).Fresh
        rt sub.record := by
    have haccepted := fresh_of_accepted rt cfg.queue ttl emitEvents (pre.map Submission.record)
      (post.map Submission.record) sub.record hreached hblank (hintact.unheld haccepts.2.1)
      haccepts
    rw [runOps_append, Call.submit, List.map_append, List.map_cons]
    exact haccepted
  refine ⟨?_, outcome_run hfresh later hleaves⟩
  obtain ⟨compact, htaskAt, rfl⟩ := taskAt_of_returned hok hid htask
  exact handedOver_iff (keeps_run hfresh later hleaves) hunreserved hnumeral htaskAt

end Runs

/-- A worker fetches a task, and then one more call follows. -/
def afterFirst (last : Call) : Store :=
  runOps (.ascending none) Config.default.queue
    ([Call.fetchNext 12 10 "w", last].map .call)
    (runOps (.ascending none) Config.default.queue
      ([Op.call registerW] ++ [.call (.submit 0 true [keptPush])]) Store.empty)

theorem numeral_unparsed
    (n m : Nat)
    (hn : 2 ^ 53 ≤ n) :
    Rust.parseUnsigned 32 ((Runtime.ascending none).numeral n) ≠ .ok m := by
  change Rust.parseUnsigned 32 n.repr ≠ .ok m
  rw [Rust.parseUnsigned_repr, if_neg (by omega)]
  exact fun h => by cases h

/-- The next fetch hands out the task and nothing else. -/
theorem returned_next
    (last : Call)
    (hlength : ((fetchTasks Core.text (.ascending none) .default 14 "w").run
      (afterFirst last)).1.toOption.map List.length = some 1) :
    ∃ task, ((fetchTasks Core.text (.ascending none) .default 14 "w").run
      (afterFirst last)).1 = .ok [task] := by
  cases hresult : ((fetchTasks Core.text (.ascending none) .default 14 "w").run
      (afterFirst last)).1 with
  | error message =>
      rw [hresult] at hlength
      cases hlength
  | ok tasks =>
      rw [hresult] at hlength
      obtain ⟨task, rfl⟩ := List.length_eq_one_iff.mp (Option.some.inj hlength)
      exact ⟨task, rfl⟩

/-- A task that was released is delivered as it was pushed. -/
theorem released_handed_over :
    (afterFirst (.releaseLeases "w" true [])).nextIds .default 14 = ["t"] ∧
      ∃ task, ((fetchTasks Core.text (.ascending none) .default 14 "w").run
          (afterFirst (.releaseLeases "w" true []))).1 = .ok [task] ∧
        keptPush.HandedOver task := by
  have hids : (afterFirst (.releaseLeases "w" true [])).nextIds .default 14 = ["t"] := by
    decide +kernel
  obtain ⟨task, hok⟩ := returned_next (.releaseLeases "w" true []) (by decide +kernel)
  refine ⟨hids, task, hok, ?_⟩
  have hspares : SparingRun (.ascending none) Config.default.queue [Op.call registerW]
      Store.empty := show True ∧ True from ⟨trivial, trivial⟩
  have haccepts : (run (.ascending none) Config.default.queue [registerW] Store.empty).Accepts
      (.ascending none) keptPush.record := by
    unfold Store.Accepts
    decide +kernel
  have hfirst : ((afterFirst (.releaseLeases "w" true [])).nextIds .default 14)[0]? =
      some keptPush.record.taskId := by
    rw [hids]
    rfl
  have hresult := redelivered_iff [.call registerW]
    ([Call.fetchNext 12 10 "w", .releaseLeases "w" true []].map .call) hspares 0 true [] []
    keptPush (by decide +kernel) numeral_unparsed rfl haccepts rfl (leavingRun_calls _ _ _ _) rfl
    14 "w" hok hfirst rfl
  refine hresult.1.mpr ⟨hresult.2 ?_, by decide⟩
  simp [Op.Acknowledges, Call.Acknowledges]

/-- A task that is tried again comes with the outcome of its first attempt. -/
theorem retried_not_handed_over :
    (afterFirst (.handleResults "w" true [⟨"t", 13, "null", "Failed", 1⟩])).nextIds .default 14 =
        ["t"] ∧
      ∃ task, ((fetchTasks Core.text (.ascending none) .default 14 "w").run
          (afterFirst (.handleResults "w" true [⟨"t", 13, "null", "Failed", 1⟩]))).1 =
            .ok [task] ∧
        ¬keptPush.HandedOver task := by
  obtain ⟨task, hok⟩ := returned_next
    (.handleResults "w" true [⟨"t", 13, "null", "Failed", 1⟩]) (by decide +kernel)
  refine ⟨by decide +kernel, task, hok, fun hsame => ?_⟩
  have hresults : ((fetchTasks Core.text (.ascending none) .default 14 "w").run
      (afterFirst (.handleResults "w" true [⟨"t", 13, "null", "Failed", 1⟩]))).1.toOption.map
        (List.map fun task => task.metadata.lookup "result") = some [some "null"] := by
    decide +kernel
  rw [hok] at hresults
  have hstored : task.metadata.lookup "result" = some "null" :=
    List.cons.inj (Option.some.inj hresults) |>.1
  have hpushed : keptPush.request.metadata.lookup "result" = none := by
    decide +kernel
  rw [hsame.metadata, hpushed] at hstored
  cases hstored

end ApalisRedis
