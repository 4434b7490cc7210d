import ApalisRedis.Acknowledgement
import ApalisRedis.Waiting

/-!
# Lock fields

`acquire_leases.lua` writes who locks a task and since when, next to the status
`Running`.  `release_leases.lua` takes both fields away again; the retry branch of
`handle_results.lua` and `reenqueue_orphaned.lua` give the task back with the
fields that it has.

**Results.**
* `Move.truthful`: the moves of all the other calls keep the lock fields truthful.
* `truthful_runs`: so does a run whose retries and recoveries meet no lock.
-/

namespace ApalisRedis

open Lua Redis Script

/-- The task is not running, and nobody has locked it. -/
structure Idle (h : Hash String) : Prop where
  status : h.lookup "status" ≠ some "Running"
  lockedBy : h.lookup "locked_by" = none
  lockedAt : h.lookup "locked_at" = none

/-- A waiting task is idle, and a running one is held by the worker that has locked it. -/
structure Store.Truthful (s : Store) : Prop where
  waiting : ∀ id, id ∈ s.activeJobs ∨ id ∈ s.scheduledJobs → Idle (s.jobMeta id)
  holder : ∀ id worker, (s.jobMeta id).lookup "locked_by" = some worker →
    (s.jobMeta id).lookup "status" = some "Running" → id ∈ s.inflightJobs worker

/-- The metadata use no name of the queue. -/
def Lua.PushRecord.Unreserved (r : PushRecord) : Prop :=
  ∀ field ∈ reservedFields, field ∉ r.metadata

/-- What a push writes is idle. -/
theorem idle_pushMeta
    (rt : Runtime)
    {r : PushRecord}
    (hr : r.Unreserved) :
    Idle (Hash.setAll ∅ (pushMeta rt r)) := by
  have hlookup : ∀ field ∈ reservedFields,
      (Hash.setAll ∅ (pushMeta rt r)).lookup field =
        (Hash.setAll ∅ [("attempts", rt.numeral r.attempts),
          ("max_attempts", rt.numeral r.maxAttempts), ("status", "Pending"),
          ("idempotency_key", r.idempotencyKey)]).lookup field := by
    intro field hfield
    rw [pushMeta, Hash.setAll_append, rt.lookup_setAll_fields,
      Finmap.lookup_eq_none.mpr (hr field hfield), Option.none_or]
  refine ⟨?_, ?_, ?_⟩ <;> rw [hlookup _ (by decide)] <;> simp

/-- A task that is given back is idle. -/
theorem idle_resetMeta
    (h : Hash String) :
    Idle (Store.resetMeta h) := by
  refine ⟨?_, ?_, ?_⟩ <;> simp [Store.resetMeta, Hash.lookup_eraseAll]

/-- Pushes use no reserved name, nobody vacuums, records outcomes or recovers orphans. -/
def unlocking (rt : Runtime) : Powers where
  register _ := True
  push := PushRecord.Unreserved
  deliver := True
  stash := ∃ n, ¬rt.Fits n
  discard := False
  ack _ := False
  recover := False

namespace Store.Truthful

variable {s : Store} {b : Board}

theorem congr
    {t : Store}
    (h : s.Truthful)
    (hsame : s.SameTasks t) :
    t.Truthful := by
  constructor
  · rw [hsame.activeJobs, hsame.scheduledJobs, hsame.jobMeta]
    exact h.waiting
  · rw [hsame.inflightJobs, hsame.jobMeta]
    exact h.holder

theorem submit
    (h : s.Truthful)
    (hblank : s.Blank)
    (rt : Runtime)
    {r : PushRecord}
    (hnew : r.taskId ∉ s.jobData)
    (hr : r.Unreserved) :
    (s.submit rt r).Truthful := by
  have hidle : Idle ((s.submit rt r).jobMeta r.taskId) := by
    simp only [Store.submit, Function.update_self, hblank r.taskId hnew]
    exact idle_pushMeta rt hr
  have hother : ∀ id, id ≠ r.taskId → (s.submit rt r).jobMeta id = s.jobMeta id :=
    fun id hne => Function.update_of_ne hne _ _
  refine ⟨fun id hid => ?_, fun id worker hlock hrunning => ?_⟩
  · rcases eq_or_ne id r.taskId with rfl | hne
    · exact hidle
    · rw [hother id hne]
      refine h.waiting id ?_
      simp only [Store.submit] at hid
      split at hid <;> simpa [hne] using hid
  · rcases eq_or_ne id r.taskId with rfl | hne
    · exact absurd hrunning hidle.status
    · rw [hother id hne] at hlock hrunning
      exact h.holder id worker hlock hrunning

theorem promote
    (h : s.Truthful)
    {taskIds : List String}
    (hids : ∀ id ∈ taskIds, id ∈ s.scheduledJobs) :
    (s.promote taskIds).Truthful := by
  refine ⟨fun id hid => h.waiting id ?_, h.holder⟩
  rcases hid with hactive | hscheduled
  · rcases List.mem_append.mp hactive with hactive | hmem
    · exact .inl hactive
    · exact .inr (hids id hmem)
  · exact .inr (Hash.mem_eraseAll.mp hscheduled).2

theorem deliver
    (h : s.Truthful)
    (worker : String)
    (taskIds : List String) :
    (s.deliver worker taskIds).Truthful := by
  refine ⟨fun id hid => h.waiting id ?_, fun id w hlock hrunning => ?_⟩
  · exact hid.imp_left List.mem_of_mem_drop
  · have hheld := h.holder id w hlock hrunning
    rcases eq_or_ne w worker with rfl | hne
    · simp [Store.deliver, hheld]
    · simpa [Store.deliver, hne] using hheld

/-- The worker that locks a task holds it. -/
theorem lock
    (h : s.Truthful)
    (hb : Reflects s b)
    {worker taskId : String}
    (now : Nat)
    (hheld : taskId ∈ s.inflightJobs worker) :
    (s.lock worker now taskId).Truthful := by
  have hother : ∀ id, id ≠ taskId → (s.lock worker now taskId).jobMeta id = s.jobMeta id :=
    fun id hne => Function.update_of_ne hne _ _
  have hinflight : (s.lock worker now taskId).inflightJobs = s.inflightJobs := by
    simp [Store.lock, Finset.insert_eq_self.mpr hheld]
  refine ⟨fun id hid => ?_, fun id w hlock hrunning => ?_⟩
  · have hwaits : id ∈ s.activeJobs ∨ id ∈ s.scheduledJobs := hid.imp_left List.mem_of_mem_erase
    rw [hother id (hb.ne_of_waiting hwaits hheld)]
    exact h.waiting id hwaits
  · rw [hinflight]
    rcases eq_or_ne id taskId with rfl | hne
    · have hworker : w = worker := by
        simpa [Store.lock, eq_comm] using hlock
      rw [hworker]
      exact hheld
    · rw [hother id hne] at hlock hrunning
      exact h.holder id w hlock hrunning

/-- A renewal writes neither the holder nor the status. -/
theorem renew
    (h : s.Truthful)
    (hb : Reflects s b)
    {worker taskId : String}
    (now : Nat)
    (hheld : taskId ∈ s.inflightJobs worker) :
    (s.renew now taskId).Truthful := by
  have hother : ∀ id, id ≠ taskId → (s.renew now taskId).jobMeta id = s.jobMeta id :=
    fun id hne => Function.update_of_ne hne _ _
  refine ⟨fun id hwaits => ?_, fun id w hlock hrunning => h.holder id w ?_ ?_⟩
  · rw [hother id (hb.ne_of_waiting hwaits hheld)]
    exact h.waiting id hwaits
  · rcases eq_or_ne id taskId with rfl | hne
    · simpa [Store.renew] using hlock
    · rwa [hother id hne] at hlock
  · rcases eq_or_ne id taskId with rfl | hne
    · simpa [Store.renew] using hrunning
    · rwa [hother id hne] at hrunning

/-- A release takes the lock fields away. -/
theorem release
    (h : s.Truthful)
    (worker : String)
    (taskIds : List String) :
    (s.release worker taskIds).Truthful := by
  have hreset : ∀ id ∈ taskIds, Idle ((s.release worker taskIds).jobMeta id) := by
    intro id hid
    simp only [Store.release, if_pos hid]
    exact idle_resetMeta _
  have hother : ∀ id ∉ taskIds, (s.release worker taskIds).jobMeta id = s.jobMeta id :=
    fun id hid => if_neg hid
  refine ⟨fun id hid => ?_, fun id w hlock hrunning => ?_⟩
  · rcases em (id ∈ taskIds) with hmem | hmem
    · exact hreset id hmem
    · rw [hother id hmem]
      refine h.waiting id (hid.imp_left fun hactive => ?_)
      exact (List.mem_append.mp hactive).resolve_right hmem
  · rcases em (id ∈ taskIds) with hmem | hmem
    · exact absurd hrunning (hreset id hmem).status
    · rw [hother id hmem] at hlock hrunning
      have hheld := h.holder id w hlock hrunning
      rcases eq_or_ne w worker with rfl | hne
      · simp [Store.release, hheld, hmem]
      · simpa [Store.release, hne] using hheld

/-- A recovery leaves the metadata, so the tasks of the worker must be idle. -/
theorem recover
    (h : s.Truthful)
    {worker : String}
    (hidle : ∀ id ∈ s.inflightJobs worker, Idle (s.jobMeta id))
    {jobs : List String}
    (hjobs : ∀ id ∈ jobs, id ∈ s.inflightJobs worker) :
    (s.recover worker jobs).Truthful := by
  refine ⟨fun id hid => ?_, fun id w hlock hrunning => ?_⟩
  · rcases hid with hactive | hscheduled
    · rcases List.mem_append.mp hactive with hactive | hmem
      · exact h.waiting id (.inl hactive)
      · exact hidle id (hjobs id hmem)
    · exact h.waiting id (.inr hscheduled)
  · have hheld := h.holder id w hlock hrunning
    rcases eq_or_ne w worker with rfl | hne
    · exact absurd hrunning (hidle id hheld).status
    · simpa [Store.recover, hne] using hheld

end Store.Truthful

/-- An outcome may be recorded: a task that is retried carries no lock, and one
that is given the status `Running` names no holder. -/
def Store.AckClears (s : Store) (r : AckRecord) : Prop :=
  (r.place = .scheduled → (s.jobMeta r.taskId).lookup "locked_by" = none ∧
    (s.jobMeta r.taskId).lookup "locked_at" = none) ∧
  (r.status = "Running" → (s.jobMeta r.taskId).lookup "locked_by" = none)

theorem Store.Truthful.ack
    {s : Store}
    {b : Board}
    (h : s.Truthful)
    (hb : Reflects s b)
    {worker : String}
    {r : AckRecord}
    (hheld : r.taskId ∈ s.inflightJobs worker)
    (hclears : s.AckClears r) :
    (s.ack worker r).Truthful := by
  have hother : ∀ id, id ≠ r.taskId → (s.ack worker r).jobMeta id = s.jobMeta id :=
    fun id hne => Function.update_of_ne hne _ _
  have hlocks : ((s.ack worker r).jobMeta r.taskId).lookup "locked_by" =
      (s.jobMeta r.taskId).lookup "locked_by" ∧
      ((s.ack worker r).jobMeta r.taskId).lookup "locked_at" =
      (s.jobMeta r.taskId).lookup "locked_at" ∧
      ((s.ack worker r).jobMeta r.taskId).lookup "status" = some r.status := by
    simp [Store.ack, ackMeta]
  refine ⟨fun id hid => ?_, fun id w hlock hrunning => ?_⟩
  · rcases eq_or_ne id r.taskId with rfl | hne
    · have hactive : r.taskId ∉ s.activeJobs := fun hactive =>
        hb.ne_of_waiting (.inl hactive) hheld rfl
      have hretry : r.place = .scheduled := by
        by_contra hplace
        refine hb.ne_of_waiting (hid.imp_right fun hscheduled => ?_) hheld rfl
        change r.taskId ∈ ite _ _ _ at hscheduled
        rwa [if_neg hplace] at hscheduled
      have hstatus : r.status = "Failed" ∨ r.status = "Pending" := by
        unfold AckRecord.place at hretry
        split at hretry
        · cases hretry
        · split at hretry
          · next hfailed => exact hfailed.1
          · cases hretry
      obtain ⟨hby, hat⟩ := hclears.1 hretry
      refine ⟨?_, by rw [hlocks.1, hby], by rw [hlocks.2.1, hat]⟩
      rw [hlocks.2.2]
      rcases hstatus with hstatus | hstatus <;> simp [hstatus]
    · rw [hother id hne]
      refine h.waiting id (hid.imp_right fun hscheduled => ?_)
      change id ∈ ite _ _ _ at hscheduled
      split at hscheduled
      · exact (Finmap.mem_insert.mp hscheduled).resolve_left hne
      · exact hscheduled
  · rcases eq_or_ne id r.taskId with rfl | hne
    · rw [hlocks.2.2] at hrunning
      rw [hlocks.1, hclears.2 (Option.some.inj hrunning)] at hlock
      cases hlock
    · rw [hother id hne] at hlock hrunning
      have hold := h.holder id w hlock hrunning
      rcases eq_or_ne w worker with rfl | hw
      · simp [Store.ack, hold, hne]
      · simpa [Store.ack, hw] using hold

/-- **The moves of all other calls keep the lock fields truthful.** -/
theorem Move.truthful
    {rt : Runtime}
    {s t : Store}
    {b : Board}
    (hb : Reflects s b)
    (hblank : s.Blank)
    (hmove : Move rt (unlocking rt) s t)
    (h : s.Truthful) :
    t.Truthful := by
  cases hmove with
  | bookkeep hsame => exact h.congr hsame
  | stash r hmay hnew => exact ⟨h.waiting, h.holder⟩
  | submit r hnew hmay => exact h.submit hblank rt hnew hmay
  | promote taskIds hnd hids hmay => exact h.promote hids
  | deliver worker taskIds hworker hids hmay => exact h.deliver worker taskIds
  | lock worker now taskId hheld => exact h.lock hb now hheld
  | renew worker now taskId hheld => exact h.renew hb now hheld
  | ack worker r hheld hmay => exact hmay.elim
  | release worker taskIds hnd hheld => exact h.release worker taskIds
  | recover worker jobs hnd hjobs hmay => exact hmay.elim
  | beat worker now hworker => exact ⟨h.waiting, h.holder⟩
  | discard taskId hmay => exact hmay.elim

section Clearing

variable (rt : Runtime) (queue : String)

/-- The same for every outcome of a batch that is recorded, when its turn comes. -/
def Store.BatchClears (s : Store) (worker : String) (batch : List AckRecord) : Prop :=
  ∀ before r, before ++ [r] <+: batch → s.HoldsOnce worker (before ++ [r]) → s.AckClears r

/-- The tasks of the expired workers that the recovery gets to are idle. -/
def Store.SweepClears (s : Store) (cutoff : Nat) (only : Option String) : Prop :=
  ∀ v ∈ s.reached rt cutoff only, ∀ id ∈ s.inflightJobs v, Idle (s.jobMeta id)

/-- The call gives no locked task back, and records no running one. -/
def Call.Clears : Call → Store → Prop
  | .handleResults worker _ batch, s => s.BatchClears worker batch
  | .reenqueueOrphaned cutoff only, s => s.SweepClears rt cutoff only
  | _, _ => True

/-- The call pushes no metadata that use a name of the queue. -/
def Call.Unreserved : Call → Prop
  | .pushTasks _ _ batch => ∀ r ∈ batch, r.Unreserved
  | _ => True

theorem truthful_ackTasks
    (worker : String)
    (emitEvents : Bool)
    (batch : List AckRecord) :
    ∀ (acked : Nat) {s : Store} {b : Board}, Reflects s b → s.Truthful →
      s.BatchClears worker batch →
      ((batch.foldlM (ackTask (Keys.inflightSetFor queue worker) (Keys.doneJobsSet queue)
        (Keys.deadJobsSet queue) (Keys.scheduledJobsSet queue) (Keys.jobMetaHash queue)
        emitEvents) acked).run s).2.Truthful := by
  induction batch with
  | nil => exact fun _ _ _ _ h _ => h
  | cons r rest ih =>
      intro acked s b hb h hclears
      have hrun := run_ackTask queue worker emitEvents acked r s
      split at hrun
      · next hheld =>
          have honce : s.HoldsOnce worker [r] := ⟨by simpa using hheld, by simp⟩
          have hack := h.ack hb hheld (hclears [] r (by simp) honce)
          have hb' : Reflects ((s.ack worker r).say emitEvents (r.channel queue) r.taskId) _ :=
            (hb.ack hheld).congr rfl rfl rfl rfl rfl fun _ hid => hid
          rw [List.foldlM_cons, run_bind_ok hrun]
          refine ih (acked + 1) hb' (hack.congr (SameTasks.say ..)) fun before r' hr' honce' => ?_
          have hall := holdsOnce_cons queue worker emitEvents hheld honce'
          have hne : r'.taskId ≠ r.taskId := by
            have hnd := (List.nodup_cons.mp hall.2).1
            rintro heq
            exact hnd (heq ▸ List.mem_map_of_mem (by simp))
          have hsame : (s.ack worker r).jobMeta r'.taskId = s.jobMeta r'.taskId :=
            Function.update_of_ne hne _ _
          have hold := hclears (r :: before) r' (List.cons_prefix_cons.mpr ⟨rfl, hr'⟩) hall
          unfold Store.AckClears at hold ⊢
          rw [← hsame] at hold
          exact hold
      · rw [List.foldlM_cons, run_bind_error hrun]
        exact h

theorem truthful_recoverAll
    (workers : List String) :
    ∀ {s : Store}, s.Truthful →
      (∀ v ∈ workers, ∀ id ∈ s.inflightJobs v, Idle (s.jobMeta id)) →
      (s.recoverAll rt workers).Truthful := by
  induction workers with
  | nil => exact fun h _ => h
  | cons v vs ih =>
      intro s h hidle
      have hfirst : (s.recover v (s.held rt v)).Truthful :=
        h.recover (hidle v (by simp)) fun id hid => rt.mem_members.mp hid
      refine ih hfirst fun u hu id hid => hidle u (List.mem_cons_of_mem _ hu) id ?_
      rcases mem_update hid with ⟨-, hin⟩ | hold
      · exact absurd hin (Finset.notMem_empty id)
      · exact hold

theorem truthful_reenqueueOrphaned
    (cutoff : Nat)
    (only : Option String)
    {s : Store}
    (h : s.Truthful)
    (hclears : s.SweepClears rt cutoff only) :
    ((reenqueueOrphanedScript rt queue cutoff only).run s).2.Truthful := by
  have hdone := truthful_recoverAll rt (s.reached rt cutoff only) h hclears
  rw [reenqueueOrphanedScript]
  rcases reenqueueOrphaned_cases rt queue cutoff only s with
    ⟨-, -, hrun⟩ | ⟨-, hrun⟩ <;> rw [hrun]
  · dsimp only
    split
    · exact hdone.congr (SameTasks.wake _)
    · exact hdone
  · exact hdone

/-- A call that gives no locked task back keeps the lock fields truthful. -/
theorem truthful_exec
    (c : Call)
    (hpush : c.Unreserved)
    {s : Store}
    {b : Board}
    (hb : Reflects s b)
    (hblank : s.Blank)
    (hclears : c.Clears rt s)
    (h : s.Truthful) :
    ((c.exec rt queue).run s).2.Truthful := by
  have hkeeps : c.Within (unlocking rt) → ((c.exec rt queue).run s).2.Truthful := by
    intro hwithin
    have hstash : ∀ n, ¬rt.Fits n → (unlocking rt).stash := fun n hn => ⟨n, hn⟩
    have hmoves := c.movesBy queue hstash hwithin s
    refine (Systems.preserved (I := fun s => s.Truthful ∧ s.Blank ∧ ∃ b, Reflects s b)
      (fun u v hmove hu => ?_) hmoves ⟨h, hblank, b, hb⟩).1
    obtain ⟨hu, hblank, b, hb⟩ := hu
    obtain ⟨b', -, hb'⟩ := move_simulates (fun hd => hd) _ _ b hmove hb
    exact ⟨hmove.truthful hb hblank hu, hb.blank (fun hd => hd) hmove hblank, b', hb'⟩
  cases c with
  | pushTasks ttl emitEvents batch => exact hkeeps hpush
  | handleResults worker emitEvents batch =>
      exact truthful_ackTasks queue worker emitEvents batch 0 hb h hclears
  | reenqueueOrphaned cutoff only => exact truthful_reenqueueOrphaned rt queue cutoff only h hclears
  | _ => exact hkeeps trivial

/-- Each call of the run clears the locks that it has to clear. -/
def ClearingRun : List Call → Store → Prop
  | [], _ => True
  | c :: calls, s => c.Clears rt s ∧ ClearingRun calls ((c.exec rt queue).run s).2

theorem truthful_run
    (calls : List Call) :
    ∀ {s : Store} {b : Board}, Reflects s b → s.Blank → s.Truthful →
      (∀ c ∈ calls, c.Unreserved) → ClearingRun rt queue calls s →
      (run rt queue calls s).Truthful := by
  induction calls with
  | nil => exact fun _ _ h _ _ => h
  | cons c calls ih =>
      intro s b hb hblank h hpush hrun
      have hnext := truthful_exec rt queue c (hpush c (by simp)) hb hblank hrun.1 h
      obtain ⟨hblank', b', hb'⟩ := blank_of_moves rt hb hblank (moves_persistence rt queue [c] s)
      exact ih hb' hblank' hnext (fun c' hc' => hpush c' (List.mem_cons_of_mem _ hc')) hrun.2

theorem ClearingRun.of_append
    {before after : List Call} :
    ∀ {s : Store}, ClearingRun rt queue (before ++ after) s → ClearingRun rt queue before s := by
  induction before with
  | nil => exact fun _ => trivial
  | cons c calls ih => exact fun h => ⟨h.1, ih h.2⟩

/-- **Lock metadata tell the truth** in every state of a run whose retries and
recoveries give no locked task back. -/
theorem truthful_runs
    (before after : List Call)
    (hpush : ∀ c ∈ before, c.Unreserved)
    (hrun : ClearingRun rt queue (before ++ after) Store.empty) :
    (run rt queue before Store.empty).Truthful := by
  have hinit : Store.empty.Truthful := by
    refine ⟨fun id hid => ?_, fun id worker hlock _ => ?_⟩
    · rcases hid with hactive | hscheduled
      · cases hactive
      · exact absurd hscheduled Finmap.notMem_empty
    · rw [show Store.empty.jobMeta id = ∅ from rfl, Finmap.lookup_empty] at hlock
      cases hlock
  exact truthful_run rt queue before reflects_empty (fun _ _ => rfl) hinit hpush
    (hrun.of_append rt queue)

end Clearing

/-- A worker fetches a task and locks it. -/
def lockedRun : List Call :=
  [.pushTasks 0 true [⟨"t", .empty, 0, 25, ∅, 0, ""⟩],
    .registerWorker 100 "w" 300 "RedisStorage" "",
    .fetchNext 100 10 "w",
    .acquireLeases "w" 101 true ["t"]]

/-- Releasing it clears the lock. -/
theorem truthful_release :
    (run (.ascending none) "q" (lockedRun ++ [.releaseLeases "w" true ["t"]])
      Store.empty).Truthful := by
  have hrun : ClearingRun (.ascending none) "q"
      (lockedRun ++ [.releaseLeases "w" true ["t"]] ++ []) Store.empty := by
    simp only [lockedRun, List.cons_append, List.nil_append, List.append_nil, ClearingRun,
      Call.Clears, and_self]
  refine truthful_runs (.ascending none) "q" _ [] (fun c hc => ?_) hrun
  simp only [lockedRun, List.cons_append, List.nil_append, List.mem_cons, List.not_mem_nil,
    or_false] at hc
  rcases hc with rfl | rfl | rfl | rfl | rfl
  · intro r hr field _
    rw [List.mem_singleton.mp hr]
    exact Finmap.notMem_empty
  all_goals exact trivial

/-- After its worker was recovered, the task waits and is marked as running. -/
theorem recovered_still_locked :
    ¬(run (.ascending none) "q" (lockedRun ++ [.reenqueueOrphaned 100 none])
      Store.empty).Truthful := by
  intro h
  have hactive : "t" ∈ (run (.ascending none) "q" (lockedRun ++ [.reenqueueOrphaned 100 none])
      Store.empty).activeJobs := by
    decide +kernel
  have hidle := (h.waiting "t" (.inl hactive)).lockedBy
  revert hidle
  decide +kernel

end ApalisRedis
