import ApalisRedis.Lifecycle

/-!
# Evicted workers are fenced off

A worker that is not in the workers set holds no task, because only registered
workers do.  So the scripts that check the registration refuse it, and the ones
that check the inflight set find nothing.

**Results.**
* `exec_of_evicted`: what a call of an evicted worker does.
* `evicted_fenced`: the same along every run that does not register the name again.
-/

namespace ApalisRedis

open Lua Redis Script

/-- The worker in whose name a call is made. -/
def Call.madeBy : Call → Option String
  | .keepAlive _ worker => some worker
  | .fetchNext _ _ worker => some worker
  | .acquireLeases worker _ _ _ => some worker
  | .renewLeases worker _ _ _ => some worker
  | .handleResults worker _ _ => some worker
  | .releaseLeases worker _ _ => some worker
  | _ => none

/-- The call fails or reports zero, and changes nothing. -/
def Call.Futile (rt : Runtime) (queue : String) (c : Call) (s : Store) : Prop :=
  ∃ reply, (c.exec rt queue).run s = (reply, s) ∧ (reply = .ok 0 ∨ ∃ e, reply = .error e)

section Fencing

variable (rt : Runtime) (queue : String) {worker : String} {s : Store}

theorem keepAlive_of_evicted
    (hworker : worker ∉ s.workers)
    (now : Nat) :
    (Call.keepAlive now worker).Futile rt queue s := by
  refine ⟨.error "Heartbeat failed: worker not registered", ?_, .inr ⟨_, rfl⟩⟩
  have hrun := run_keepAlive queue now worker s
  rw [if_neg hworker] at hrun
  simp [Call.exec, keepAliveScript, run_map, hrun]

theorem fetchNext_of_evicted
    (hworker : worker ∉ s.workers)
    (now batchSize : Nat) :
    (Call.fetchNext now batchSize worker).Futile rt queue s := by
  refine ⟨.error "Cant fetch next: worker not registered", ?_, .inr ⟨_, rfl⟩⟩
  have hrun := run_fetchNext rt queue worker now batchSize s
  rw [if_pos hworker] at hrun
  simp [Call.exec, fetchNextScript, run_map, hrun]

theorem acquireLeases_of_evicted
    (hworker : worker ∉ s.workers)
    (now : Nat)
    (emitEvents : Bool)
    (taskIds : List String) :
    (Call.acquireLeases worker now emitEvents taskIds).Futile rt queue s := by
  refine ⟨.error "Cant acquire lease: worker not registered", ?_, .inr ⟨_, rfl⟩⟩
  have hnone : s.workers.lookup worker = none := Finmap.lookup_eq_none.mpr hworker
  simp [Call.exec, acquireLeasesScript, acquireLeases, hnone]

theorem renewLeases_of_evicted
    (hworker : worker ∉ s.workers)
    (now : Nat)
    (emitEvents : Bool)
    (taskIds : List String) :
    (Call.renewLeases worker now emitEvents taskIds).Futile rt queue s := by
  refine ⟨.error "Cant renew leases: worker not registered", ?_, .inr ⟨_, rfl⟩⟩
  have hnone : s.workers.lookup worker = none := Finmap.lookup_eq_none.mpr hworker
  simp [Call.exec, renewLeasesScript, renewLeases, hnone]

theorem handleResults_of_idle
    (hidle : s.inflightJobs worker = ∅)
    (emitEvents : Bool)
    (batch : List AckRecord) :
    (Call.handleResults worker emitEvents batch).Futile rt queue s := by
  cases batch with
  | nil => exact ⟨.ok 0, rfl, .inl rfl⟩
  | cons r rest =>
      refine ⟨.error "task not executed by worker", ?_, .inr ⟨_, rfl⟩⟩
      have hrun := run_ackTask queue worker emitEvents 0 r s
      rw [if_neg (by simp [hidle])] at hrun
      exact run_bind_error hrun _

theorem releaseListed_of_idle
    (hidle : s.inflightJobs worker = ∅)
    (emitEvents : Bool) :
    ∀ (jobIds : List String),
      (jobIds.foldlM (releaseTask (Keys.inflightSetFor queue worker) (Keys.jobMetaHash queue)
        (Keys.activeJobsList queue) emitEvents) 0).run s = (.ok 0, s)
  | [] => rfl
  | jobId :: jobIds => by
      have hrun := run_releaseTask queue worker emitEvents 0 jobId s
      rw [if_neg (by simp [hidle])] at hrun
      rw [List.foldlM_cons, run_bind_ok hrun]
      exact releaseListed_of_idle hidle emitEvents jobIds

theorem releaseAll_of_idle
    (hidle : s.inflightJobs worker = ∅)
    (emitEvents : Bool) :
    (releaseAll rt (Keys.inflightSetFor queue worker) (Keys.jobMetaHash queue)
      (Keys.activeJobsList queue) emitEvents).run s = (.ok 0, s) := by
  have hnil : rt.members ∅ = [] := rt.members_eq_nil.mpr rfl
  simp [releaseAll, hidle, hnil]

theorem releaseLeases_of_idle
    (hidle : s.inflightJobs worker = ∅)
    (emitEvents : Bool)
    (jobIds : List String) :
    (Call.releaseLeases worker emitEvents jobIds).Futile rt queue s := by
  refine ⟨.ok 0, ?_, .inl rfl⟩
  have hlisted := releaseListed_of_idle queue hidle emitEvents jobIds
  have hall := releaseAll_of_idle rt queue hidle emitEvents
  by_cases hlen : 0 < jobIds.length
  · simp [Call.exec, releaseLeasesScript, releaseLeases, hlen, run_bind_ok hlisted]
  · simp [Call.exec, releaseLeasesScript, releaseLeases, hlen, run_bind_ok hall]

/-- **A call of an evicted worker does nothing.** -/
theorem exec_of_evicted
    (hregistered : s.Registered)
    (hworker : worker ∉ s.workers)
    {c : Call}
    (hc : c.madeBy = some worker) :
    c.Futile rt queue s := by
  have hidle : s.inflightJobs worker = ∅ := by
    by_contra hheld
    exact hworker (hregistered worker hheld)
  cases c <;> cases hc
  case keepAlive now => exact keepAlive_of_evicted rt queue hworker now
  case fetchNext now batchSize => exact fetchNext_of_evicted rt queue hworker now batchSize
  case acquireLeases now emitEvents taskIds =>
    exact acquireLeases_of_evicted rt queue hworker now emitEvents taskIds
  case renewLeases now emitEvents taskIds =>
    exact renewLeases_of_evicted rt queue hworker now emitEvents taskIds
  case handleResults emitEvents batch =>
    exact handleResults_of_idle rt queue hidle emitEvents batch
  case releaseLeases emitEvents jobIds =>
    exact releaseLeases_of_idle rt queue hidle emitEvents jobIds

/-- The name that a call registers. -/
def Call.registers : Call → Option String
  | .registerWorker _ worker _ _ _ => some worker
  | _ => none

/-- The name that a call of a run with vacuums registers. -/
def Op.registers : Op → Option String
  | .call c => c.registers
  | _ => none

/-- Everything but registering one name. -/
def exceptRegistering (worker : String) : Powers where
  register name := name ≠ worker
  push _ := True
  deliver := True
  stash := True
  discard := True

theorem Op.within_exceptRegistering
    {worker : String}
    (op : Op)
    (hop : op.registers ≠ some worker) :
    op.Within (exceptRegistering worker) := by
  cases op with
  | call c =>
      cases c with
      | pushTasks ttl emitEvents batch => exact fun _ _ => trivial
      | handleResults worker emitEvents batch => exact fun _ _ => trivial
      | registerWorker now name threshold backendName service =>
          rintro rfl
          exact hop rfl
      | _ => exact trivial
  | _ => exact trivial

theorem Move.evicted
    {rt : Runtime}
    {worker : String}
    {s t : Store}
    (hmove : Move rt (exceptRegistering worker) s t)
    (hworker : worker ∉ s.workers) :
    worker ∉ t.workers := by
  cases hmove with
  | bookkeep hsame =>
      rw [hsame.workers]
      exact hworker
  | recover w jobs hnd hjobs =>
      exact fun hmem => hworker (Finmap.mem_erase.mp hmem).2
  | beat w now hw =>
      intro hmem
      rcases Finmap.mem_insert.mp hmem with rfl | hmem
      · rcases hw with hw | hw
        · exact hworker hw
        · exact hw rfl
      · exact hworker hmem
  | _ => exact hworker

/-- **An evicted worker is fenced off**: from a reachable state without it, and
until its name is registered again, each of its calls is futile. -/
theorem evicted_fenced
    (ops later : List Op)
    (worker : String)
    (hevicted : worker ∉ (runOps rt queue ops Store.empty).workers)
    (hlater : ∀ op ∈ later, op.registers ≠ some worker)
    (c : Call)
    (hc : c.madeBy = some worker) :
    c.Futile rt queue (runOps rt queue (ops ++ later) Store.empty) := by
  refine exec_of_evicted rt queue (registered_runOps rt queue _) ?_ hc
  have hmoves : Moves rt (exceptRegistering worker) (runOps rt queue ops Store.empty)
      (runOps rt queue later (runOps rt queue ops Store.empty)) := by
    refine moves_runOps queue (fun _ _ => trivial) later (fun op hop => ?_) _
    exact op.within_exceptRegistering (hlater op hop)
  rw [runOps_append]
  exact Systems.preserved (I := fun s => worker ∉ s.workers)
    (fun s t hmove hs => hmove.evicted hs) hmoves hevicted

end Fencing

/-- A worker that fetched its task and was then recovered by somebody else. -/
def evictedRun : List Op :=
  [.call (.pushTasks 0 false [⟨"t", ⟨#[]⟩, 0, 25, ∅, 0, ""⟩]),
    .call (.registerWorker 10 "w" 300 "RedisStorage" "service"),
    .call (.fetchNext 11 10 "w"),
    .call (.reenqueueOrphaned 10 none)]

/-- Its late acknowledgement is refused, while a second worker has the task. -/
theorem evicted_fenced_late_ack :
    (Call.handleResults "w" true [⟨"t", 20, "", "Done", 1⟩]).Futile (.ascending none) "q"
      (runOps (.ascending none) "q"
        (evictedRun ++ [.call (.registerWorker 12 "v" 300 "RedisStorage" "service"),
          .call (.fetchNext 12 10 "v")]) Store.empty) :=
  evicted_fenced (.ascending none) "q" evictedRun _ "w" (by decide +kernel) (by decide) _ rfl

end ApalisRedis
