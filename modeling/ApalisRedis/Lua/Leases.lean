import ApalisRedis.Lua.BatchPush

/-!
# `acquire_leases.lua`, `renew_leases.lua`, `release_leases.lua`

Acquiring and renewing validate every task before they write anything.
Releasing gives tasks back to the active list: the listed ones the worker
holds, or everything it holds when the list is empty.
-/

namespace ApalisRedis
namespace Lua

open Redis Script

section Leases

variable (rt : Runtime)
variable (inflightSet : Key Store (Finset String))
variable (workersSet : Key Store ZSet)
variable (metaPrefix : String → Key Store (Hash String))
variable (activeList signalList : Key Store (List String))
variable (worker : String) (now : Nat) (emitEvents : Bool)

/-- The validation both lease scripts run over every task first. -/
def checkHeld (message : String) (taskId : String) : Script Store Unit := do
  let isMember ← sismember inflightSet taskId
  if isMember = 0 then
    raise (message ++ taskId)

/-- The mutation of `acquire_leases.lua`. -/
def lockTask (taskId : String) : Script Store Unit := do
  let _ ← lrem activeList taskId
  let _ ← sadd inflightSet taskId
  hset (metaPrefix taskId)
    [("locked_at", toString now), ("locked_by", worker), ("status", "Running")]
  if emitEvents then
    publish pubsub ("tasks:" ++ activeList.name ++ ":lock") taskId

def acquireLeases (taskIds : List String) : Script Store Nat := do
  let registered ← zscore workersSet worker
  if registered.isNone then
    raise "Cant acquire lease: worker not registered"
  if taskIds.length = 0 then
    pure 0
  else
    taskIds.foldlM
      (fun _ id => checkHeld inflightSet "task not held by this worker: " id) ()
    taskIds.foldlM
      (fun _ id => lockTask inflightSet metaPrefix activeList worker now emitEvents id) ()
    pure taskIds.length

/-- The mutation of `renew_leases.lua`.  `KEYS[4]` may be missing, and then the
concatenation in the channel name raises. -/
def renewTask (activeList? : Option (Key Store (List String))) (taskId : String) :
    Script Store Unit := do
  hset (metaPrefix taskId) [("locked_at", toString now)]
  if emitEvents then
    match activeList? with
    | some k =>
        publish pubsub ("tasks:" ++ k.name ++ ":heartbeat")
          ("\x7b\"task_id\":\"" ++ taskId ++ "\",\"worker\":\"" ++ worker ++ "\"\x7d")
    | none => raise "attempt to concatenate field '?' (a nil value)"

def renewLeases (activeList? : Option (Key Store (List String)))
    (taskIds : List String) : Script Store Nat := do
  let registered ← zscore workersSet worker
  if registered.isNone then
    raise "Cant renew leases: worker not registered"
  if taskIds.length = 0 then
    pure 0
  else
    taskIds.foldlM
      (fun _ id => checkHeld inflightSet "lease not held for task: " id) ()
    taskIds.foldlM
      (fun _ id => renewTask metaPrefix worker now emitEvents activeList? id) ()
    pure taskIds.length

/-- The metadata and message of a task that is given back. -/
def resetTask (taskId : String) : Script Store Unit := do
  hset (metaPrefix taskId) [("status", "Pending")]
  hdel (metaPrefix taskId) ["locked_at", "locked_by"]
  if emitEvents then
    publish pubsub ("tasks:" ++ activeList.name ++ ":available") taskId

/-- One listed task: released only when the worker holds it. -/
def releaseTask (reenqueued : Nat) (jobId : String) : Script Store Nat := do
  let removed ← srem inflightSet jobId
  if removed = 1 then
    let _ ← rpush activeList [jobId]
    resetTask metaPrefix activeList emitEvents jobId
    pure (reenqueued + 1)
  else
    pure reenqueued

/-- Everything the worker holds. -/
def releaseAll : Script Store Nat := do
  let allJobs ← smembers rt.members inflightSet
  if 0 < allJobs.length then
    rt.unpack allJobs.length
    let _ ← rpush activeList allJobs
    delSet inflightSet
    allJobs.foldlM (fun _ id => resetTask metaPrefix activeList emitEvents id) ()
  pure allJobs.length

def releaseLeases (jobIds : List String) : Script Store Nat := do
  let reenqueued ←
    if 0 < jobIds.length then
      jobIds.foldlM (releaseTask inflightSet metaPrefix activeList emitEvents) 0
    else
      releaseAll rt inflightSet metaPrefix activeList emitEvents
  if 0 < reenqueued then
    setSignal signalList
  pure reenqueued

end Leases

end Lua

open Lua Redis Script

namespace Store

/-- Several messages on one channel. -/
def sayAll (s : Store) (emitEvents : Bool) (channel : String) (messages : List String) :
    Store :=
  { s with
    published :=
      if emitEvents then s.published ++ messages.map (channel, ·) else s.published }

/-- `acquire_leases.lua` on one task. -/
def lock (s : Store) (worker : String) (now : Nat) (taskId : String) : Store :=
  { s with
    activeJobs := s.activeJobs.erase taskId
    inflightJobs := Function.update s.inflightJobs worker
      (insert taskId (s.inflightJobs worker))
    jobMeta := Function.update s.jobMeta taskId (Hash.setAll (s.jobMeta taskId)
      [("locked_at", toString now), ("locked_by", worker), ("status", "Running")]) }

/-- `renew_leases.lua` on one task. -/
def renew (s : Store) (now : Nat) (taskId : String) : Store :=
  { s with
    jobMeta := Function.update s.jobMeta taskId
      (Hash.setAll (s.jobMeta taskId) [("locked_at", toString now)]) }

/-- The metadata of a task that is given back. -/
def resetMeta (h : Hash String) : Hash String :=
  Hash.eraseAll (Hash.setAll h [("status", "Pending")]) ["locked_at", "locked_by"]

def reset (s : Store) (taskId : String) : Store :=
  { s with jobMeta := Function.update s.jobMeta taskId (resetMeta (s.jobMeta taskId)) }

/-- `release_leases.lua` on tasks that the worker holds. -/
def release (s : Store) (worker : String) (taskIds : List String) : Store :=
  { s with
    inflightJobs := Function.update s.inflightJobs worker
      (s.inflightJobs worker \ taskIds.toFinset)
    activeJobs := s.activeJobs ++ taskIds
    jobMeta := fun id => if id ∈ taskIds then resetMeta (s.jobMeta id) else s.jobMeta id }

end Store

namespace Lua

section Specs

variable (rt : Runtime) (queue worker : String) (now : Nat) (emitEvents : Bool)

theorem run_checkHeld
    (message taskId : String)
    (s : Store) :
    (checkHeld (Keys.inflightSetFor queue worker) message taskId).run s =
      if taskId ∈ s.inflightJobs worker then (.ok (), s)
      else (.error (message ++ taskId), s) := by
  by_cases hheld : taskId ∈ s.inflightJobs worker <;> simp [checkHeld, hheld]

/-- The validation loop passes when every task is held, and leaves the state
alone in any case. -/
theorem run_checkHeld_all
    (message : String)
    (taskIds : List String)
    (s : Store) :
    (taskIds.foldlM (fun _ id => checkHeld (Keys.inflightSetFor queue worker) message id)
        ()).run s =
      match taskIds.find? fun id => decide (id ∉ s.inflightJobs worker) with
      | none => (.ok (), s)
      | some id => (.error (message ++ id), s) := by
  induction taskIds with
  | nil => rfl
  | cons id ids ih =>
      have hcheck := run_checkHeld queue worker message id s
      by_cases hheld : id ∈ s.inflightJobs worker
      · rw [if_pos hheld] at hcheck
        rw [List.foldlM_cons, run_bind_ok hcheck, ih, List.find?_cons_of_neg]
        simpa using hheld
      · rw [if_neg hheld] at hcheck
        rw [List.foldlM_cons, run_bind_error hcheck, List.find?_cons_of_pos]
        simpa using hheld

theorem run_lockTask
    (taskId : String)
    (s : Store) :
    (lockTask (Keys.inflightSetFor queue worker) (Keys.jobMetaHash queue)
        (Keys.activeJobsList queue) worker now emitEvents taskId).run s =
      (.ok (), (s.lock worker now taskId).say emitEvents
        ("tasks:" ++ (queue ++ ":active") ++ ":lock") taskId) := by
  cases emitEvents <;> simp [lockTask, Store.lock, Store.say]

/-- With events on and `KEYS[4]` missing, the first renewal raises after its write. -/
theorem run_renewTask
    (taskId : String)
    (s : Store) :
    (renewTask (Keys.jobMetaHash queue) worker now emitEvents none taskId).run s =
      (if emitEvents then .error "attempt to concatenate field '?' (a nil value)" else .ok (),
        s.renew now taskId) := by
  cases emitEvents <;> simp [renewTask, Store.renew]

theorem run_resetTask
    (taskId : String)
    (s : Store) :
    (resetTask (Keys.jobMetaHash queue) (Keys.activeJobsList queue) emitEvents taskId).run s =
      (.ok (), (s.reset taskId).say emitEvents
        ("tasks:" ++ (queue ++ ":active") ++ ":available") taskId) := by
  cases emitEvents <;> simp [resetTask, Store.reset, Store.say, Store.resetMeta]

theorem foldl_reset
    (channel : String) :
    ∀ (taskIds : List String) (s : Store), taskIds.Nodup →
      taskIds.foldl (fun s id => (s.reset id).say emitEvents channel id) s =
        Store.sayAll { s with
          jobMeta := fun id =>
            if id ∈ taskIds then Store.resetMeta (s.jobMeta id) else s.jobMeta id }
          emitEvents channel taskIds
  | [], s, _ => by
      simp [Store.sayAll]
  | id :: ids, s, hnd => by
      obtain ⟨hid, hids⟩ := List.nodup_cons.mp hnd
      rw [List.foldl_cons, foldl_reset channel ids _ hids]
      have hmeta : (fun id' => if id' ∈ ids then
            Store.resetMeta (Function.update s.jobMeta id (Store.resetMeta (s.jobMeta id)) id')
          else Function.update s.jobMeta id (Store.resetMeta (s.jobMeta id)) id') =
          fun id' =>
            if id' ∈ id :: ids then Store.resetMeta (s.jobMeta id') else s.jobMeta id' := by
        funext id'
        by_cases heq : id' = id
        · subst heq
          simp [hid]
        · simp [heq]
      simp only [Store.sayAll, Store.say, Store.reset, hmeta]
      cases emitEvents <;> simp

theorem run_releaseTask
    (reenqueued : Nat)
    (jobId : String)
    (s : Store) :
    (releaseTask (Keys.inflightSetFor queue worker) (Keys.jobMetaHash queue)
        (Keys.activeJobsList queue) emitEvents reenqueued jobId).run s =
      if jobId ∈ s.inflightJobs worker then
        (.ok (reenqueued + 1), (s.release worker [jobId]).say emitEvents
          ("tasks:" ++ (queue ++ ":active") ++ ":available") jobId)
      else
        (.ok reenqueued, s) := by
  by_cases hheld : jobId ∈ s.inflightJobs worker
  · have hmeta : (fun id => if id = jobId then Store.resetMeta (s.jobMeta id) else s.jobMeta id) =
        Function.update s.jobMeta jobId (Store.resetMeta (s.jobMeta jobId)) := by
      funext id
      by_cases heq : id = jobId
      · subst heq
        simp
      · simp [heq]
    simp [releaseTask, hheld, run_map, run_resetTask]
    simp [Store.release, Store.reset, Store.say, hmeta, Finset.sdiff_singleton_eq_erase]
  · simp [releaseTask, hheld]

theorem run_releaseAll
    (s : Store) :
    (releaseAll rt (Keys.inflightSetFor queue worker) (Keys.jobMetaHash queue)
        (Keys.activeJobsList queue) emitEvents).run s =
      if rt.Fits (rt.members (s.inflightJobs worker)).length then
        (.ok (rt.members (s.inflightJobs worker)).length,
          (s.release worker (rt.members (s.inflightJobs worker))).sayAll emitEvents
            ("tasks:" ++ (queue ++ ":active") ++ ":available")
            (rt.members (s.inflightJobs worker)))
      else
        (.error "too many results to unpack", s) := by
  by_cases hjobs : s.inflightJobs worker = ∅
  · have hnil : rt.members (s.inflightJobs worker) = [] := rt.members_eq_nil.mpr hjobs
    simp [releaseAll, hnil, rt.fits_zero, Store.release, Store.sayAll]
  · have hlen : 0 < (rt.members (s.inflightJobs worker)).length := by
      rw [List.length_pos_iff]
      exact fun h => hjobs (rt.members_eq_nil.mp h)
    have hall : s.inflightJobs worker \ (rt.members (s.inflightJobs worker)).toFinset = ∅ := by
      rw [Finset.sdiff_eq_empty_iff_subset]
      intro id hid
      exact List.mem_toFinset.mpr (rt.mem_members.mpr hid)
    by_cases hfits : rt.Fits (rt.members (s.inflightJobs worker)).length
    · have hreset := run_foldlM_unit (run_resetTask queue emitEvents)
        (rt.members (s.inflightJobs worker))
      simp [releaseAll, hlen, hfits, run_map, hreset,
        foldl_reset _ _ _ _ (rt.nodup_members _)]
      simp [Store.release, hall, Store.sayAll]
    · simp [releaseAll, hlen, hfits]

end Specs
end Lua
end ApalisRedis
