import ApalisRedis.Config

/-!
# `handle_results.lua`

Record the outcomes of a batch of tasks.  The holder check of a task and its
writes share one loop, so a task that fails the check aborts the call after the
writes of the tasks before it.
-/

namespace ApalisRedis
namespace Lua

open Redis Script

/-- One group of five arguments, after `tonumber`. -/
structure AckRecord where
  taskId : String
  timestamp : Nat
  resultData : String
  status : String
  attempt : Nat

section HandleResults

variable (inflightSet doneSet deadSet : Key Store (Finset String))
variable (scheduledSet : Key Store ZSet)
variable (metaPrefix : String → Key Store (Hash String))
variable (emitEvents : Bool)

/-- The three-way decision on where an executed task goes. -/
def moveTask (r : AckRecord) : Script Store Unit := do
  if r.status = "Done" then
    let _ ← sadd doneSet r.taskId
    if emitEvents then
      publish pubsub ("tasks:" ++ doneSet.name) r.taskId
  else if (r.status = "Failed" ∨ r.status = "Pending") ∧ r.attempt < 25 then
    zadd scheduledSet (r.timestamp + r.attempt) r.taskId
    if emitEvents then
      publish pubsub ("tasks:" ++ scheduledSet.name ++ ":retry") r.taskId
  else
    let _ ← sadd deadSet r.taskId
    if emitEvents then
      publish pubsub ("tasks:" ++ deadSet.name) r.taskId

/-- The four fields the script records. -/
def ackMeta (r : AckRecord) : List (String × String) :=
  [("result", r.resultData), ("status", r.status), ("attempts", toString r.attempt),
    ("done_at", toString r.timestamp)]

/-- The body of the loop over the batch. -/
def ackTask (acked : Nat) (r : AckRecord) : Script Store Nat := do
  let removed ← srem inflightSet r.taskId
  if removed = 0 then
    raise "task not executed by worker"
  moveTask doneSet deadSet scheduledSet emitEvents r
  hset (metaPrefix r.taskId) (ackMeta r)
  pure (acked + 1)

def handleResults (batch : List AckRecord) : Script Store Nat :=
  batch.foldlM
    (ackTask inflightSet doneSet deadSet scheduledSet metaPrefix emitEvents) 0

end HandleResults

end Lua

open Lua Redis Script

namespace Lua.AckRecord

/-- Where an executed task goes. -/
def place (r : AckRecord) : Place :=
  if r.status = "Done" then .done
  else if (r.status = "Failed" ∨ r.status = "Pending") ∧ r.attempt < 25 then .scheduled
  else .dead

/-- The channel that announces it. -/
def channel (queue : String) (r : AckRecord) : String :=
  match r.place with
  | .done => "tasks:" ++ (queue ++ ":done")
  | .scheduled => "tasks:" ++ (queue ++ ":scheduled") ++ ":retry"
  | _ => "tasks:" ++ (queue ++ ":dead")

end Lua.AckRecord

/-- A held task leaves the worker with its outcome recorded. -/
def Store.ack (s : Store) (worker : String) (r : AckRecord) : Store :=
  { s with
    inflightJobs :=
      Function.update s.inflightJobs worker ((s.inflightJobs worker).erase r.taskId)
    doneJobs := if r.place = .done then insert r.taskId s.doneJobs else s.doneJobs
    scheduledJobs :=
      if r.place = .scheduled then s.scheduledJobs.insert r.taskId (r.timestamp + r.attempt)
      else s.scheduledJobs
    deadJobs := if r.place = .dead then insert r.taskId s.deadJobs else s.deadJobs
    jobMeta :=
      Function.update s.jobMeta r.taskId (Hash.setAll (s.jobMeta r.taskId) (ackMeta r)) }

namespace Lua

section Specs

variable (queue worker : String) (emitEvents : Bool)

theorem run_moveTask
    (r : AckRecord)
    (s : Store) :
    (moveTask (Keys.doneJobsSet queue) (Keys.deadJobsSet queue)
        (Keys.scheduledJobsSet queue) emitEvents r).run s =
      (.ok (), Store.say { s with
        doneJobs := if r.place = .done then insert r.taskId s.doneJobs else s.doneJobs
        scheduledJobs :=
          if r.place = .scheduled then s.scheduledJobs.insert r.taskId (r.timestamp + r.attempt)
          else s.scheduledJobs
        deadJobs := if r.place = .dead then insert r.taskId s.deadJobs else s.deadJobs }
        emitEvents (r.channel queue) r.taskId) := by
  by_cases hdone : r.status = "Done"
  · cases emitEvents <;>
      simp [moveTask, AckRecord.channel, AckRecord.place, Store.say, hdone]
  · by_cases hretry : (r.status = "Failed" ∨ r.status = "Pending") ∧ r.attempt < 25
    · cases emitEvents <;>
        simp [moveTask, AckRecord.channel, AckRecord.place, Store.say, hdone, hretry]
    · cases emitEvents <;>
        simp [moveTask, AckRecord.channel, AckRecord.place, Store.say, hdone, hretry]

theorem run_ackTask
    (acked : Nat)
    (r : AckRecord)
    (s : Store) :
    (ackTask (Keys.inflightSetFor queue worker) (Keys.doneJobsSet queue)
        (Keys.deadJobsSet queue) (Keys.scheduledJobsSet queue)
        (Keys.jobMetaHash queue) emitEvents acked r).run s =
      if r.taskId ∈ s.inflightJobs worker then
        (.ok (acked + 1), (s.ack worker r).say emitEvents (r.channel queue) r.taskId)
      else
        (.error "task not executed by worker", s) := by
  by_cases hheld : r.taskId ∈ s.inflightJobs worker
  · simp [ackTask, hheld, run_bind_ok (run_moveTask ..), Store.ack, Store.say]
  · simp [ackTask, hheld]

end Specs
end Lua
end ApalisRedis
