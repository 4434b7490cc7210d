import ApalisRedis.Config

/-!
# `vacuum.lua`, `vacuum_before.lua`

Delete the data and the metadata of every task whose recorded status is
terminal, in the second script only when it finished early enough.  The result
hash is the metadata prefix with `:result` appended.
-/

namespace ApalisRedis
namespace Lua

open Redis Script

/-- The keys of `terminal_statuses`. -/
def terminalStatuses : List String :=
  ["Done", "Failed", "Killed"]

section Vacuum

variable (rt : Runtime)
variable (dataHash : Key Store (Hash Bytes))
variable (metaPrefix : String → Key Store (Hash String))

def deleteTask (taskId : String) : Script Store Unit := do
  hdel dataHash [taskId]
  hdel (metaPrefix "result") [taskId]
  delHash (metaPrefix taskId)

def vacuumTask (deleted : Nat) (taskId : String) : Script Store Nat := do
  let status ← hget (metaPrefix taskId) "status"
  if status.any (· ∈ terminalStatuses) then
    deleteTask dataHash metaPrefix taskId
    pure (deleted + 1)
  else
    pure deleted

def vacuum : Script Store Nat := do
  let taskIds ← hkeys rt.members dataHash
  taskIds.foldlM (vacuumTask dataHash metaPrefix) 0

/-- The body of the loop of `vacuum_before.lua`; comparing a `done_at` that is
not the text of a number raises. -/
def vacuumTaskBefore (cutoff : Int) (deleted : Nat) (taskId : String) :
    Script Store Nat := do
  let status ← hget (metaPrefix taskId) "status"
  let doneAt ← hget (metaPrefix taskId) "done_at"
  if status.any (· ∈ terminalStatuses) ∧ doneAt.isSome then
    match rt.numberLe (doneAt.getD "") cutoff with
    | none => raise "attempt to compare nil with number"
    | some true =>
        deleteTask dataHash metaPrefix taskId
        pure (deleted + 1)
    | some false => pure deleted
  else
    pure deleted

def vacuumBefore (seconds : Nat) : Script Store Nat := do
  let time ← command Store.clock id
  let taskIds ← hkeys rt.members dataHash
  taskIds.foldlM
    (vacuumTaskBefore rt dataHash metaPrefix ((time / 1000 : Nat) - (seconds : Int))) 0

end Vacuum

end Lua

open Lua Redis Script

namespace Store

/-- The data and the metadata of one task are gone. -/
def discard (s : Store) (taskId : String) : Store :=
  let jobMeta := Function.update s.jobMeta "result"
    (Hash.eraseAll (s.jobMeta "result") [taskId])
  { s with
    jobData := Hash.eraseAll s.jobData [taskId]
    jobMeta := Function.update jobMeta taskId ∅ }

/-- Whether the recorded status is one of the terminal ones. -/
def Terminal (s : Store) (taskId : String) : Prop :=
  ((s.jobMeta taskId).lookup "status").any (· ∈ terminalStatuses) = true

instance (s : Store) (taskId : String) : Decidable (s.Terminal taskId) :=
  inferInstanceAs (Decidable (_ = true))

/-- Whether the task has finished by the cutoff, according to its metadata. -/
def DoneBy (s : Store) (rt : Runtime) (cutoff : Int) (taskId : String) : Prop :=
  ((s.jobMeta taskId).lookup "done_at").bind (rt.numberLe · cutoff) = some true

instance (s : Store) (rt : Runtime) (cutoff : Int) (taskId : String) :
    Decidable (s.DoneBy rt cutoff taskId) :=
  inferInstanceAs (Decidable (_ = some true))

end Store

namespace Lua

section Specs

variable (rt : Runtime) (queue : String)

theorem run_deleteTask
    (taskId : String)
    (s : Store) :
    (deleteTask (Keys.jobDataHash queue) (Keys.jobMetaHash queue) taskId).run s =
      (.ok (), s.discard taskId) := by
  simp [deleteTask, Store.discard]

theorem run_vacuumTask
    (deleted : Nat)
    (taskId : String)
    (s : Store) :
    (vacuumTask (Keys.jobDataHash queue) (Keys.jobMetaHash queue) deleted taskId).run s =
      if s.Terminal taskId then (.ok (deleted + 1), s.discard taskId)
      else (.ok deleted, s) := by
  by_cases hterminal : s.Terminal taskId
  · have hany := hterminal
    unfold Store.Terminal at hany
    simp only [vacuumTask, Keys.jobMetaHash_get, hget, run_command_bind, id, hany]
    simp [run_map, run_deleteTask, hterminal]
  · have hany := hterminal
    unfold Store.Terminal at hany
    simp only [vacuumTask, Keys.jobMetaHash_get, hget, run_command_bind, id, hany]
    simp [hterminal]

/-- One task of `vacuum_before.lua`: it goes when its status is terminal and it
finished by the cutoff. -/
theorem run_vacuumTaskBefore
    (cutoff : Int)
    (deleted : Nat)
    (taskId : String)
    (s : Store) :
    ((vacuumTaskBefore rt (Keys.jobDataHash queue) (Keys.jobMetaHash queue) cutoff deleted
        taskId).run s).2 =
      if s.Terminal taskId ∧ s.DoneBy rt cutoff taskId then s.discard taskId else s := by
  by_cases hterminal : s.Terminal taskId
  · have hany := hterminal
    unfold Store.Terminal at hany
    cases hdone : (s.jobMeta taskId).lookup "done_at" with
    | none =>
        simp [vacuumTaskBefore, Store.DoneBy, hdone]
    | some text =>
        simp only [vacuumTaskBefore, Keys.jobMetaHash_get, hget, run_command_bind, id, hany, hdone]
        rcases hle : rt.numberLe text cutoff with _ | _ | _
        · simp [Store.DoneBy, hdone, hle]
        · simp [Store.DoneBy, hdone, hle]
        · simp [Store.DoneBy, hdone, hle, run_map, run_deleteTask, hterminal]
  · have hany := hterminal
    unfold Store.Terminal at hany
    simp only [vacuumTaskBefore, Keys.jobMetaHash_get, hget, run_command_bind, id, hany]
    simp [hterminal]

end Specs
end Lua
end ApalisRedis
