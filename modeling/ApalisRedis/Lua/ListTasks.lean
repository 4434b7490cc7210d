import ApalisRedis.RawKeys
import ApalisRedis.Systems.Pages

/-!
# `list_tasks.lua`

List one page of the tasks of a list, and of these the tasks that have the
status.  The list is at whatever key the caller names.
-/

namespace ApalisRedis
namespace Lua

open Redis Script

section ListTasks

variable (rt : Runtime)
variable (dataHash : Key Store (Hash Bytes))
variable (metaPrefix : String → Key Store (Hash String))

/-- The body of the loop over the page. -/
def listTask (statusFilter taskId : String) :
    Script Store (Option (Option Bytes × List String)) := do
  let metaFields ← hgetall (metaPrefix taskId)
  if statusFilter = "" then
    let data ← hmget dataHash [taskId]
    pure (some (data.head?.join, taskId :: flatten (rt.fields metaFields)))
  else
    let status ← hget (metaPrefix taskId) "status"
    if status = some statusFilter then
      let data ← hmget dataHash [taskId]
      pure (some (data.head?.join, taskId :: flatten (rt.fields metaFields)))
    else
      pure none

/-- The loop. -/
def listTaskRows (statusFilter : String) (taskIds : List String) : Script Store FetchReply := do
  let listed ← taskIds.mapM (listTask rt dataHash metaPrefix statusFilter)
  pure (listed.filterMap id).unzip

/-- The whole script; `queue` is the queue that the data and the metadata belong to. -/
def listTasks (queue queueList statusFilter : String) (page pageSize : Nat) :
    Script Keyspace FetchReply := do
  let start : Int := ((page : Int) - 1) * pageSize
  let stop : Int := start + pageSize - 1
  let taskIds ← readAt .list queueList fun xs => slice xs start stop
  if taskIds.isEmpty then
    pure ([], [])
  else
    reading queue (listTaskRows rt dataHash metaPrefix statusFilter taskIds)

end ListTasks

section Specs

variable (rt : Runtime) (queue : String)

/-- `LRANGE` with the bounds of a page. -/
theorem slice_eq_page
    {α : Type}
    (xs : List α)
    {page pageSize : Nat}
    (hpage : 1 ≤ page)
    (hsize : 1 ≤ pageSize) :
    slice xs (((page : Int) - 1) * pageSize) (((page : Int) - 1) * pageSize + pageSize - 1) =
      Systems.page xs page pageSize := by
  have hfrom : (fromEnd xs.length (((page - 1) * pageSize : Nat) : Int)).toNat =
      (page - 1) * pageSize := by
    unfold fromEnd
    split <;> omega
  have hto : (fromEnd xs.length ((((page - 1) * pageSize : Nat) : Int) + pageSize - 1) + 1).toNat =
      (page - 1) * pageSize + pageSize := by
    unfold fromEnd
    split <;> omega
  rw [Systems.start_eq hpage, slice, hfrom, hto, List.drop_take, Nat.add_sub_cancel_left]
  rfl

/-- Without a status all tasks of the page are shown. -/
theorem run_listTaskRows
    (taskIds : List String)
    (s : Store) :
    (listTaskRows rt (Keys.jobDataHash queue) (Keys.jobMetaHash queue) "" taskIds).run s =
      (.ok (s.reply rt taskIds), s) := by
  have hrows : (taskIds.mapM (listTask rt (Keys.jobDataHash queue) (Keys.jobMetaHash queue)
      "")).run s = (.ok (taskIds.map fun id =>
        some (s.jobData.lookup id, id :: flatten (rt.fields (s.jobMeta id)))), s) := by
    induction taskIds with
    | nil => rfl
    | cons id ids ih =>
        have hfirst : (listTask rt (Keys.jobDataHash queue) (Keys.jobMetaHash queue) "" id).run s =
            (.ok (some (s.jobData.lookup id, id :: flatten (rt.fields (s.jobMeta id)))), s) := by
          simp [listTask]
        rw [List.mapM_cons, run_bind_ok hfirst, run_bind_ok ih]
        rfl
  have hkept : (taskIds.map fun id =>
      some (s.jobData.lookup id, id :: flatten (rt.fields (s.jobMeta id)))).filterMap id =
        taskIds.map fun id => (s.jobData.lookup id, id :: flatten (rt.fields (s.jobMeta id))) := by
    rw [List.filterMap_map]
    exact congrFun List.filterMap_eq_map taskIds
  rw [listTaskRows, run_bind_ok hrows, hkept, List.unzip_eq_map, List.map_map, List.map_map]
  rfl

end Specs

end Lua
end ApalisRedis
