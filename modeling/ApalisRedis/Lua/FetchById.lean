import ApalisRedis.Lua.FetchNext

/-!
# `fetch_by_id.lua`

Reply with the data and the metadata of one task, in the form in which
`fetch_next.lua` replies with those of a batch.
-/

namespace ApalisRedis
namespace Lua

open Redis Script

/-- The replies of the script. -/
inductive ByIdReply where
  | error (message : String)
  | status (text : String)
  | found (reply : FetchReply)

/-- `fetch_by_id.lua`: `argv` is `ARGV[1]`. -/
def fetchById (rt : Runtime) (dataHash : Key Store (Hash Bytes))
    (metaPrefix : String → Key Store (Hash String)) (argv : Option String) :
    Script Store ByIdReply :=
  match argv with
  | none => pure (.error "missing task ID")
  | some taskId => do
      let taskData ← hmget dataHash [taskId]
      if taskData.head?.join.isNone then
        pure (.status "not_found")
      else
        let fields ← hgetall (metaPrefix taskId)
        pure (.found (taskData, [taskId :: flatten (rt.fields fields)]))

/-- **What `fetch_by_id.lua` does** for a task id. -/
theorem run_fetchById
    (rt : Runtime)
    (queue taskId : String)
    (s : Store) :
    (fetchById rt (Keys.jobDataHash queue) (Keys.jobMetaHash queue) (some taskId)).run s =
      (.ok (if taskId ∈ s.jobData then .found (s.reply rt [taskId])
        else .status "not_found"), s) := by
  by_cases hstored : taskId ∈ s.jobData
  · have hsome : s.jobData.lookup taskId ≠ none := fun h => Finmap.lookup_eq_none.mp h hstored
    simp [fetchById, hsome, hstored, Store.reply]
  · have hnone : s.jobData.lookup taskId = none := Finmap.lookup_eq_none.mpr hstored
    simp [fetchById, hnone, hstored]

end Lua

end ApalisRedis
