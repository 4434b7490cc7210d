import ApalisRedis.Lua.FetchNext
import ApalisRedis.Systems.Pages

/-!
# `list_all_tasks.lua`

List the tasks of some queues: sort all ids, take one page of them, and reply
with the tasks of the page that have the status.
-/

namespace ApalisRedis
namespace Lua

open Redis Script

section ListAllTasks

variable (rt : Runtime)

/-- A task id with the data hash and the metadata prefix of its queue. -/
structure TaskEntry where
  taskId : String
  dataKey : Key Store (Hash Bytes)
  metaPrefix : String → Key Store (Hash String)

/-- Collect the task ids of one queue. -/
def queueEntries (keys : Key Store (Hash Bytes) × (String → Key Store (Hash String))) :
    Script Store (List TaskEntry) := do
  let ids ← hkeys rt.members keys.1
  pure (ids.map fun id => ⟨id, keys.1, keys.2⟩)

/-- One entry of the page: its data and its metadata, unless its status is another one. -/
def listEntry (statusFilter : String) (entry : TaskEntry) :
    Script Store (Option (Option Bytes × List String)) := do
  let included ←
    if statusFilter ≠ "" then do
      let status ← hget (entry.metaPrefix entry.taskId) "status"
      pure (decide (status = some statusFilter))
    else
      pure true
  if included then
    let data ← hmget entry.dataKey [entry.taskId]
    let metaFields ← hgetall (entry.metaPrefix entry.taskId)
    pure (some (data.head?.join, entry.taskId :: flatten (rt.fields metaFields)))
  else
    pure none

/-- The whole script, for the keys of one or more queues. -/
def listAllTasks (keys : List (Key Store (Hash Bytes) × (String → Key Store (Hash String))))
    (statusFilter : String) (page pageSize : Nat) : Script Store FetchReply := do
  let start : Int := ((page : Int) - 1) * pageSize
  let stop : Int := start + pageSize - 1
  let entries ← keys.mapM (queueEntries rt)
  let taskEntries := entries.flatten
  if taskEntries.isEmpty then
    pure ([], [])
  else
    let sorted := taskEntries.insertionSort fun a b => a.taskId ≤ b.taskId
    -- A Lua table has nothing at the positions up to 0.
    let paginated := (sorted.take (min (stop + 1) sorted.length).toNat).drop start.toNat
    let listed ← paginated.mapM (listEntry rt statusFilter)
    pure (listed.filterMap id).unzip

end ListAllTasks

end Lua

open Lua Redis Script

namespace Store

/-- The ids of the data hash, in increasing order. -/
def taskIds (s : Store) : List String :=
  ordered s.jobData.keys.val

/-- Whether a task has the status that is asked for, if any is. -/
def hasStatus (s : Store) (statusFilter : String) (taskId : String) : Bool :=
  statusFilter = "" || (s.jobMeta taskId).lookup "status" = some statusFilter

end Store

namespace Lua

section Specs

variable (rt : Runtime) (queue : String)

/-- The window of the Lua loop is the page. -/
theorem window_eq_page
    {α : Type}
    (xs : List α)
    {page pageSize : Nat}
    (hpage : 1 ≤ page) :
    (xs.take (min (((page : Int) - 1) * pageSize + pageSize - 1 + 1) xs.length).toNat).drop
        (((page : Int) - 1) * pageSize).toNat = Systems.page xs page pageSize := by
  have hstop : (min (((page - 1) * pageSize : Nat) + (pageSize : Int) - 1 + 1)
      xs.length).toNat = min ((page - 1) * pageSize + pageSize) xs.length := by
    omega
  rw [Systems.start_eq hpage, hstop, Int.toNat_natCast, List.take_eq_take_min.symm, List.drop_take,
    Nat.add_sub_cancel_left]
  rfl

theorem run_listEntry
    (statusFilter taskId : String)
    (s : Store) :
    (listEntry rt statusFilter
        ⟨taskId, Keys.jobDataHash queue, Keys.jobMetaHash queue⟩).run s =
      (.ok (if s.hasStatus statusFilter taskId then
          some (s.jobData.lookup taskId, taskId :: flatten (rt.fields (s.jobMeta taskId)))
        else none), s) := by
  unfold listEntry Store.hasStatus
  by_cases hfilter : statusFilter = ""
  · simp [hfilter]
  · by_cases hstatus : (s.jobMeta taskId).lookup "status" = some statusFilter
    · simp [hfilter, hstatus]
    · simp [hfilter, hstatus]

theorem run_listEntries
    (statusFilter : String)
    (taskIds : List String)
    (s : Store) :
    ((taskIds.map fun id =>
        (⟨id, Keys.jobDataHash queue, Keys.jobMetaHash queue⟩ : TaskEntry)).mapM
      (listEntry rt statusFilter)).run s =
      (.ok (taskIds.map fun id => if s.hasStatus statusFilter id then
          some (s.jobData.lookup id, id :: flatten (rt.fields (s.jobMeta id)))
        else none), s) := by
  induction taskIds with
  | nil => rfl
  | cons id ids ih =>
      rw [List.map_cons, List.mapM_cons, run_bind_ok (run_listEntry rt queue statusFilter id s),
        run_bind_ok ih]
      rfl

/-- The entries that have the status are those of the filtered ids. -/
theorem unzip_listed
    (statusFilter : String)
    (taskIds : List String)
    (s : Store) :
    ((taskIds.map fun id => if s.hasStatus statusFilter id then
        some (s.jobData.lookup id, id :: flatten (rt.fields (s.jobMeta id)))
      else none).filterMap id).unzip =
      s.reply rt (taskIds.filter (s.hasStatus statusFilter)) := by
  induction taskIds with
  | nil => rfl
  | cons id ids ih =>
      by_cases hstatus : s.hasStatus statusFilter id
      · rw [List.map_cons, if_pos hstatus, List.filter_cons_of_pos hstatus]
        change ((_, _) :: List.filterMap _ _).unzip = _
        rw [List.unzip_cons, ih]
        rfl
      · rw [List.map_cons, if_neg hstatus, List.filter_cons_of_neg hstatus, ← ih]
        rfl

/-- The collected entries of one queue, sorted, are those of the ids in order. -/
theorem sorted_entries
    (entry : String → TaskEntry)
    (hentry : ∀ id, (entry id).taskId = id)
    (s : Store) :
    ((rt.members s.jobData.keys).map entry).insertionSort (fun a b => a.taskId ≤ b.taskId) =
      s.taskIds.map entry := by
  rw [Store.taskIds, ← insertionSort_enumeration (rt.nodup_members _) fun _ => rt.mem_members]
  refine (List.map_insertionSort _ _ entry _ fun a _ b _ => ?_).symm
  rw [hentry, hentry]

/-- **What `list_all_tasks.lua` does** with the keys of one queue. -/
theorem run_listAllTasks
    (statusFilter : String)
    {page : Nat}
    (hpage : 1 ≤ page)
    (pageSize : Nat)
    (s : Store) :
    (listAllTasks rt [(Keys.jobDataHash queue, Keys.jobMetaHash queue)] statusFilter page
        pageSize).run s =
      (.ok (s.reply rt ((Systems.page s.taskIds page pageSize).filter
        (s.hasStatus statusFilter))), s) := by
  let entry : String → TaskEntry :=
    fun id => ⟨id, Keys.jobDataHash queue, Keys.jobMetaHash queue⟩
  have hentries : (listAllTasks rt [(Keys.jobDataHash queue, Keys.jobMetaHash queue)] statusFilter
      page pageSize).run s =
        (let taskEntries := (rt.members s.jobData.keys).map entry
        if taskEntries.isEmpty then
          pure ([], [])
        else do
          let sorted := taskEntries.insertionSort fun a b => a.taskId ≤ b.taskId
          let paginated := (sorted.take
            (min (((page : Int) - 1) * pageSize + pageSize - 1 + 1) sorted.length).toNat).drop
              (((page : Int) - 1) * pageSize).toNat
          let listed ← paginated.mapM (listEntry rt statusFilter)
          pure (listed.filterMap id).unzip : Script Store FetchReply).run s := by
    simp [listAllTasks, queueEntries, entry]
  have hsorted := sorted_entries rt entry (fun _ => rfl) s
  rw [hentries]
  cases htaskEntries : (rt.members s.jobData.keys).map entry with
  | nil =>
      rw [htaskEntries, List.insertionSort_nil, eq_comm, List.map_eq_nil_iff] at hsorted
      rw [hsorted, Systems.page_eq_nil_of_short (Nat.zero_le _)]
      rfl
  | cons first rest =>
      rw [htaskEntries] at hsorted
      dsimp only
      rw [hsorted, window_eq_page _ hpage]
      have hpaged : Systems.page (s.taskIds.map entry) page pageSize =
          (Systems.page s.taskIds page pageSize).map entry := by
        simp [Systems.page, List.map_take, List.map_drop]
      rw [hpaged, if_neg (by simp), run_bind_ok (run_listEntries rt queue statusFilter _ s),
        unzip_listed]
      rfl

end Specs

end Lua

end ApalisRedis
