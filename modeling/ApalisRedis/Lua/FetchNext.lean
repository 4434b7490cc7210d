import ApalisRedis.Lua.BatchPush

/-!
# `fetch_next.lua`

Promote the due scheduled tasks, hand the first tasks of the active list to a
registered worker, and reply with their data and metadata.
-/

namespace ApalisRedis
namespace Lua

open Redis Script

/-- The script's reply: the data of each task, and its id-prefixed metadata. -/
abbrev FetchReply := List (Option Bytes) × List (List String)

section FetchNext

variable (rt : Runtime)
variable (workersSet : Key Store ZSet)
variable (activeList : Key Store (List String))
variable (inflightSet : Key Store (Finset String))
variable (dataHash : Key Store (Hash Bytes))
variable (signalList : Key Store (List String))
variable (metaPrefix : String → Key Store (Hash String))
variable (scheduledSet : Key Store ZSet)

/-- Field names and values alternating, as `HGETALL` replies. -/
def flatten (fields : List (String × String)) : List String :=
  fields.flatMap fun f => [f.1, f.2]

/-- Step 1: promote the due scheduled jobs. -/
def promoteDue (now : Nat) : Script Store Unit := do
  let scheduledIds ← zrangebyscore scheduledSet 0 now
  if 0 < scheduledIds.length then
    rt.unpack scheduledIds.length
    let _ ← rpush activeList scheduledIds
    rt.unpack scheduledIds.length
    zrem scheduledSet scheduledIds
    setSignal signalList

/-- The metadata of one task with the id as the first element. -/
def metaRow (taskId : String) : Script Store (List String) := do
  let fields ← hgetall (metaPrefix taskId)
  pure (taskId :: flatten (rt.fields fields))

/-- Step 2 for a non-empty range: mark the jobs as inflight and read them. -/
def deliver (taskIds : List String) : Script Store FetchReply := do
  rt.unpack taskIds.length
  saddAll inflightSet taskIds
  ltrim activeList taskIds.length (-1)
  rt.unpack taskIds.length
  let results ← hmget dataHash taskIds
  let rows ← taskIds.mapM (metaRow rt metaPrefix)
  pure (results, rows)

/-- The whole script. -/
def fetchNext (now batchSize : Nat) (worker : String) : Script Store FetchReply := do
  let registered ← zscore workersSet worker
  if registered.isNone then
    raise "Cant fetch next: worker not registered"
  promoteDue rt activeList signalList scheduledSet now
  let taskIds ← lrange activeList 0 ((batchSize : Int) - 1)
  let reply ←
    if 0 < taskIds.length then
      deliver rt activeList inflightSet dataHash metaPrefix taskIds
    else
      pure ([], [])
  if taskIds.length < batchSize then
    delList signalList
  pure reply

end FetchNext

end Lua

open Lua Redis Script

namespace Store

/-- The scheduled tasks that are due, in the order they are promoted. -/
def due (s : Store) (now : Nat) : List String :=
  s.scheduledJobs.rangeByScore 0 now

/-- Scheduled tasks become active. -/
def promote (s : Store) (taskIds : List String) : Store :=
  { s with
    activeJobs := s.activeJobs ++ taskIds
    scheduledJobs := Hash.eraseAll s.scheduledJobs taskIds }

/-- Step 1 of a fetch. -/
def promoted (s : Store) (now : Nat) : Store :=
  if s.due now = [] then s else (s.promote (s.due now)).wake

/-- The first active tasks become a worker's. -/
def deliver (s : Store) (worker : String) (taskIds : List String) : Store :=
  { s with
    inflightJobs := Function.update s.inflightJobs worker
      (s.inflightJobs worker ∪ taskIds.toFinset)
    activeJobs := s.activeJobs.drop taskIds.length }

/-- The ids that a fetch of `batchSize` takes from the active list. -/
def front (s : Store) (batchSize : Nat) : List String :=
  slice s.activeJobs 0 ((batchSize : Int) - 1)

/-- What the script replies about the tasks it hands out. -/
def reply (s : Store) (rt : Runtime) (taskIds : List String) : FetchReply :=
  (taskIds.map s.jobData.lookup,
    taskIds.map fun id => id :: flatten (rt.fields (s.jobMeta id)))

/-- The signal list is emptied by a fetch that got less than it asked for. -/
def quiet (s : Store) (b : Bool) : Store :=
  { s with signal := if b then [] else s.signal }

end Store

/-- A promotion moves ids only. -/
theorem kept_promoted
    (now : Nat)
    (s : Store) :
    (s.promoted now).doneJobs = s.doneJobs ∧ (s.promoted now).deadJobs = s.deadJobs ∧
      (s.promoted now).jobData = s.jobData ∧ (s.promoted now).jobMeta = s.jobMeta := by
  unfold Store.promoted
  split <;> exact ⟨rfl, rfl, rfl, rfl⟩

theorem inflightJobs_promoted
    (now : Nat)
    (s : Store) :
    (s.promoted now).inflightJobs = s.inflightJobs := by
  unfold Store.promoted
  split <;> rfl

theorem reply_promoted
    (rt : Runtime)
    (now : Nat)
    (taskIds : List String)
    (s : Store) :
    (s.promoted now).reply rt taskIds = s.reply rt taskIds := by
  obtain ⟨-, -, hdata, hmeta⟩ := kept_promoted now s
  rw [Store.reply, hdata, hmeta]
  rfl

namespace Lua

section Specs

variable (rt : Runtime) (queue worker : String)

theorem run_promoteDue
    (now : Nat)
    (s : Store) :
    (promoteDue rt (Keys.activeJobsList queue) (Keys.signalList queue)
        (Keys.scheduledJobsSet queue) now).run s =
      if rt.Fits (s.due now).length then (.ok (), s.promoted now)
      else (.error "too many results to unpack", s) := by
  have hrange : s.scheduledJobs.rangeByScore 0 now = s.due now := rfl
  by_cases hdue : s.due now = []
  · simp [promoteDue, hrange, hdue, rt.fits_zero, Store.promoted]
  · have hlen : 0 < (s.due now).length := List.length_pos_iff.mpr hdue
    by_cases hfits : rt.Fits (s.due now).length
    · simp [promoteDue, hrange, hdue, hlen, hfits, Store.promoted, Store.promote, Store.wake]
    · simp [promoteDue, hrange, hlen, hfits]

theorem run_metaRow
    (taskId : String)
    (s : Store) :
    (metaRow rt (Keys.jobMetaHash queue) taskId).run s =
      (.ok (taskId :: flatten (rt.fields (s.jobMeta taskId))), s) := by
  simp [metaRow]

theorem run_metaRows
    (taskIds : List String)
    (s : Store) :
    (taskIds.mapM (metaRow rt (Keys.jobMetaHash queue))).run s =
      (.ok (s.reply rt taskIds).2, s) := by
  induction taskIds with
  | nil => simp [Store.reply]
  | cons id ids ih =>
      rw [List.mapM_cons, run_bind_ok (run_metaRow rt queue id s), run_bind_ok ih]
      rfl

theorem run_deliver
    (taskIds : List String)
    (s : Store) :
    (deliver rt (Keys.activeJobsList queue) (Keys.inflightSetFor queue worker)
        (Keys.jobDataHash queue) (Keys.jobMetaHash queue) taskIds).run s =
      if rt.Fits taskIds.length then (.ok (s.reply rt taskIds), s.deliver worker taskIds)
      else (.error "too many results to unpack", s) := by
  by_cases hfits : rt.Fits taskIds.length
  · simp [deliver, hfits, slice_neg_one, run_map, run_metaRows, Store.deliver, Store.reply]
  · simp [deliver, hfits]

/-- **What `fetch_next.lua` does.** -/
theorem run_fetchNext
    (now batchSize : Nat)
    (s : Store) :
    (fetchNext rt (Keys.workersSet queue) (Keys.activeJobsList queue)
        (Keys.inflightSetFor queue worker) (Keys.jobDataHash queue) (Keys.signalList queue)
        (Keys.jobMetaHash queue) (Keys.scheduledJobsSet queue) now batchSize worker).run s =
      if worker ∉ s.workers then (.error "Cant fetch next: worker not registered", s)
      else if ¬rt.Fits (s.due now).length then (.error "too many results to unpack", s)
      else if ¬rt.Fits ((s.promoted now).front batchSize).length then
        (.error "too many results to unpack", s.promoted now)
      else
        (.ok ((s.promoted now).reply rt ((s.promoted now).front batchSize)),
          ((s.promoted now).deliver worker ((s.promoted now).front batchSize)).quiet
            (decide (((s.promoted now).front batchSize).length < batchSize))) := by
  have hpromote := run_promoteDue rt queue now s
  by_cases hworker : worker ∈ s.workers
  · by_cases hdue : rt.Fits (s.due now).length
    · rw [if_pos hdue] at hpromote
      have hslice : slice (s.promoted now).activeJobs 0 ((batchSize : Int) - 1) =
        (s.promoted now).front batchSize := rfl
      have hdeliver := run_deliver rt queue worker ((s.promoted now).front batchSize)
        (s.promoted now)
      by_cases hids : (s.promoted now).front batchSize = []
      · simp [fetchNext, Finmap.lookup_eq_none, hworker, hdue, run_bind_ok hpromote, hslice,
          hids, rt.fits_zero, Store.reply, Store.deliver, Store.quiet]
        split <;> simp
      · have hlen : 0 < ((s.promoted now).front batchSize).length :=
          List.length_pos_iff.mpr hids
        by_cases hfits : rt.Fits ((s.promoted now).front batchSize).length
        · rw [if_pos hfits] at hdeliver
          simp [fetchNext, Finmap.lookup_eq_none, hworker, hdue, run_bind_ok hpromote, hslice,
            hlen, hfits, run_bind_ok hdeliver, Store.quiet]
          split <;> simp
        · rw [if_neg hfits] at hdeliver
          simp [fetchNext, Finmap.lookup_eq_none, hworker, hdue, run_bind_ok hpromote, hslice,
            hlen, hfits, run_bind_error hdeliver]
    · rw [if_neg hdue] at hpromote
      simp [fetchNext, Finmap.lookup_eq_none, hworker, hdue, run_bind_error hpromote]
  · simp [fetchNext, Finmap.lookup_eq_none, hworker]

/-- The three ends of a fetch: refused before any write, stuck after promoting,
or served. -/
theorem fetchNext_cases
    (now batchSize : Nat)
    (s : Store) :
    let outcome := (fetchNext rt (Keys.workersSet queue) (Keys.activeJobsList queue)
      (Keys.inflightSetFor queue worker) (Keys.jobDataHash queue) (Keys.signalList queue)
      (Keys.jobMetaHash queue) (Keys.scheduledJobsSet queue) now batchSize worker).run s
    let ids := (s.promoted now).front batchSize
    (¬(worker ∈ s.workers ∧ rt.Fits (s.due now).length) ∧
        ∃ message, outcome = (.error message, s)) ∨
      ((worker ∈ s.workers ∧ rt.Fits (s.due now).length) ∧ ¬rt.Fits ids.length ∧
        outcome = (.error "too many results to unpack", s.promoted now)) ∨
      ((worker ∈ s.workers ∧ rt.Fits (s.due now).length) ∧ rt.Fits ids.length ∧
        outcome = (.ok ((s.promoted now).reply rt ids),
          ((s.promoted now).deliver worker ids).quiet (decide (ids.length < batchSize)))) := by
  intro outcome ids
  have hrun := run_fetchNext rt queue worker now batchSize s
  by_cases hworker : worker ∈ s.workers
  · by_cases hdue : rt.Fits (s.due now).length
    · rw [if_neg (not_not.mpr hworker), if_neg (not_not.mpr hdue)] at hrun
      by_cases hids : rt.Fits ids.length
      · rw [if_neg (not_not.mpr hids)] at hrun
        exact .inr (.inr ⟨⟨hworker, hdue⟩, hids, hrun⟩)
      · rw [if_pos hids] at hrun
        exact .inr (.inl ⟨⟨hworker, hdue⟩, hids, hrun⟩)
    · rw [if_neg (not_not.mpr hworker), if_pos hdue] at hrun
      exact .inl ⟨fun h => hdue h.2, _, hrun⟩
  · rw [if_pos hworker] at hrun
    exact .inl ⟨fun h => hworker h.1, _, hrun⟩

/-- A fetch that is served replies about tasks of the state before it. -/
theorem reply_fetchNext
    {now batchSize : Nat}
    {s t : Store}
    {reply : FetchReply}
    (hrun : (fetchNext rt (Keys.workersSet queue) (Keys.activeJobsList queue)
      (Keys.inflightSetFor queue worker) (Keys.jobDataHash queue) (Keys.signalList queue)
      (Keys.jobMetaHash queue) (Keys.scheduledJobsSet queue) now batchSize worker).run s =
        (.ok reply, t)) :
    reply = s.reply rt ((s.promoted now).front batchSize) := by
  rcases fetchNext_cases rt queue worker now batchSize s with
    ⟨-, message, hfetch⟩ | ⟨-, -, hfetch⟩ | ⟨-, -, hfetch⟩
  · cases hfetch.symm.trans hrun
  · cases hfetch.symm.trans hrun
  · have hreply := Except.ok.inj (congrArg Prod.fst (hfetch.symm.trans hrun))
    rw [← hreply, reply_promoted]

end Specs
end Lua
end ApalisRedis
