import ApalisRedis.Listing
import ApalisRedis.Lua.FetchById

/-!
# Three readers of a task

`fetch_by_id.lua`, `list_all_tasks.lua` and `fetch_next.lua` each put together
the data of a task and its metadata, and the client decodes all three replies by
the same function.

**Results.**
* `reply_names_iff`: where a reply about some tasks names a task.
* `readers_agree`: in every state, for every task, the three replies agree, and
  so do the decoded tasks.
-/

namespace ApalisRedis

open Lua Redis Script

/-- The entries at the position of the two lists. -/
def Lua.FetchReply.Has (reply : FetchReply) (i : Nat) (data : Option Bytes)
    (row : List String) : Prop :=
  reply.1[i]? = some data ∧ reply.2[i]? = some row

/-- The row at the position is the one of the task. -/
def Lua.FetchReply.Names (reply : FetchReply) (i : Nat) (taskId : String) : Prop :=
  ∃ row, reply.2[i]? = some row ∧ row.head? = some taskId

section Rows

variable {rt : Runtime} {s : Store} {taskIds : List String} {i : Nat} {taskId : String}

/-- A reply about some tasks names a task where the task stands among them. -/
theorem reply_names_iff :
    FetchReply.Names (s.reply rt taskIds) i taskId ↔ taskIds[i]? = some taskId := by
  unfold FetchReply.Names Store.reply
  simp only [List.getElem?_map]
  cases taskIds[i]? <;> simp

/-- What stands there. -/
theorem reply_has
    (h : taskIds[i]? = some taskId) :
    FetchReply.Has (s.reply rt taskIds) i (s.jobData.lookup taskId)
      (taskId :: flatten (rt.fields (s.jobMeta taskId))) := by
  unfold FetchReply.Has Store.reply
  simp only [List.getElem?_map, h]
  exact ⟨rfl, rfl⟩

end Rows

section Readers

variable (rt : Runtime) (cfg : Config)

/-- The call of `fetch_by_id.lua`. -/
def fetchByIdScript (taskId : String) : Script Store ByIdReply :=
  Lua.fetchById rt (Keys.jobDataHash cfg.queue) (Keys.jobMetaHash cfg.queue) (some taskId)

/-- `fetch_by_id` -/
def RedisStorage.fetchById {core : Core} (taskId : core.TaskId) :
    Script Store (Option (RedisTask core)) := do
  let result ← fetchByIdScript rt cfg (core.printTaskId taskId)
  match result with
  | .error message => raise message
  | .found reply => do
      let tasks ← fallible (deserializeWithMeta core (FetchReply.values reply))
      pure (tasks.head?.map CompactTask.intoFullCompact)
  | .status _ => pure none

/-- A page of all tasks: there is no status to filter by. -/
def unfilteredPage (page pageSize : Nat) : Script Store FetchReply :=
  Lua.listAllTasks rt [(Keys.jobDataHash cfg.queue, Keys.jobMetaHash cfg.queue)] "" page pageSize

/-- The page names the task at the position. -/
def OnPage (s : Store) (taskId : String) (page pageSize i : Nat) : Prop :=
  ∃ reply, (unfilteredPage rt cfg page pageSize).run s = (.ok reply, s) ∧
    FetchReply.Names reply i taskId

/-- The data and the row are what the readers reply for the task. -/
structure ReadAs (s : Store) (taskId : String) (data : Bytes) (row : List String) : Prop where
  byId : (fetchByIdScript rt cfg taskId).run s = (.ok (.found ([some data], [row])), s)
  named : row.head? = some taskId
  onPage : ∀ pageSize, 1 ≤ pageSize → ∃ page i, 1 ≤ page ∧
    (∃ reply, (unfilteredPage rt cfg page pageSize).run s = (.ok reply, s) ∧
      FetchReply.Has reply i (some data) row) ∧
    ∀ page' i', 1 ≤ page' → OnPage rt cfg s taskId page' pageSize i' → page' = page ∧ i' = i
  fetched : ∀ now batchSize worker reply t,
    (fetchNextScript rt cfg.queue now batchSize worker).run s = (.ok reply, t) →
      ∀ i, FetchReply.Names reply i taskId → FetchReply.Has reply i (some data) row

/-- The task is on no page and is not found, or all readers reply the same. -/
structure RepliesAgree (s : Store) (taskId : String) : Prop where
  notFound : ∀ pageSize, 1 ≤ pageSize →
    ((fetchByIdScript rt cfg taskId).run s = (.ok (.status "not_found"), s) ↔
      ∀ page i, 1 ≤ page → ¬OnPage rt cfg s taskId page pageSize i)
  found : (fetchByIdScript rt cfg taskId).run s = (.ok (.status "not_found"), s) ∨
    ∃ data row, ReadAs rt cfg s taskId data row

/-- Whoever decodes the task has the one that `fetch_by_id` returns. -/
structure DecodedAlike (core : Core) (s : Store) (taskId : core.TaskId) : Prop where
  listed : ∀ page pageSize tasks t i, 1 ≤ page →
    (RedisStorage.listAllTasks rt cfg (⟨none, page, some pageSize⟩ : Filter core)).run s =
      (.ok tasks, t) →
    OnPage rt cfg s (core.printTaskId taskId) page pageSize i →
      ∃ task, tasks[i]? = some task ∧
        (RedisStorage.fetchById rt cfg taskId).run s = (.ok (some task), s)
  fetched : ∀ now worker tasks t reply t' i,
    (fetchTasks core rt cfg now worker).run s = (.ok tasks, t) →
    (fetchNextScript rt cfg.queue now cfg.batchSize worker).run s = (.ok reply, t') →
    FetchReply.Names reply i (core.printTaskId taskId) →
      ∃ task, tasks[i]? = some task ∧
        (RedisStorage.fetchById rt cfg taskId).run s = (.ok (some task), s)

variable {rt cfg} {s : Store}

theorem run_fetchByIdScript
    (taskId : String) :
    (fetchByIdScript rt cfg taskId).run s =
      (.ok (if taskId ∈ s.jobData then .found (s.reply rt [taskId])
        else .status "not_found"), s) :=
  run_fetchById rt cfg.queue taskId s

/-- Without a filter a page shows all its tasks. -/
theorem run_unfilteredPage
    {page : Nat}
    (hpage : 1 ≤ page)
    (pageSize : Nat) :
    (unfilteredPage rt cfg page pageSize).run s =
      (.ok (s.reply rt (Systems.page s.taskIds page pageSize)), s) := by
  have hall : (Systems.page s.taskIds page pageSize).filter (s.hasStatus "") =
      Systems.page s.taskIds page pageSize :=
    List.filter_eq_self.mpr fun _ _ => rfl
  rw [unfilteredPage, run_listAllTasks rt cfg.queue "" hpage, hall]

theorem onPage_iff
    {taskId : String}
    {page : Nat}
    (hpage : 1 ≤ page)
    {pageSize i : Nat} :
    OnPage rt cfg s taskId page pageSize i ↔
      (Systems.page s.taskIds page pageSize)[i]? = some taskId := by
  unfold OnPage
  rw [run_unfilteredPage hpage, ← @reply_names_iff rt s]
  constructor
  · rintro ⟨reply, hrun, hnames⟩
    cases hrun
    exact hnames
  · exact fun hnames => ⟨_, rfl, hnames⟩

theorem mem_taskIds
    {taskId : String} :
    taskId ∈ s.taskIds ↔ taskId ∈ s.jobData := by
  rw [Store.taskIds, mem_ordered]
  exact Finmap.mem_keys

/-- Every task is on one page of a given size, at one position. -/
theorem exists_onPage
    {taskId : String}
    (hstored : taskId ∈ s.jobData)
    {pageSize : Nat}
    (hsize : 1 ≤ pageSize) :
    ∃ page i, 1 ≤ page ∧ OnPage rt cfg s taskId page pageSize i ∧
      ∀ page' i', 1 ≤ page' → OnPage rt cfg s taskId page' pageSize i' →
        page' = page ∧ i' = i := by
  obtain ⟨place, hplace⟩ := List.mem_iff_getElem?.mp (mem_taskIds.mpr hstored)
  have hpages : ∀ {page i}, 1 ≤ page → (OnPage rt cfg s taskId page pageSize i ↔
      page = place / pageSize + 1 ∧ i = place % pageSize) :=
    fun hpage => (onPage_iff hpage).trans
      (Systems.page_getElem?_iff (nodup_taskIds s) hsize hpage hplace)
  have hfirst : 1 ≤ place / pageSize + 1 := Nat.le_add_left 1 _
  exact ⟨_, _, hfirst, (hpages hfirst).mpr ⟨rfl, rfl⟩, fun _ _ hpage => (hpages hpage).mp⟩

/-- What stands at the position of a task on a page. -/
theorem OnPage.has
    {taskId : String}
    {page pageSize i : Nat}
    (h : OnPage rt cfg s taskId page pageSize i)
    (hpage : 1 ≤ page) :
    ∃ reply, (unfilteredPage rt cfg page pageSize).run s = (.ok reply, s) ∧
      FetchReply.Has reply i (s.jobData.lookup taskId)
        (taskId :: flatten (rt.fields (s.jobMeta taskId))) :=
  ⟨_, run_unfilteredPage hpage pageSize, reply_has ((onPage_iff hpage).mp h)⟩

theorem readAs_of_lookup
    {taskId : String}
    {data : Bytes}
    (hdata : s.jobData.lookup taskId = some data) :
    ReadAs rt cfg s taskId data (taskId :: flatten (rt.fields (s.jobMeta taskId))) := by
  have hstored : taskId ∈ s.jobData := Finmap.mem_of_lookup_eq_some hdata
  refine ⟨?_, rfl, fun pageSize hsize => ?_, fun now batchSize worker reply t hrun i hnames => ?_⟩
  · rw [run_fetchByIdScript, if_pos hstored]
    simp [Store.reply, hdata]
  · obtain ⟨page, i, hpage, honPage, hunique⟩ :=
      @exists_onPage rt cfg s taskId hstored pageSize hsize
    have hhas := honPage.has hpage
    rw [hdata] at hhas
    exact ⟨page, i, hpage, hhas, hunique⟩
  · rw [reply_fetchNext rt cfg.queue worker hrun] at hnames ⊢
    have hhas := @reply_has rt s _ _ _ (reply_names_iff.mp hnames)
    rwa [hdata] at hhas

theorem repliesAgree
    (taskId : String) :
    RepliesAgree rt cfg s taskId := by
  by_cases hstored : taskId ∈ s.jobData
  · obtain ⟨data, hdata⟩ := Finmap.mem_iff.mp hstored
    refine ⟨fun pageSize hsize => ?_, .inr ⟨data, _, readAs_of_lookup hdata⟩⟩
    rw [run_fetchByIdScript, if_pos hstored]
    refine iff_of_false ?_ fun hnone => ?_
    · rintro ⟨⟩
    · obtain ⟨page, i, hpage, honPage, -⟩ :=
        @exists_onPage rt cfg s taskId hstored pageSize hsize
      exact hnone page i hpage honPage
  · have hrun : (fetchByIdScript rt cfg taskId).run s = (.ok (.status "not_found"), s) := by
      rw [run_fetchByIdScript, if_neg hstored]
    refine ⟨fun pageSize _ => iff_of_true hrun fun page i hpage honPage => ?_, .inl hrun⟩
    have hplace := (onPage_iff hpage).mp honPage
    have hmem := List.mem_of_getElem? hplace
    exact hstored (mem_taskIds.mp (List.mem_of_mem_drop (List.mem_of_mem_take hmem)))

variable {core : Core}

/-- `fetch_by_id` decodes the task from the store. -/
theorem run_fetchById_ok
    {taskId : core.TaskId}
    {compact : CompactTask core}
    (htask : s.taskAt core (core.printTaskId taskId) = .ok compact) :
    (RedisStorage.fetchById rt cfg taskId).run s = (.ok (some compact.intoFullCompact), s) := by
  have hstored : core.printTaskId taskId ∈ s.jobData :=
    ((exists_taskAt core s).mp ⟨compact, htask⟩).stored
  have hscript : (fetchByIdScript rt cfg (core.printTaskId taskId)).run s =
      (.ok (.found (s.reply rt [core.printTaskId taskId])), s) := by
    rw [run_fetchByIdScript, if_pos hstored]
  have hdecode : deserializeWithMeta core
      (FetchReply.values (s.reply rt [core.printTaskId taskId])) = .ok [compact] := by
    rw [deserialize_reply, List.mapM_cons, htask]
    rfl
  rw [RedisStorage.fetchById, run_bind_ok hscript]
  dsimp only
  rw [hdecode]
  rfl

/-- Of some tasks that were decoded together, each is the one at its place. -/
theorem decoded_at
    {taskIds : List String}
    {compacts : List (CompactTask core)}
    (hdecoded : taskIds.mapM (s.taskAt core) = .ok compacts)
    {taskId : core.TaskId}
    {i : Nat}
    (hplace : taskIds[i]? = some (core.printTaskId taskId)) :
    ∃ task, (compacts.map CompactTask.intoFullCompact)[i]? = some task ∧
      (RedisStorage.fetchById rt cfg taskId).run s = (.ok (some task), s) := by
  have hat := congrArg (fun outcomes => outcomes[i]?) (mapM_eq_ok.mp hdecoded)
  simp only [List.getElem?_map, hplace, Option.map_some] at hat
  obtain ⟨compact, hcompact, htask⟩ := Option.map_eq_some_iff.mp hat.symm
  refine ⟨compact.intoFullCompact, ?_, run_fetchById_ok htask.symm⟩
  rw [List.getElem?_map, hcompact]
  rfl

theorem decodedAlike
    (taskId : core.TaskId) :
    DecodedAlike rt cfg core s taskId := by
  constructor
  · intro page pageSize tasks t i hpage hclient honPage
    have hscript : (listAllTasksScript rt cfg (⟨none, page, some pageSize⟩ : Filter core)).run s =
        (.ok (s.reply rt (Systems.page s.taskIds page pageSize)), s) :=
      @run_unfilteredPage rt cfg s page hpage pageSize
    rw [RedisStorage.listAllTasks, decodeListing, run_bind_ok hscript, deserialize_reply] at hclient
    obtain ⟨compacts, u, hdecoded, hpure⟩ := run_bind_eq_ok.mp hclient
    cases hpure
    exact decoded_at (congrArg Prod.fst hdecoded) ((onPage_iff hpage).mp honPage)
  · intro now worker tasks t reply t' i hclient hscript hnames
    rw [reply_fetchNext rt cfg.queue worker hscript] at hnames
    have hplace := reply_names_iff.mp hnames
    rcases fetchTasks_cases core rt cfg now worker s with
      ⟨-, message, hrun⟩ | ⟨-, -, hrun⟩ | ⟨-, -, hrun⟩
    · cases hrun.symm.trans hclient
    · cases hrun.symm.trans hclient
    · have htasks := congrArg Prod.fst (hrun.symm.trans hclient)
      cases hdecoded : (s.nextIds cfg now).mapM (s.taskAt core) with
      | error e =>
          rw [hdecoded] at htasks
          cases htasks
      | ok compacts =>
          rw [hdecoded] at htasks
          cases htasks
          exact decoded_at hdecoded hplace

end Readers

/-- **The three readers of a task agree**, in every state, on every task. -/
theorem readers_agree
    (rt : Runtime)
    (cfg : Config)
    (s : Store) :
    (∀ taskId, RepliesAgree rt cfg s taskId) ∧
      ∀ (core : Core) (taskId : core.TaskId), DecodedAlike rt cfg core s taskId :=
  ⟨fun taskId => repliesAgree taskId, fun _ taskId => decodedAlike taskId⟩

end ApalisRedis
