import ApalisRedis.Delivery
import ApalisRedis.Lua.ListAllTasks
import ApalisRedis.Lua.ListTasks

/-!
# Listing tasks

`list_all_tasks` is to show, page by page, the tasks that have a status.  The
script cuts the page out of all tasks and filters it afterwards.  `list_tasks` is
to show the active list, but names another key to its script.

**Results.**
* `listsPage_iff`: when a page shows the tasks of the filtered listing.
* `showsActive_iff`: when a page shows the tasks of the active list.
-/

namespace ApalisRedis

open Lua Redis Script

/-- `Filter` of `apalis_core`. -/
structure Filter (core : Core) where
  status : Option core.Status
  page : Nat
  pageSize : Option Nat

/-- What both clients do with the reply of their script. -/
def decodeListing {τ : Type} (core : Core) (script : Script τ FetchReply) :
    Script τ (List (RedisTask core)) := do
  let result ← script
  let tasks ← fallible (deserializeWithMeta core (FetchReply.values result))
  pure (tasks.map CompactTask.intoFullCompact)

/-- A script's reply about some tasks is decoded when each of the tasks can be. -/
theorem decodeListing_iff
    {τ : Type}
    {core : Core}
    {rt : Runtime}
    {script : Script τ FetchReply}
    {k t : τ}
    {s : Store}
    {taskIds : List String}
    (hscript : script.run k = (.ok (s.reply rt taskIds), t)) :
    (∃ tasks, taskIds.mapM (s.taskAt core) = .ok tasks ∧
        (decodeListing core script).run k =
          (.ok (tasks.map CompactTask.intoFullCompact), t)) ↔
      ∀ id ∈ taskIds, s.WellFormed core id := by
  have hclient : (decodeListing core script).run k =
      ((taskIds.mapM (s.taskAt core)).map (List.map CompactTask.intoFullCompact), t) := by
    rw [decodeListing, run_bind_ok hscript, deserialize_reply]
    cases taskIds.mapM (s.taskAt core) <;> rfl
  simp only [← exists_taskAt]
  rw [← exists_mapM_eq_ok, hclient]
  constructor
  · rintro ⟨tasks, htasks, -⟩
    exact ⟨tasks, htasks⟩
  · rintro ⟨tasks, htasks⟩
    refine ⟨tasks, htasks, ?_⟩
    rw [htasks]
    rfl

section Listing

variable {core : Core} (rt : Runtime) (cfg : Config)

/-- The argument that the scripts get for the status. -/
def Filter.statusStr (filter : Filter core) : String :=
  (filter.status.map core.printStatus).getD ""

/-- The call of `list_all_tasks.lua`. -/
def listAllTasksScript (filter : Filter core) : Script Store FetchReply :=
  Lua.listAllTasks rt [(Keys.jobDataHash cfg.queue, Keys.jobMetaHash cfg.queue)]
    filter.statusStr filter.page (filter.pageSize.getD 10)

/-- `list_all_tasks` -/
def RedisStorage.listAllTasks (filter : Filter core) : Script Store (List (RedisTask core)) :=
  decodeListing core (listAllTasksScript rt cfg filter)

/-- The tasks of the data hash that have the status, in the order of their ids. -/
def Store.listing (s : Store) (status : Option core.Status) : List String :=
  s.taskIds.filter fun id =>
    status.all fun status => (s.jobMeta id).lookup "status" = some (core.printStatus status)

/-- The tasks at the positions of the page in what is to be listed. -/
def Store.listed (s : Store) (filter : Filter core) : List String :=
  Systems.page (s.listing filter.status) filter.page (filter.pageSize.getD 10)

/-- The page shows the tasks that are to be listed on it. -/
structure ListsPage (filter : Filter core) (s : Store) : Prop where
  replied : (listAllTasksScript rt cfg filter).run s = (.ok (s.reply rt (s.listed filter)), s)
  decoded : ∃ tasks, (s.listed filter).mapM (s.taskAt core) = .ok tasks ∧
    (RedisStorage.listAllTasks rt cfg filter).run s =
      (.ok (tasks.map CompactTask.intoFullCompact), s)

/-- The task has the status, if one is asked for. -/
def Store.Matches (s : Store) (filter : Filter core) (id : String) : Prop :=
  ∀ status, filter.status = some status →
    (s.jobMeta id).lookup "status" = some (core.printStatus status)

/-- The page of all tasks holds the tasks that the page of the listing holds:
all tasks before it have the status and so have all on it or none after it, or
none on it has the status and the listing ends before it. -/
def Store.PageAligned (s : Store) (filter : Filter core) : Prop :=
  let size := filter.pageSize.getD 10
  ((∀ id ∈ Systems.pagesBefore s.taskIds filter.page size, s.Matches filter id) ∧
      ((∀ id ∈ Systems.page s.taskIds filter.page size, s.Matches filter id) ∨
        ∀ id ∈ Systems.pagesAfter s.taskIds filter.page size, ¬s.Matches filter id)) ∨
    ((s.listing filter.status).length ≤ (filter.page - 1) * size ∧
      ∀ id ∈ Systems.page s.taskIds filter.page size, ¬s.Matches filter id)

theorem nodup_taskIds
    (s : Store) :
    s.taskIds.Nodup := by
  rw [← Multiset.coe_nodup, Store.taskIds, coe_ordered]
  exact s.jobData.keys.nodup

theorem reply_injective
    (s : Store) :
    Function.Injective (s.reply rt) := by
  intro ids ids' h
  have hheads : ∀ taskIds, (s.reply rt taskIds).2.map List.head? = taskIds.map some := by
    intro taskIds
    simp [Store.reply]
  have hsome := (hheads ids).symm.trans ((congrArg (List.map List.head?)
    (congrArg Prod.snd h)).trans (hheads ids'))
  exact (List.map_injective_iff.mpr (Option.some_injective _)) hsome

variable {filter : Filter core} {s : Store}

theorem matches_iff
    {id : String} :
    filter.status.all (fun status =>
        (s.jobMeta id).lookup "status" = some (core.printStatus status)) = true ↔
      s.Matches filter id := by
  unfold Store.Matches
  cases filter.status <;> simp

/-- The script compares texts, of which the empty one stands for no filter. -/
theorem hasStatus_eq
    (hstatus : ∀ status, filter.status = some status → core.printStatus status ≠ "") :
    s.hasStatus filter.statusStr = fun id => filter.status.all fun status =>
      (s.jobMeta id).lookup "status" = some (core.printStatus status) := by
  funext id
  unfold Store.hasStatus Filter.statusStr
  cases hfilter : filter.status with
  | none => simp
  | some status => simp [hstatus status hfilter]

/-- **When a page shows the tasks of the listing**: when it is aligned with a
page of all tasks, and its tasks can be decoded. -/
theorem listsPage_iff
    (hpage : 1 ≤ filter.page)
    (hsize : 0 < filter.pageSize.getD 10)
    (hstatus : ∀ status, filter.status = some status → core.printStatus status ≠ "") :
    ListsPage rt cfg filter s ↔
      s.PageAligned filter ∧ ∀ id ∈ s.listed filter, s.WellFormed core id := by
  have hscript : (listAllTasksScript rt cfg filter).run s =
      (.ok (s.reply rt ((Systems.page s.taskIds filter.page (filter.pageSize.getD 10)).filter
        fun id => filter.status.all fun status =>
          (s.jobMeta id).lookup "status" = some (core.printStatus status))), s) := by
    rw [listAllTasksScript, run_listAllTasks rt cfg.queue _ hpage, hasStatus_eq hstatus]
  have hreplied : (listAllTasksScript rt cfg filter).run s =
      (.ok (s.reply rt (s.listed filter)), s) ↔ s.PageAligned filter := by
    have hpages := Systems.filter_page_eq_iff
      (fun id => filter.status.all fun status =>
        (s.jobMeta id).lookup "status" = some (core.printStatus status))
      (nodup_taskIds s) filter.page hsize
    simp only [matches_iff] at hpages
    rw [hscript, Store.PageAligned, Store.listing, ← hpages]
    constructor
    · intro h
      exact reply_injective rt s (Except.ok.inj (congrArg Prod.fst h))
    · intro h
      rw [h]
      rfl
  rw [← hreplied]
  constructor
  · rintro ⟨hrun, htasks⟩
    exact ⟨hrun, (decodeListing_iff hrun).mp htasks⟩
  · rintro ⟨hrun, hwell⟩
    exact ⟨hrun, (decodeListing_iff hrun).mpr hwell⟩

end Listing

/-- Of two tasks, the second one is done. -/
def secondDone : Store :=
  run (.ascending none) Config.default.queue
    [registerW, .submit 0 true [plainPush "a" ∅, plainPush "b" ∅], .fetchNext 12 10 "w",
      .handleResults "w" true [⟨"b", 13, "\x7b\"Ok\":null\x7d", "Done", 1⟩]] Store.empty

/-- One page shows all tasks that are done. -/
theorem lists_done :
    ListsPage (.ascending none) Config.default (⟨some .done, 1, none⟩ : Filter Core.text)
      secondDone := by
  have hlisted : secondDone.listed (⟨some .done, 1, none⟩ : Filter Core.text) = ["b"] := by
    decide +kernel
  have hbefore : Systems.pagesBefore secondDone.taskIds 1 10 = [] := by decide +kernel
  have hafter : Systems.pagesAfter secondDone.taskIds 1 10 = [] := by decide +kernel
  have hdecodes : (secondDone.taskAt Core.text "b").isOk := by decide +kernel
  refine (listsPage_iff (.ascending none) Config.default (by decide) (by decide)
    fun status hstatus => by cases hstatus; decide).mpr ⟨.inl ⟨?_, .inr ?_⟩, ?_⟩
  · change ∀ id ∈ Systems.pagesBefore secondDone.taskIds 1 10, _
    rw [hbefore]
    exact List.forall_mem_nil _
  · change ∀ id ∈ Systems.pagesAfter secondDone.taskIds 1 10, _
    rw [hafter]
    exact List.forall_mem_nil _
  · rw [hlisted, List.forall_mem_singleton]
    cases htask : secondDone.taskAt Core.text "b" with
    | error e =>
        rw [htask] at hdecodes
        cases hdecodes
    | ok task => exact (exists_taskAt Core.text secondDone).mp ⟨task, htask⟩

/-- The first page of one task shows no task, as the first of all tasks is not done. -/
theorem done_not_listed :
    ¬ListsPage (.ascending none) Config.default (⟨some .done, 1, some 1⟩ : Filter Core.text)
      secondDone := by
  rintro ⟨hreplied, -⟩
  have hrows : (((listAllTasksScript (.ascending none) Config.default
      (⟨some .done, 1, some 1⟩ : Filter Core.text)).run secondDone).1.toOption.map Prod.snd) =
        some [] := by
    decide +kernel
  have hlisted : secondDone.listed (⟨some .done, 1, some 1⟩ : Filter Core.text) = ["b"] := by
    decide +kernel
  rw [hreplied, hlisted] at hrows
  cases hrows

section ActiveList

variable {core : Core} (rt : Runtime) (cfg : Config)

/-- The call of `list_tasks.lua`: its list is at the bare name of the queue. -/
def listTasksScript (filter : Filter core) : Script Keyspace FetchReply :=
  Lua.listTasks rt (Keys.jobDataHash cfg.queue) (Keys.jobMetaHash cfg.queue) cfg.queue cfg.queue
    filter.statusStr filter.page (filter.pageSize.getD 10)

/-- `list_tasks` -/
def RedisStorage.listTasks (filter : Filter core) : Script Keyspace (List (RedisTask core)) :=
  decodeListing core (listTasksScript rt cfg filter)

/-- The tasks at the positions of the page in the active list. -/
def activePage (filter : Filter core) (k : Keyspace) : List String :=
  Systems.page (k.view cfg.queue).activeJobs filter.page (filter.pageSize.getD 10)

/-- The page shows the tasks of the active list that belong on it. -/
structure ShowsActive (filter : Filter core) (k : Keyspace) : Prop where
  replied : (listTasksScript rt cfg filter).run k =
    (.ok ((k.view cfg.queue).reply rt (activePage cfg filter k)), k)
  decoded : ∃ tasks,
    (activePage cfg filter k).mapM ((k.view cfg.queue).taskAt core) = .ok tasks ∧
      (RedisStorage.listTasks rt cfg filter).run k =
        (.ok (tasks.map CompactTask.intoFullCompact), k)

/-- A list under the queue's bare name has the same tasks on the page as the active list. -/
def BareAligned (filter : Filter core) (k : Keyspace) : Prop :=
  ∃ xs, Kind.list.unwrap (k.keys cfg.queue) = some xs ∧
    Systems.page xs filter.page (filter.pageSize.getD 10) = activePage cfg filter k

variable {rt cfg} {filter : Filter core}

/-- Without a status the script shows the page of the list that it finds. -/
theorem run_listTasksScript
    (hpage : 1 ≤ filter.page)
    (hsize : 0 < filter.pageSize.getD 10)
    (hstatus : filter.status = none)
    {k : Keyspace}
    {xs : List String}
    (hlist : Kind.list.unwrap (k.keys cfg.queue) = some xs) :
    (listTasksScript rt cfg filter).run k =
      (.ok ((k.view cfg.queue).reply rt
        (Systems.page xs filter.page (filter.pageSize.getD 10))), k) := by
  have hfilter : filter.statusStr = "" := by
    rw [Filter.statusStr, hstatus]
    rfl
  rw [listTasksScript, Lua.listTasks, run_bind_ok (run_readAt_ok hlist _),
    slice_eq_page xs hpage hsize, hfilter]
  cases hshown : Systems.page xs filter.page (filter.pageSize.getD 10) with
  | nil => rfl
  | cons id ids =>
      rw [if_neg (by simp)]
      change ((Script.run _ (k.view cfg.queue)).1, k) = _
      rw [run_listTaskRows]

/-- In any state of Redis. -/
theorem showsActive_iff_bareAligned
    (hpage : 1 ≤ filter.page)
    (hsize : 0 < filter.pageSize.getD 10)
    (hstatus : filter.status = none)
    (k : Keyspace) :
    ShowsActive rt cfg filter k ↔
      BareAligned cfg filter k ∧
        ∀ id ∈ activePage cfg filter k, (k.view cfg.queue).WellFormed core id := by
  cases hlist : Kind.list.unwrap (k.keys cfg.queue) with
  | none =>
      have hscript : (listTasksScript rt cfg filter).run k = (.error wrongType, k) := by
        rw [listTasksScript, Lua.listTasks, run_bind_error (run_readAt_error hlist _)]
      refine iff_of_false (fun h => ?_) ?_
      · cases hscript.symm.trans h.replied
      · rintro ⟨⟨xs, hxs, -⟩, -⟩
        cases hlist.symm.trans hxs
  | some xs =>
      have hscript : (listTasksScript rt cfg filter).run k =
          (.ok ((k.view cfg.queue).reply rt
            (Systems.page xs filter.page (filter.pageSize.getD 10))), k) :=
        run_listTasksScript hpage hsize hstatus hlist
      have hbare : BareAligned cfg filter k ↔
          Systems.page xs filter.page (filter.pageSize.getD 10) = activePage cfg filter k := by
        simp [BareAligned, hlist]
      rw [hbare]
      constructor
      · rintro ⟨hreplied, htasks⟩
        have hreply := Except.ok.inj (congrArg Prod.fst (hscript.symm.trans hreplied))
        exact ⟨reply_injective rt _ hreply, (decodeListing_iff hreplied).mp htasks⟩
      · rintro ⟨hsame, hwell⟩
        rw [hsame] at hscript
        exact ⟨hscript, (decodeListing_iff hscript).mpr hwell⟩

/-- After any operations of the queue alone, nothing is stored under its bare name. -/
theorem showsActive_of_own
    (hpage : 1 ≤ filter.page)
    (hsize : 0 < filter.pageSize.getD 10)
    (hstatus : filter.status = none)
    (hregistry : cfg.queue ≠ queuesList.name)
    (ops : List Op) :
    ShowsActive rt cfg filter (Keyspace.empty.execAll rt cfg.queue ops) ↔
      activePage cfg filter (Keyspace.empty.execAll rt cfg.queue ops) = [] := by
  have hbare : BareAligned cfg filter (Keyspace.empty.execAll rt cfg.queue ops) ↔
      activePage cfg filter (Keyspace.empty.execAll rt cfg.queue ops) = [] := by
    have hlist : Kind.list.unwrap ((Keyspace.empty.execAll rt cfg.queue ops).keys cfg.queue) =
        some [] := by
      rw [execAll_bare rt hregistry ops]
      rfl
    rw [BareAligned, hlist]
    constructor
    · rintro ⟨_, ⟨⟩, hsame⟩
      rw [← hsame, Systems.page_eq_nil_of_short (Nat.zero_le _)]
    · intro hnil
      refine ⟨[], rfl, ?_⟩
      rw [hnil, Systems.page_eq_nil_of_short (Nat.zero_le _)]
  rw [showsActive_iff_bareAligned hpage hsize hstatus, hbare]
  constructor
  · exact And.left
  · intro hnil
    refine ⟨hnil, ?_⟩
    rw [hnil]
    exact List.forall_mem_nil _

end ActiveList

/-- Two tasks were pushed, and one of them was fetched. -/
def oneOfTwoFetched : List Op :=
  [.call registerW, .call (.submit 0 true [plainPush "a" ∅, plainPush "b" ∅]),
    .call (.fetchNext 12 1 "w")]

end ApalisRedis
