import ApalisRedis.Delivery
import ApalisRedis.Persist

/-!
# A worker shuts down

`reenqueue_abandoned` gives a worker's unfinished tasks back to the queue, and
the cleanup future of `poll_close` is to end the worker's registration.
`release_leases.lua` reads an empty list of ids as all ids, and the cleanup
removes the name of the worker's inflight set from the registry of workers.

**Results.**
* `run_releaseListed`: the listed tasks that are held are given back, each once.
* `givesBackAsked_iff`: when only the listed tasks are given back.
* `keeps_registration`: no worker that closes is deregistered.
-/

namespace ApalisRedis

open Lua Redis Script

/-- `Error::ReenqueueMismatch` -/
structure ReenqueueMismatch where
  queued : Nat
  abandoned : Nat

section Abandoned

variable {core : Core} (rt : Runtime) (cfg : Config) (worker : String)

/-- `queries::release_leases`, which unwraps the id of every task. -/
def Queries.releaseLeases (tasks : List (RedisTask core)) : Script Store Nat :=
  match tasks.mapM RedisTask.taskId with
  | some taskIds =>
      releaseLeasesScript rt cfg.queue worker cfg.emitEvents (taskIds.map core.printTaskId)
  | none => raise "called Option::unwrap() on a None value"

/-- `RedisPersistence::reenqueue_abandoned` -/
def reenqueueAbandoned (tasks : List (RedisTask core)) :
    Script Store (Except ReenqueueMismatch Nat) := do
  let count ← Queries.releaseLeases rt cfg worker tasks
  if cfg.lockTasks ∧ count ≠ tasks.length then
    pure (.error ⟨tasks.length, count⟩)
  else
    pure (.ok count)

/-- The count that is returned, or reported with the mismatch. -/
def reportedCount : Except ReenqueueMismatch Nat → Nat
  | .ok count => count
  | .error mismatch => mismatch.abandoned

/-- The ids of the tasks, as they are stored. -/
def listedIds (tasks : List (RedisTask core)) : List String :=
  tasks.filterMap fun task => task.taskId.map core.printTaskId

/-- The listed tasks that the worker holds, in the order in which they are first listed. -/
def Store.heldAmong (s : Store) (worker : String) (taskIds : List String) : List String :=
  taskIds.eraseDups.filter fun id => decide (id ∈ s.inflightJobs worker)

/-- The listed tasks that the worker held, and no others, went from its inflight
set to the end of the active list, and so many were counted. -/
structure Store.GaveBack (s t : Store) (worker : String) (taskIds : List String)
    (reply : Except String (Except ReenqueueMismatch Nat)) : Prop where
  left : s.inflightJobs worker \ t.inflightJobs worker =
    s.inflightJobs worker ∩ taskIds.toFinset
  noneJoined : t.inflightJobs worker ⊆ s.inflightJobs worker
  appended : t.activeJobs = s.activeJobs ++ s.heldAmong worker taskIds
  released : ∀ id ∈ s.heldAmong worker taskIds,
    (t.jobMeta id).lookup "status" = some "Pending" ∧
      (t.jobMeta id).lookup "locked_by" = none ∧ (t.jobMeta id).lookup "locked_at" = none
  kept : ∀ id ∈ s.inflightJobs worker, id ∉ taskIds →
    id ∈ t.inflightJobs worker ∧ t.jobMeta id = s.jobMeta id
  counted : ∃ result, reply = .ok result ∧
    reportedCount result = (s.heldAmong worker taskIds).length

/-- `reenqueue_abandoned` gives back what it is asked to. -/
def GivesBackAsked (tasks : List (RedisTask core)) (s : Store) : Prop :=
  let outcome := (reenqueueAbandoned rt cfg worker tasks).run s
  s.GaveBack outcome.2 worker (listedIds tasks) outcome.1

/-- First occurrences of the elements with a property are those of all elements. -/
theorem eraseDups_filter
    (p : String → Bool) :
    ∀ ids : List String, (ids.filter p).eraseDups = ids.eraseDups.filter p
  | [] => rfl
  | id :: ids => by
      have hshorter : (ids.filter fun id' => !id' == id).length ≤ ids.length :=
        List.length_filter_le _ _
      have ih := eraseDups_filter p (ids.filter fun id' => !id' == id)
      by_cases hid : p id = true
      · rw [List.filter_cons_of_pos hid, List.eraseDups_cons, List.eraseDups_cons,
          List.filter_cons_of_pos hid, ← ih, List.filter_filter, List.filter_filter]
        simp only [Bool.and_comm]
      · have hskip : (ids.filter fun id' => !id' == id).filter p = ids.filter p := by
          rw [List.filter_filter]
          refine List.filter_congr fun id' _ => ?_
          rcases eq_or_ne id' id with rfl | hne
          · simp [hid]
          · simp [hne]
        rw [List.filter_cons_of_neg hid, List.eraseDups_cons, List.filter_cons_of_neg hid, ← ih,
          hskip]
  termination_by ids => ids.length

theorem mem_heldAmong
    {s : Store}
    {taskIds : List String}
    {id : String} :
    id ∈ s.heldAmong worker taskIds ↔ id ∈ taskIds ∧ id ∈ s.inflightJobs worker := by
  simp [Store.heldAmong]

/-- A task that is held is no longer held when its name comes up again. -/
theorem heldAmong_cons_of_mem
    (s : Store)
    {taskId : String}
    (taskIds : List String)
    (hheld : taskId ∈ s.inflightJobs worker) :
    s.heldAmong worker (taskId :: taskIds) =
      taskId :: (s.release worker [taskId]).heldAmong worker taskIds := by
  unfold Store.heldAmong
  rw [List.eraseDups_cons, List.filter_cons, if_pos (decide_eq_true hheld), eraseDups_filter,
    List.filter_filter]
  refine congrArg (taskId :: ·) (List.filter_congr fun id _ => ?_)
  rcases eq_or_ne id taskId with rfl | hne
  · simp [Store.release]
  · simp [Store.release, hne]

theorem heldAmong_cons_of_notMem
    (s : Store)
    {taskId : String}
    (taskIds : List String)
    (hnot : taskId ∉ s.inflightJobs worker) :
    s.heldAmong worker (taskId :: taskIds) = s.heldAmong worker taskIds := by
  have hskip : decide (taskId ∈ s.inflightJobs worker) ≠ true := by simpa using hnot
  unfold Store.heldAmong
  rw [List.eraseDups_cons, List.filter_cons, if_neg hskip, eraseDups_filter, List.filter_filter]
  refine List.filter_congr fun id _ => ?_
  rcases eq_or_ne id taskId with rfl | hne
  · simp [hnot]
  · simp [hne]

/-- Two releases are one. -/
theorem release_release
    (s : Store)
    {taskId : String}
    {taskIds : List String}
    (hnew : taskId ∉ taskIds) :
    (s.release worker [taskId]).release worker taskIds = s.release worker (taskId :: taskIds) := by
  have hinflight : (s.inflightJobs worker \ [taskId].toFinset) \ taskIds.toFinset =
      s.inflightJobs worker \ (taskId :: taskIds).toFinset := by
    ext id
    simp [and_assoc]
  have hmeta : (fun id => if id ∈ taskIds then
        Store.resetMeta (if id ∈ [taskId] then Store.resetMeta (s.jobMeta id) else s.jobMeta id)
      else if id ∈ [taskId] then Store.resetMeta (s.jobMeta id) else s.jobMeta id) =
      fun id => if id ∈ taskId :: taskIds then Store.resetMeta (s.jobMeta id)
        else s.jobMeta id := by
    funext id
    rcases eq_or_ne id taskId with rfl | hne
    · simp [hnew]
    · simp [hne]
  unfold Store.release
  simp only [Function.update_self, Function.update_idem, hinflight, hmeta, List.append_assoc,
    List.singleton_append]

/-- **Releasing the listed tasks** moves those that are held, each once. -/
theorem run_releaseListed
    (queue : String)
    (emitEvents : Bool)
    (taskIds : List String)
    (reenqueued : Nat)
    (s : Store) :
    (taskIds.foldlM (releaseTask (Keys.inflightSetFor queue worker) (Keys.jobMetaHash queue)
        (Keys.activeJobsList queue) emitEvents) reenqueued).run s =
      (.ok (reenqueued + (s.heldAmong worker taskIds).length),
        (s.release worker (s.heldAmong worker taskIds)).sayAll emitEvents
          ("tasks:" ++ (queue ++ ":active") ++ ":available") (s.heldAmong worker taskIds)) := by
  induction taskIds generalizing reenqueued s with
  | nil => simp [Store.heldAmong, Store.release, Store.sayAll]
  | cons taskId taskIds ih =>
      have hrun := run_releaseTask queue worker emitEvents reenqueued taskId s
      by_cases hheld : taskId ∈ s.inflightJobs worker
      · rw [if_pos hheld] at hrun
        have hrest : ((s.release worker [taskId]).say emitEvents
            ("tasks:" ++ (queue ++ ":active") ++ ":available") taskId).heldAmong worker taskIds =
            (s.release worker [taskId]).heldAmong worker taskIds := rfl
        have hnew : taskId ∉ (s.release worker [taskId]).heldAmong worker taskIds := by
          rw [mem_heldAmong]
          simp [Store.release]
        rw [List.foldlM_cons, run_bind_ok hrun, ih, hrest, heldAmong_cons_of_mem worker s _ hheld,
          ← release_release worker s hnew, List.length_cons]
        refine Prod.ext (congrArg Except.ok (by omega)) ?_
        cases emitEvents <;> simp [Store.sayAll, Store.say, Store.release]
      · rw [if_neg hheld] at hrun
        rw [List.foldlM_cons, run_bind_ok hrun, ih, heldAmong_cons_of_notMem worker s _ hheld]

/-- The store after a release differs from the release in signals and messages only. -/
structure Store.Released (s t : Store) (worker : String) (taskIds : List String) : Prop where
  inflightJobs : t.inflightJobs = (s.release worker taskIds).inflightJobs
  activeJobs : t.activeJobs = (s.release worker taskIds).activeJobs
  jobMeta : t.jobMeta = (s.release worker taskIds).jobMeta

/-- The released tasks have left the worker. -/
theorem Store.Released.stays
    {s t : Store}
    {taskIds : List String}
    (h : s.Released t worker taskIds) :
    t.inflightJobs worker = s.inflightJobs worker \ taskIds.toFinset := by
  rw [h.inflightJobs]
  exact Function.update_self _ _ _

/-- Announcing a release and setting the signal after it. -/
theorem released_announced_signalled
    (s : Store)
    (taskIds : List String)
    (emitEvents : Bool)
    (channel : String)
    (n : Nat) :
    let u := (s.release worker taskIds).sayAll emitEvents channel taskIds
    s.Released (if 0 < n then u.wake else u) worker taskIds := by
  intro u
  split <;> exact ⟨rfl, rfl, rfl⟩

/-- After the tasks are released, the script may set the signal and replies. -/
theorem run_setSignal_pure
    (queue : String)
    (n : Nat)
    (s : Store) :
    (do
      if 0 < n then
        setSignal (Keys.signalList queue)
      pure n : Script Store Nat).run s = (.ok n, if 0 < n then s.wake else s) := by
  by_cases hsome : 0 < n
  · simp [hsome, run_map]
  · simp [hsome]

theorem run_releaseLeases_listed
    (queue : String)
    (emitEvents : Bool)
    {taskIds : List String}
    (hlisted : taskIds ≠ [])
    (s : Store) :
    ∃ t, (releaseLeasesScript rt queue worker emitEvents taskIds).run s =
        (.ok (s.heldAmong worker taskIds).length, t) ∧
      s.Released t worker (s.heldAmong worker taskIds) := by
  have hloop := run_releaseListed worker queue emitEvents taskIds 0 s
  rw [Nat.zero_add] at hloop
  unfold releaseLeasesScript releaseLeases
  rw [if_pos (List.length_pos_iff.mpr hlisted), run_bind_ok hloop]
  exact ⟨_, run_setSignal_pure queue _ _, released_announced_signalled worker s _ emitEvents _ _⟩

/-- Without a list everything that the worker holds is released. -/
theorem run_releaseLeases_all
    (queue : String)
    (emitEvents : Bool)
    (s : Store) :
    (¬rt.Fits (s.held rt worker).length ∧
        (releaseLeasesScript rt queue worker emitEvents []).run s =
          (.error "too many results to unpack", s)) ∨
      ∃ t, (releaseLeasesScript rt queue worker emitEvents []).run s =
          (.ok (s.held rt worker).length, t) ∧
        s.Released t worker (s.held rt worker) := by
  have hall := run_releaseAll rt queue worker emitEvents s
  unfold releaseLeasesScript releaseLeases
  rw [if_neg (by decide)]
  rcases em (rt.Fits (rt.members (s.inflightJobs worker)).length) with hfits | hstuck
  · rw [if_pos hfits] at hall
    rw [run_bind_ok hall]
    exact .inr ⟨_, run_setSignal_pure queue _ _,
      released_announced_signalled worker s _ emitEvents _ _⟩
  · rw [if_neg hstuck] at hall
    rw [run_bind_error hall]
    exact .inl ⟨hstuck, rfl⟩

/-- Whether there is a mismatch or not, the script's count is passed on. -/
theorem run_reenqueueAbandoned
    {tasks : List (RedisTask core)}
    {s t : Store}
    {count : Nat}
    (hrelease : (Queries.releaseLeases rt cfg worker tasks).run s = (.ok count, t)) :
    ∃ result, (reenqueueAbandoned rt cfg worker tasks).run s = (.ok result, t) ∧
      reportedCount result = count := by
  unfold reenqueueAbandoned
  rw [run_bind_ok hrelease]
  by_cases hmismatch : cfg.lockTasks ∧ count ≠ tasks.length
  · rw [if_pos hmismatch]
    exact ⟨_, rfl, rfl⟩
  · rw [if_neg hmismatch]
    exact ⟨_, rfl, rfl⟩

/-- Tasks with ids are released under these ids. -/
theorem releaseLeases_eq
    {tasks : List (RedisTask core)}
    (hids : ∀ task ∈ tasks, task.taskId ≠ none) :
    Queries.releaseLeases rt cfg worker tasks =
      releaseLeasesScript rt cfg.queue worker cfg.emitEvents (listedIds tasks) := by
  have hunwrapped : ∃ taskIds, tasks.mapM RedisTask.taskId = some taskIds ∧
      listedIds tasks = taskIds.map core.printTaskId := by
    induction tasks with
    | nil => exact ⟨[], rfl, rfl⟩
    | cons task tasks ih =>
        obtain ⟨taskIds, hrest, hlisted⟩ := ih fun task' htask' =>
          hids task' (List.mem_cons_of_mem _ htask')
        obtain ⟨taskId, hid⟩ := Option.ne_none_iff_exists'.mp (hids task List.mem_cons_self)
        refine ⟨taskId :: taskIds, ?_, ?_⟩
        · rw [List.mapM_cons, hid, hrest]
          rfl
        · rw [listedIds, List.filterMap_cons, hid]
          exact congrArg (core.printTaskId taskId :: ·) hlisted
  obtain ⟨taskIds, hmap, hlisted⟩ := hunwrapped
  rw [Queries.releaseLeases, hmap, hlisted]

theorem listedIds_ne_nil
    {tasks : List (RedisTask core)}
    (hids : ∀ task ∈ tasks, task.taskId ≠ none)
    (hsome : tasks ≠ []) :
    listedIds tasks ≠ [] := by
  obtain ⟨task, htask⟩ := List.exists_mem_of_ne_nil _ hsome
  obtain ⟨taskId, hid⟩ := Option.ne_none_iff_exists'.mp (hids task htask)
  have hlisted : core.printTaskId taskId ∈ listedIds tasks :=
    List.mem_filterMap.mpr ⟨task, htask, by rw [hid]; rfl⟩
  exact List.ne_nil_of_mem hlisted

/-- A release of the listed tasks that are held gives back what was asked. -/
theorem Store.Released.gaveBack
    {s t : Store}
    {taskIds : List String}
    {result : Except ReenqueueMismatch Nat}
    (h : s.Released t worker (s.heldAmong worker taskIds))
    (hcount : reportedCount result = (s.heldAmong worker taskIds).length) :
    s.GaveBack t worker taskIds (.ok result) := by
  have hstays := h.stays
  obtain ⟨-, hactive, hmeta⟩ := h
  constructor
  · ext id
    rw [hstays]
    simp only [Finset.mem_sdiff, Finset.mem_inter, List.mem_toFinset, mem_heldAmong]
    tauto
  · rw [hstays]
    exact Finset.sdiff_subset
  · exact hactive
  · intro id hid
    rw [hmeta]
    simp [Store.release, hid, Store.resetMeta, Hash.lookup_eraseAll]
  · intro id hheld hunlisted
    have hnot : id ∉ s.heldAmong worker taskIds := fun h =>
      hunlisted ((mem_heldAmong worker).mp h).1
    refine ⟨?_, ?_⟩
    · rw [hstays, Finset.mem_sdiff, List.mem_toFinset]
      exact ⟨hheld, hnot⟩
    · rw [hmeta]
      exact if_neg hnot
  · exact ⟨result, rfl, hcount⟩

/-- **When only the listed tasks are given back**: when some task is listed, or
the worker holds nothing anyway. -/
theorem givesBackAsked_iff
    (tasks : List (RedisTask core))
    (hids : ∀ task ∈ tasks, task.taskId ≠ none)
    (s : Store) :
    GivesBackAsked rt cfg worker tasks s ↔ tasks ≠ [] ∨ s.inflightJobs worker = ∅ := by
  have hscript := releaseLeases_eq rt cfg worker hids
  unfold GivesBackAsked
  rcases eq_or_ne tasks [] with rfl | hsome
  · change Queries.releaseLeases rt cfg worker [] =
      releaseLeasesScript rt cfg.queue worker cfg.emitEvents [] at hscript
    rw [or_iff_right (not_not.mpr rfl)]
    rcases run_releaseLeases_all rt worker cfg.queue cfg.emitEvents s with
      ⟨hstuck, hrun⟩ | ⟨t, hrun, hreleased⟩
    · have hraises : (reenqueueAbandoned rt cfg worker ([] : List (RedisTask core))).run s =
          (.error "too many results to unpack", s) := by
        rw [← hscript] at hrun
        exact run_bind_error hrun _
      rw [hraises]
      constructor
      · rintro ⟨-, -, -, -, -, result, hreply, -⟩
        cases hreply
      · intro hidle
        refine absurd ?_ hstuck
        rw [Store.held, hidle, rt.members_eq_nil.mpr rfl]
        exact rt.fits_zero
    · rw [← hscript] at hrun
      obtain ⟨result, hreply, hcount⟩ := run_reenqueueAbandoned rt cfg worker hrun
      rw [hreply]
      constructor
      · intro h
        have hgone : t.inflightJobs worker = ∅ := by
          rw [hreleased.stays, Finset.sdiff_eq_empty_iff_subset]
          intro id hid
          exact List.mem_toFinset.mpr (rt.mem_members.mpr hid)
        have hleft := h.left
        rw [hgone, Finset.sdiff_empty] at hleft
        exact hleft.trans (Finset.inter_empty _)
      · intro hidle
        have hnone : s.held rt worker =
            s.heldAmong worker (listedIds ([] : List (RedisTask core))) :=
          rt.members_eq_nil.mpr hidle
        rw [hnone] at hreleased hcount
        exact hreleased.gaveBack worker hcount
  · obtain ⟨t, hrun, hreleased⟩ := run_releaseLeases_listed rt worker cfg.queue
      cfg.emitEvents (listedIds_ne_nil hids hsome) s
    rw [← hscript] at hrun
    obtain ⟨result, hreply, hcount⟩ := run_reenqueueAbandoned rt cfg worker hrun
    rw [hreply]
    exact iff_of_true (hreleased.gaveBack worker hcount) (.inl hsome)

end Abandoned

/-- A worker has fetched two tasks. -/
def holdsTwo : Store :=
  run (.ascending none) Config.default.queue
    [registerW, .submit 0 true [plainPush "a" ∅, plainPush "b" ∅], .fetchNext 12 10 "w"]
    Store.empty

/-- One of the two is given back. -/
theorem gives_back_one :
    GivesBackAsked (.ascending none) .default "w" [(plainPush "a" ∅).request] holdsTwo := by
  refine (givesBackAsked_iff (.ascending none) .default "w" [(plainPush "a" ∅).request] ?_
    holdsTwo).mpr (.inl (List.cons_ne_nil _ _))
  intro task htask
  rw [List.mem_singleton.mp htask]
  exact Option.some_ne_none _

/-- Asked for none, it gives both back. -/
theorem gives_back_unasked :
    ¬GivesBackAsked (.ascending none) .default "w" ([] : List (RedisTask Core.text)) holdsTwo := by
  intro h
  have hleft := h.left
  revert hleft
  decide +kernel

section Closing

variable (cfg : Config) (worker : String)

/-- The cleanup future of `RedisStorage::poll_close`. -/
def cleanup : Script Store Unit :=
  zrem (Keys.workersSet cfg.queue) [(Keys.inflightSetFor cfg.queue worker).name]

/-- Once the cleanup has succeeded the worker is not registered, the others are
as before, and the name can be registered at once. -/
def Deregisters (s : Store) : Prop :=
  ∀ t, (cleanup cfg worker).run s = (.ok (), t) →
    worker ∉ t.workers ∧
    (∀ v, v ≠ worker → t.workers.lookup v = s.workers.lookup v) ∧
    ∀ now threshold service,
      ((registerWorkerScript cfg.queue now worker threshold "RedisStorage" service).run t).1 =
        .ok ()

/-- What the cleanup removes from the registry. -/
theorem lookup_cleanup
    (s : Store)
    (v : String) :
    ((cleanup cfg worker).run s).2.workers.lookup v =
      if v = (Keys.inflightSetFor cfg.queue worker).name then none else s.workers.lookup v := by
  simp [cleanup, Hash.lookup_eraseAll]

/-- A worker's name is shorter than the name of its inflight set. -/
theorem ne_inflightSetFor_name
    (queue : String) :
    worker ≠ (Keys.inflightSetFor queue worker).name := by
  intro h
  have hlength := congrArg String.length h
  simp only [Keys.inflightJobsSet_name, String.length_append] at hlength
  have hword : ":inflight".length = 9 := by decide
  omega

/-- **No worker that closes is deregistered.** -/
theorem keeps_registration
    (s : Store)
    (hworker : worker ∈ s.workers) :
    ((cleanup cfg worker).run s).2.workers.lookup worker = s.workers.lookup worker ∧
      ¬Deregisters cfg worker s := by
  have hkept : ((cleanup cfg worker).run s).2.workers.lookup worker = s.workers.lookup worker := by
    rw [lookup_cleanup, if_neg (ne_inflightSetFor_name worker cfg.queue)]
  refine ⟨hkept, fun h => ?_⟩
  have hgone : worker ∉ ((cleanup cfg worker).run s).2.workers := (h _ rfl).1
  rw [← Finmap.lookup_eq_none, hkept, Finmap.lookup_eq_none] at hgone
  exact hgone hworker

end Closing

/-- The registration of one worker outlives the worker. -/
theorem keeps_registration_w :
    ((cleanup .default "w").run oneRegistered).2.workers.lookup "w" =
        oneRegistered.workers.lookup "w" ∧
      ¬Deregisters .default "w" oneRegistered :=
  keeps_registration .default "w" oneRegistered (by decide +kernel)

/-- Ten seconds later the same name is still refused. -/
theorem closed_name_refused :
    ¬Deregisters .default "w" oneRegistered := by
  intro h
  have hagain := (h _ rfl).2.2 110 300 ""
  revert hagain
  decide +kernel

end ApalisRedis
