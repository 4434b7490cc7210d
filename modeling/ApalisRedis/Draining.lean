import ApalisRedis.Commutation
import ApalisRedis.Fairness
import ApalisRedis.Orphans
import ApalisRedis.Recovery

/-!
# Working off a queue

A worker that starts when all others have fallen silent takes over what they hold,
and round by round finishes every task that there is.  A task that cannot be decoded
stops it, and so does Lua's stack, and then nobody is ever handed a task again.

**Results.**
* `worked_off`: no state is a dead end while what there is can be decoded and Lua
  can unpack it.
* `standstill`: with more due tasks than that, it is one.
-/

namespace ApalisRedis

open Lua Redis Script Systems

/-- How a worker works: it has a clock and a configuration, and reports a final
outcome for every task that it is handed. -/
structure Shift (core : Core) where
  cfg : Config
  worker : String
  now : Nat
  report : core.TaskId → AckRecord
  positive : 0 < cfg.batchSize
  reports : ∀ taskId, (report taskId).taskId = core.printTaskId taskId
  final : ∀ taskId, (report taskId).place.Final

/-- What a fetch at this time finds: the active tasks, then the due ones. -/
def Store.line (s : Store) (now : Nat) : List String :=
  s.activeJobs ++ s.due now

/-- The task can be decoded, under the id that it has. -/
def Store.Decodable (s : Store) (core : Core) (id : String) : Prop :=
  s.WellFormed core id ∧ core.ReadsBack id

theorem Store.Decodable.congr
    {s t : Store}
    {core : Core}
    {id : String}
    (h : s.Decodable core id)
    (hdata : t.jobData = s.jobData)
    (hmeta : t.jobMeta id = s.jobMeta id) :
    t.Decodable core id := by
  obtain ⟨⟨hnamed, hstored, hattempts, hmax, hstatus⟩, hback⟩ := h
  rw [← hmeta] at hattempts hmax hstatus
  rw [← hdata] at hstored
  exact ⟨⟨hnamed, hstored, hattempts, hmax, hstatus⟩, hback⟩

/-- The worker is registered, nobody holds a task, everything scheduled is due, and
what waits can be decoded. -/
structure Store.Open {core : Core} (s : Store) (shift : Shift core) : Prop where
  registered : shift.worker ∈ s.workers
  nobody : ∀ v, s.inflightJobs v = ∅
  late : ∀ id score, s.scheduledJobs.lookup id = some score → score ≤ shift.now
  decodable : ∀ id ∈ s.line shift.now, s.Decodable core id

/-- Final outcomes change nothing for those who wait, no data, and not who is registered. -/
theorem kept_ackAll
    (queue worker : String)
    (emitEvents : Bool)
    (batch : List AckRecord)
    (hfinal : ∀ r ∈ batch, r.place.Final)
    (s : Store) :
    let t := s.ackAll queue worker emitEvents batch
    t.activeJobs = s.activeJobs ∧ t.scheduledJobs = s.scheduledJobs ∧ t.workers = s.workers ∧
      t.jobData = s.jobData := by
  induction batch generalizing s with
  | nil => exact ⟨rfl, rfl, rfl, rfl⟩
  | cons r rest ih =>
      rw [List.forall_mem_cons] at hfinal
      have hplace : r.place ≠ .scheduled := by
        intro hscheduled
        have hr := hfinal.1
        rw [hscheduled] at hr
        exact hr
      obtain ⟨hactive, hscheduled, hworkers, hdata⟩ :=
        ih hfinal.2 ((s.ack worker r).say emitEvents (r.channel queue) r.taskId)
      exact ⟨hactive, hscheduled.trans (if_neg hplace), hworkers, hdata⟩

section Draining

variable {core : Core} (rt : Runtime) (shift : Shift core)

namespace Shift

/-- The outcomes of the tasks that a fetch has returned. -/
def records (tasks : List (RedisTask core)) : List AckRecord :=
  (tasks.filterMap RedisTask.taskId).map shift.report

/-- One round: the worker fetches, and reports what it has been handed, if anything. -/
def round (s : Store) : List Call :=
  let fetch := Call.fetchNext shift.now shift.cfg.batchSize shift.worker
  match ((fetchTasks core rt shift.cfg shift.now shift.worker).run s).1 with
  | .ok (task :: tasks) =>
      [fetch, .handleResults shift.worker shift.cfg.emitEvents (shift.records (task :: tasks))]
  | _ => [fetch]

/-- Several rounds. -/
def rounds : Nat → Store → List Call
  | 0, _ => []
  | k + 1, s =>
      let first := shift.round rt s
      first ++ rounds k (run rt shift.cfg.queue first s)

variable {shift} in
theorem final_of_records
    {tasks : List (RedisTask core)}
    {r : AckRecord}
    (hr : r ∈ shift.records tasks) :
    r.place.Final := by
  obtain ⟨taskId, -, rfl⟩ := List.mem_map.mp hr
  exact shift.final taskId

theorem taskIds_records
    (tasks : List (RedisTask core)) :
    (shift.records tasks).map AckRecord.taskId =
      tasks.filterMap fun task => task.taskId.map core.printTaskId := by
  rw [records, List.map_map, List.map_filterMap]
  refine List.filterMap_congr fun task _ => ?_
  cases task.taskId with
  | none => rfl
  | some taskId => exact congrArg some (shift.reports taskId)

end Shift

variable {rt shift}

theorem fits_of_le
    {m n : Nat}
    (h : rt.Fits n)
    (hle : m ≤ n) :
    rt.Fits m :=
  fun limit hlimit => hle.trans (h limit hlimit)

theorem nextIds_eq_take
    (shift : Shift core)
    (s : Store) :
    s.nextIds shift.cfg shift.now = (s.line shift.now).take shift.cfg.batchSize := by
  rw [Store.nextIds, front_eq_take shift.positive, activeJobs_promoted, Store.line]

/-- A fetch in such a state returns the front of the line. -/
theorem run_fetch_open
    {s : Store}
    (hopen : s.Open shift)
    (hfits : rt.Fits (s.line shift.now).length) :
    ∃ tasks, (fetchTasks core rt shift.cfg shift.now shift.worker).run s =
        (.ok tasks, s.fetched shift.cfg shift.now shift.worker) ∧
      (tasks.filterMap fun task => task.taskId.map core.printTaskId) =
        s.nextIds shift.cfg shift.now := by
  have hline : ∀ id ∈ s.nextIds shift.cfg shift.now, s.Decodable core id := by
    intro id hid
    rw [nextIds_eq_take] at hid
    exact hopen.decodable id (List.mem_of_mem_take hid)
  have hready : shift.worker ∈ s.workers ∧ rt.Fits (s.due shift.now).length :=
    ⟨hopen.registered, fits_of_le hfits (by simp [Store.line])⟩
  have hids : rt.Fits (s.nextIds shift.cfg shift.now).length :=
    fits_of_le hfits (by rw [nextIds_eq_take]; simp)
  rcases fetchTasks_cases core rt shift.cfg shift.now shift.worker s with
    ⟨hrefused, -⟩ | ⟨-, hstuck, -⟩ | ⟨-, -, hrun⟩
  · exact absurd hready hrefused
  · exact absurd hids hstuck
  · obtain ⟨tasks, htasks⟩ := exists_mapM_eq_ok.mpr fun id hid =>
      (exists_taskAt core s).mpr (hline id hid).1
    refine ⟨tasks.map CompactTask.intoFullCompact, ?_, ?_⟩
    · rw [hrun, htasks]
      rfl
    · rw [ids_of_decoded (mapM_eq_ok.mp htasks), filterMap_reread fun id hid => (hline id hid).2]

/-- After the fetch the worker holds what it was handed, and nobody else holds anything. -/
theorem inflightJobs_fetched
    {s : Store}
    (hopen : s.Open shift) :
    (s.fetched shift.cfg shift.now shift.worker).inflightJobs =
      Function.update (fun _ => ∅) shift.worker (s.nextIds shift.cfg shift.now).toFinset := by
  have hbefore : (s.promoted shift.now).inflightJobs = fun _ => ∅ :=
    (inflightJobs_promoted shift.now s).trans (funext hopen.nobody)
  change Function.update (s.promoted shift.now).inflightJobs _ _ = _
  rw [hbefore, Finset.empty_union]

/-- Whoever reports each of its tasks once is heard in full. -/
theorem ackAll_of_holdsOnce
    {worker : String}
    (queue : String)
    (emitEvents : Bool)
    {batch : List AckRecord}
    {s : Store}
    (honce : s.HoldsOnce worker batch) :
    ((handleResultsScript queue worker emitEvents batch).run s).2 =
      s.ackAll queue worker emitEvents batch := by
  have hall := honoured_append honce.1 honce.2 []
  rw [List.append_nil, honoured, List.append_nil] at hall
  rw [run_handleResults, hall]

theorem nodup_line
    {s : Store}
    {b : Board}
    (h : Reflects s b)
    (now : Nat) :
    (s.line now).Nodup := by
  obtain ⟨b', hb'⟩ := reflects_promoted now h
  have hline : (s.promoted now).activeJobs = s.line now := activeJobs_promoted now s
  rw [← hline]
  exact hb'.nodup

/-- A round fetches the front of the line and records all of its outcomes. -/
theorem run_round
    {s : Store}
    {b : Board}
    (h : Reflects s b)
    (hopen : s.Open shift)
    (hfits : rt.Fits (s.line shift.now).length) :
    ∃ batch, batch.map AckRecord.taskId = s.nextIds shift.cfg shift.now ∧
      (∀ r ∈ batch, r.place.Final) ∧
      run rt shift.cfg.queue (shift.round rt s) s =
        (s.fetched shift.cfg shift.now shift.worker).ackAll shift.cfg.queue shift.worker
          shift.cfg.emitEvents batch := by
  obtain ⟨tasks, hfetch, hids⟩ := run_fetch_open hopen hfits
  have htasks := congrArg Prod.fst hfetch
  have hafter : (((Call.fetchNext shift.now shift.cfg.batchSize shift.worker).exec rt
      shift.cfg.queue).run s).2 = s.fetched shift.cfg shift.now shift.worker := by
    rw [Call.exec, run_map_snd, ← fetchTasks_snd, hfetch]
  refine ⟨shift.records tasks, (shift.taskIds_records tasks).trans hids,
    fun r => Shift.final_of_records, ?_⟩
  cases tasks with
  | nil =>
      rw [Shift.round, htasks]
      exact hafter
  | cons task tasks =>
      rw [Shift.round, htasks]
      change (((Call.handleResults _ _ _).exec rt _).run
        (((Call.fetchNext _ _ _).exec rt _).run s).2).2 = _
      rw [hafter]
      refine ackAll_of_holdsOnce _ _ ⟨fun r hr => ?_, ?_⟩
      · have hid := List.mem_map_of_mem (f := AckRecord.taskId) hr
        rw [shift.taskIds_records, hids] at hid
        rw [inflightJobs_fetched hopen, Function.update_self, List.mem_toFinset]
        exact hid
      · rw [shift.taskIds_records, hids, nextIds_eq_take]
        exact (nodup_line h shift.now).take

/-- **What a round does**: the front of the line is finished. -/
theorem open_round
    {s : Store}
    {b : Board}
    (h : Reflects s b)
    (hopen : s.Open shift)
    (hfits : rt.Fits (s.line shift.now).length) :
    let t := run rt shift.cfg.queue (shift.round rt s) s
    t.Open shift ∧ t.line shift.now = (s.line shift.now).drop shift.cfg.batchSize := by
  intro t
  obtain ⟨batch, hbatch, hfinal, ht⟩ := run_round h hopen hfits
  change t = _ at ht
  obtain ⟨hactive, hscheduled, hworkers, hdata⟩ := kept_ackAll shift.cfg.queue shift.worker
    shift.cfg.emitEvents batch hfinal (s.fetched shift.cfg shift.now shift.worker)
  rw [← ht] at hactive hscheduled hworkers hdata
  have hnone : ∀ id, t.scheduledJobs.lookup id = none := by
    intro id
    change t.scheduledJobs = (s.promoted shift.now).scheduledJobs at hscheduled
    rw [hscheduled, scheduledJobs_promoted, Hash.lookup_eraseAll]
    split
    · rfl
    · next hdue =>
        by_contra hsome
        obtain ⟨score, hscore⟩ := Option.ne_none_iff_exists'.mp hsome
        exact hdue (ZSet.mem_rangeByScore.mpr
          ⟨score, hscore, Nat.zero_le _, hopen.late id score hscore⟩)
  have hdue : t.due shift.now = [] := by
    refine List.eq_nil_iff_forall_not_mem.mpr fun id hid => ?_
    obtain ⟨score, hscore, -⟩ := ZSet.mem_rangeByScore.mp hid
    rw [hnone id] at hscore
    cases hscore
  have hline : t.line shift.now = (s.line shift.now).drop shift.cfg.batchSize := by
    have hrest : (s.fetched shift.cfg shift.now shift.worker).activeJobs =
        (s.line shift.now).drop (s.nextIds shift.cfg shift.now).length :=
      congrArg (List.drop _) (activeJobs_promoted shift.now s)
    rw [Store.line, hdue, List.append_nil, hactive, hrest, nextIds_eq_take, List.length_take]
    exact List.drop_eq_drop_min.symm
  obtain ⟨-, -, hdata', hmeta'⟩ := kept_promoted shift.now s
  refine ⟨⟨?_, fun v => ?_, fun id score hscore => ?_, fun id hid => ?_⟩, hline⟩
  · have hkept : (s.fetched shift.cfg shift.now shift.worker).workers = s.workers :=
      workers_promoted shift.now s
    rw [hworkers, hkept]
    exact hopen.registered
  · by_cases hv : v = shift.worker
    · subst hv
      rw [ht, inflight_ackAll, inflightJobs_fetched hopen, hbatch, Function.update_self, sdiff_self]
      rfl
    · rw [ht, inflight_ackAll_of_ne shift.cfg.queue shift.worker shift.cfg.emitEvents hv,
        inflightJobs_fetched hopen, Function.update_of_ne hv]
  · rw [hnone id] at hscore
    cases hscore
  · rw [hline] at hid
    have hnew : id ∉ batch.map AckRecord.taskId := by
      rw [hbatch, nextIds_eq_take]
      exact fun hfront => List.disjoint_take_drop (nodup_line h shift.now) le_rfl hfront hid
    refine (hopen.decodable id (List.mem_of_mem_drop hid)).congr (hdata.trans hdata') ?_
    rw [ht, jobMeta_ackAll shift.cfg.queue shift.worker shift.cfg.emitEvents batch hnew]
    exact congrFun hmeta' id

/-- Round by round the line gets shorter, by a batch each time. -/
theorem open_rounds
    (k : Nat)
    {s : Store}
    {b : Board}
    (h : Reflects s b)
    (hopen : s.Open shift)
    (hfits : rt.Fits (s.line shift.now).length) :
    let t := run rt shift.cfg.queue (shift.rounds rt k s) s
    t.Open shift ∧ t.line shift.now = (s.line shift.now).drop (k * shift.cfg.batchSize) := by
  induction k generalizing s b with
  | zero =>
      rw [Nat.zero_mul, List.drop_zero]
      exact ⟨hopen, rfl⟩
  | succ k ih =>
      obtain ⟨hnext, hline⟩ := open_round h hopen hfits
      obtain ⟨b', -, hb'⟩ := reflects_run rt shift.cfg.queue (shift.round rt s) h
      have hshorter : rt.Fits
          ((run rt shift.cfg.queue (shift.round rt s) s).line shift.now).length := by
        rw [hline]
        exact fits_of_le hfits (by simp)
      obtain ⟨hlast, hrest⟩ := ih hb' hnext hshorter
      rw [hline, List.drop_drop] at hrest
      rw [Shift.rounds, run_append]
      refine ⟨hlast, hrest.trans ?_⟩
      rw [Nat.succ_mul, Nat.add_comm]

/-- Where nobody waits, is due or is held, what there is is finished. -/
theorem final_of_open
    {s : Store}
    (hopen : s.Open shift)
    (hline : s.line shift.now = [])
    {id : String}
    {p : Place}
    (hid : s.At id p) :
    p.Final := by
  obtain ⟨hactive, hdue⟩ := List.append_eq_nil_iff.mp hline
  cases p with
  | active =>
      have hmem : id ∈ s.activeJobs := hid
      rw [hactive] at hmem
      cases hmem
  | scheduled =>
      obtain ⟨score, hscore⟩ := Option.isSome_iff_exists.mp (Finmap.lookup_isSome.mpr hid)
      have hmem : id ∈ s.due shift.now := ZSet.mem_rangeByScore.mpr
        ⟨score, hscore, Nat.zero_le _, hopen.late id score hscore⟩
      rw [hdue] at hmem
      cases hmem
  | inflight v =>
      have hmem : id ∈ s.inflightJobs v := hid
      rw [hopen.nobody v] at hmem
      cases hmem
  | done => trivial
  | dead => trivial

/-- The line is no longer than the number of stored tasks. -/
theorem length_line_le
    {s : Store}
    {b : Board}
    (h : Reflects s b)
    (now : Nat) :
    (s.line now).length ≤ s.jobData.keys.card := by
  obtain ⟨b', hb'⟩ := reflects_promoted now h
  have hline : (s.promoted now).activeJobs = s.line now := activeJobs_promoted now s
  rw [← List.toFinset_card_of_nodup (nodup_line h now)]
  refine Finset.card_le_card fun id hid => Finmap.mem_keys.mpr ?_
  rw [List.mem_toFinset, ← hline] at hid
  have hstored : id ∈ (s.promoted now).jobData :=
    hb'.stored id (by rw [hb'.mem_active.mp hid]; simp)
  rwa [(kept_promoted now s).2.2.1] at hstored

theorem card_inflight_le
    {s : Store}
    {b : Board}
    (h : Reflects s b)
    (worker : String) :
    (s.inflightJobs worker).card ≤ s.jobData.keys.card :=
  Finset.card_le_card fun id hid =>
    Finmap.mem_keys.mpr (h.stored id (by rw [h.mem_inflight.mp hid]; simp))

/-- What the recovery of all workers leaves. -/
structure Store.TakenOver (s t : Store) : Prop where
  nobody : ∀ v, t.inflightJobs v = ∅
  scheduledJobs : t.scheduledJobs = s.scheduledJobs
  jobData : t.jobData = s.jobData
  jobMeta : t.jobMeta = s.jobMeta
  live : ∀ id ∈ t.activeJobs, s.Live id

/-- Once all workers have expired, a recovery takes everything from them. -/
theorem takenOver_reenqueue
    (queue : String)
    {s : Store}
    (hregistered : s.Registered)
    {cutoff : Nat}
    (hsilent : ∀ v last, s.workers.lookup v = some last → last ≤ cutoff)
    (hfits : ∀ v, rt.Fits (s.inflightJobs v).card) :
    s.TakenOver ((reenqueueOrphanedScript rt queue cutoff none).run s).2 := by
  have hexpired : ∀ v ∈ s.workers, v ∈ s.expired cutoff none := by
    intro v hv
    obtain ⟨last, hlast⟩ := Option.isSome_iff_exists.mp (Finmap.lookup_isSome.mpr hv)
    exact mem_expired.mpr ⟨⟨last, hlast, hsilent v last hlast⟩, by simp⟩
  rw [reenqueueOrphanedScript]
  rcases reenqueueOrphaned_cases rt queue cutoff none s with ⟨-, hreached, hrun⟩ | ⟨hstuck, -⟩
  · rw [hrun, hreached, wake_recoverAll rt _ (nodup_expired cutoff none s) s]
    refine ⟨fun v => ?_, rfl, rfl, rfl, fun id hid => ?_⟩
    · dsimp only
      split
      · rfl
      · next hv =>
          by_contra hheld
          exact hv (hexpired v (hregistered v hheld))
    · rcases List.mem_append.mp hid with hactive | hrecovered
      · exact .inl hactive
      · obtain ⟨v, -, hheld⟩ := List.mem_flatMap.mp hrecovered
        exact .inr (.inr ⟨v, rt.mem_members.mp hheld⟩)
  · refine absurd (fun v _ => ?_) hstuck
    rw [length_held]
    exact hfits v

/-- The calls by which a worker starts. -/
def Shift.takeOver (shift : Shift core) (cutoff threshold : Nat) (backendName service : String) :
    List Call :=
  [.reenqueueOrphaned cutoff none,
    .registerWorker shift.now shift.worker threshold backendName service]

theorem open_takeOver
    {s : Store}
    (hregistered : s.Registered)
    {cutoff : Nat}
    (hsilent : ∀ v last, s.workers.lookup v = some last → last ≤ cutoff)
    (hfits : ∀ v, rt.Fits (s.inflightJobs v).card)
    (hlate : ∀ id score, s.scheduledJobs.lookup id = some score → score ≤ shift.now)
    (hdecodable : ∀ id, s.Live id → s.Decodable core id)
    (threshold : Nat)
    (backendName service : String) :
    let t := run rt shift.cfg.queue (shift.takeOver cutoff threshold backendName service) s
    t.Open shift ∧ t.jobData = s.jobData := by
  intro t
  have hrecovery := takenOver_reenqueue shift.cfg.queue hregistered hsilent hfits
  set u := ((reenqueueOrphanedScript rt shift.cfg.queue cutoff none).run s).2
  have ht : t = run rt shift.cfg.queue
      [.registerWorker shift.now shift.worker threshold backendName service] u := rfl
  obtain ⟨hworker, -⟩ := registered_after rt shift.cfg.queue shift.now shift.worker threshold
    backendName service u
  rw [← ht] at hworker
  have hover : s.TakenOver t := by
    have hrun : t = ((registerWorkerScript shift.cfg.queue shift.now shift.worker threshold
        backendName service).run u).2 := run_map_snd _ _ _
    rw [hrun, registerWorkerScript, run_registerWorker]
    split
    · exact hrecovery
    · exact ⟨hrecovery.nobody, hrecovery.scheduledJobs, hrecovery.jobData, hrecovery.jobMeta,
        hrecovery.live⟩
  refine ⟨⟨hworker, hover.nobody, fun id score hscore => ?_, fun id hid => ?_⟩, hover.jobData⟩
  · rw [hover.scheduledJobs] at hscore
    exact hlate id score hscore
  · refine (hdecodable id ?_).congr hover.jobData (congrFun hover.jobMeta id)
    rcases List.mem_append.mp hid with hactive | hdue
    · exact hover.live id hactive
    · have hscheduled : id ∈ t.scheduledJobs := ZSet.mem_of_mem_rangeByScore hdue
      rw [hover.scheduledJobs] at hscheduled
      exact .inr (.inl hscheduled)

variable (rt)

end Draining

section Standstill

variable {rt : Runtime} (queue : String)

theorem due_mono
    (s : Store)
    {now now' : Nat}
    (hle : now ≤ now') :
    s.due now ⊆ s.due now' := by
  intro id hid
  obtain ⟨score, hscore, hlow, hhigh⟩ := ZSet.mem_rangeByScore.mp hid
  exact ZSet.mem_rangeByScore.mpr ⟨score, hscore, hlow, hhigh.trans hle⟩

/-- What unpacks includes nothing that does not. -/
theorem not_fits_of_subset
    {s t : Store}
    {now now' : Nat}
    (hstuck : ¬rt.Fits (s.due now).length)
    (hsubset : s.due now ⊆ t.due now') :
    ¬rt.Fits (t.due now').length := by
  have hnd : (s.due now).Nodup := ZSet.nodup_rangeByScore _ _ _
  exact fun hfits => hstuck (fits_of_le hfits (List.subperm_of_subset hnd hsubset).length_le)

/-- With too much that is due a call hands out nothing, and takes nobody out of the line. -/
theorem stuck_exec
    (c : Call)
    {s : Store}
    {b : Board}
    (h : Reflects s b)
    {now : Nat}
    (hstuck : ¬rt.Fits (s.due now).length)
    (hlate : ∀ now' batchSize worker, c = .fetchNext now' batchSize worker → now ≤ now') :
    let t := ((c.exec rt queue).run s).2
    c.handsOut rt queue s = [] ∧ s.activeJobs ⊆ t.activeJobs ∧ s.due now ⊆ t.due now := by
  intro t
  by_cases hfetches : c.Fetches
  · cases c with
    | fetchNext now' batchSize worker =>
        have hstuck' := not_fits_of_subset hstuck (due_mono s (hlate now' batchSize worker rfl))
        have hfails : ∃ message, (fetchNextScript rt queue now' batchSize worker).run s =
            (.error message, s) := by
          rcases fetchNext_cases rt queue worker now' batchSize s with
            ⟨-, hrun⟩ | ⟨hgoes, -⟩ | ⟨hgoes, -⟩
          · exact hrun
          · exact absurd hgoes.2 hstuck'
          · exact absurd hgoes.2 hstuck'
        obtain ⟨message, hrun⟩ := hfails
        have ht : t = s := by
          change ((Call.exec rt queue _).run s).2 = s
          rw [Call.exec, run_map_snd, hrun]
        rw [ht, Call.handsOut, hrun]
        exact ⟨rfl, List.Subset.refl _, List.Subset.refl _⟩
    | _ => exact absurd hfetches id
  · have hwithin := c.within_waiting_of_not_fetches rt hfetches
    have hnone : c.handsOut rt queue s = [] := by
      cases c with
      | fetchNext now' batchSize worker => exact absurd trivial hfetches
      | _ => rfl
    refine ⟨hnone, (activeJobs_prefix_exec rt queue hwithin h).subset, fun id hid => ?_⟩
    obtain ⟨score, hscore, hlow, hhigh⟩ := ZSet.mem_rangeByScore.mp hid
    have hkept := lookup_scheduled_of_moves (moves_waiting rt queue hwithin s) h hscore
    exact ZSet.mem_rangeByScore.mpr ⟨score, hkept, hlow, hhigh⟩

theorem stuck_run
    (later : List Call)
    {s : Store}
    {b : Board}
    (h : Reflects s b)
    {now : Nat}
    (hstuck : ¬rt.Fits (s.due now).length)
    (hlate : ∀ now' batchSize worker, .fetchNext now' batchSize worker ∈ later → now ≤ now') :
    let t := run rt queue later s
    handedOut rt queue later s = [] ∧ s.activeJobs ⊆ t.activeJobs ∧ s.due now ⊆ t.due now := by
  induction later generalizing s b with
  | nil => exact ⟨rfl, List.Subset.refl _, List.Subset.refl _⟩
  | cons c later ih =>
      obtain ⟨hnone, hactive, hdue⟩ := stuck_exec queue c h hstuck
        fun now' batchSize worker hc => hlate now' batchSize worker (hc ▸ List.mem_cons_self)
      obtain ⟨b', -, hb'⟩ := reflects_run rt queue [c] h
      obtain ⟨hnone', hactive', hdue'⟩ := ih hb' (not_fits_of_subset hstuck hdue)
        fun now' batchSize worker hmem => hlate now' batchSize worker (List.mem_cons_of_mem _ hmem)
      refine ⟨?_, fun _ hid => hactive' (hactive hid), fun _ hid => hdue' (hdue hid)⟩
      rw [handedOut, hnone, List.nil_append]
      exact hnone'

variable (rt)

/-- **With more due tasks than Lua can unpack the queue stands still for good**:
whatever is called, no fetch since that time hands out anything, and whoever waits
or is due does so for ever. -/
theorem standstill
    (calls later : List Call)
    {now : Nat}
    (hstuck : ¬rt.Fits ((run rt queue calls Store.empty).due now).length)
    (hlate : ∀ now' batchSize worker, .fetchNext now' batchSize worker ∈ later → now ≤ now') :
    let s := run rt queue calls Store.empty
    handedOut rt queue later s = [] ∧ s.line now ⊆ (run rt queue later s).line now := by
  intro s
  obtain ⟨b, -, hb⟩ := reflects_run rt queue calls reflects_empty
  obtain ⟨hnone, hactive, hdue⟩ := stuck_run queue later hb hstuck hlate
  refine ⟨hnone, fun id hid => ?_⟩
  rcases List.mem_append.mp hid with hid | hid
  · exact List.mem_append_left _ (hactive hid)
  · exact List.mem_append_right _ (hdue hid)

end Standstill

/-- A worker that takes one task at a time, at second 100. -/
def lateShift : Shift Core.text where
  cfg := { Config.default with batchSize := 1 }
  worker := "x"
  now := 100
  report id := ⟨id, 100, "ok", "Done", 1⟩
  positive := by decide
  reports _ := rfl
  final _ := trivial

/-- What the two others leave behind. -/
def heldByTwo : Store :=
  run (.ascending none) lateShift.cfg.queue twoHolders Store.empty

theorem decodable_heldByTwo
    (id : String)
    (hlive : heldByTwo.Live id) :
    heldByTwo.Decodable Core.text id := by
  obtain ⟨b, -, hb⟩ := reflects_run (.ascending none) lateShift.cfg.queue twoHolders reflects_empty
  have hstored : id ∈ heldByTwo.jobData := by
    rcases hlive with hactive | hscheduled | ⟨v, hheld⟩
    · exact hb.stored id (by rw [hb.mem_active.mp hactive]; simp)
    · exact hb.stored id (by rw [hb.mem_scheduled.mp hscheduled]; simp)
    · exact hb.stored id (by rw [hb.mem_inflight.mp hheld]; simp)
  have hkeys : ∀ id ∈ heldByTwo.jobData.keys,
      (heldByTwo.jobMeta id).lookup "attempts" = some "0" ∧
        (heldByTwo.jobMeta id).lookup "max_attempts" = some "25" ∧
        (heldByTwo.jobMeta id).lookup "status" = some "Pending" := by
    decide +kernel
  obtain ⟨hattempts, hmax, hstatus⟩ := hkeys id (Finmap.mem_keys.mpr hstored)
  exact ⟨⟨⟨id, rfl⟩, hstored, ⟨0, requiredField_eq_ok.mpr ⟨"0", hattempts, by decide +kernel⟩⟩,
    ⟨25, requiredField_eq_ok.mpr ⟨"25", hmax, by decide +kernel⟩⟩,
    ⟨TaskStatus.pending, requiredField_eq_ok.mpr ⟨"Pending", hstatus, rfl⟩⟩⟩,
    Core.text_parsesPrinted.readsBack id⟩

/-- One due task more than Lua's stack takes, and nobody is handed anything again. -/
theorem backlog_stands_still :
    8001 ≤ ((backlogged 8001).due 12).length ∧
      handedOut (.ascending (some luaiMaxCStack)) Config.default.queue
        [.fetchNext 13 1 "w", .fetchNext 5000 100 "w"] (backlogged 8001) = [] := by
  have hdue := (due_backlogged 8001).2
  have hstuck : ¬(Runtime.ascending (some luaiMaxCStack)).Fits
      ((run (.ascending (some luaiMaxCStack)) Config.default.queue
        [.submit 0 true (backlog 8001), registerW] Store.empty).due 12).length := by
    rw [fits_iff rfl]
    exact fun hle => absurd (hdue.trans hle) (by decide)
  refine ⟨hdue, (standstill _ _ _ _ hstuck fun now' batchSize worker hmem => ?_).1⟩
  simp only [List.mem_cons, Call.fetchNext.injEq, List.not_mem_nil, or_false] at hmem
  omega

end ApalisRedis
