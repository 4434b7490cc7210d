import ApalisRedis.Calls

/-!
# The persistence operations over the scripts

`register` and `heartbeat` of `persist.rs` evaluate several scripts in
sequence, each with its own reading of the clock, and stop at the first error.
A panic of the Rust code is an error here as well, with the panic's message.

`checks` says whether the build checks integer overflow: `now - dead_for`
panics there when it underflows, and wraps around otherwise.

**Results.**
* `refusesTakeover_iff`: when `register` refuses the name of a live worker.
-/

namespace ApalisRedis

open Lua Redis Script Rust

/-- The filters of `apalis_core` that the crate passes. -/
inductive WorkerFilter where
  | only (worker : String)
  | allExcept (worker : String)

section Persist

variable (rt : Runtime) (checks : Bool) (cfg : Config)

/-- `now - dead_for` on `u64`. -/
def expiredBefore (now deadFor : Nat) : Script Store Nat :=
  match u64Sub checks now deadFor with
  | some cutoff => pure cutoff
  | none => raise "attempt to subtract with overflow"

/-- `Config::orphaned_duration` in a script. -/
def orphanedAfter : Script Store Duration :=
  match cfg.orphanedDuration with
  | some d => pure d
  | none => raise "overflow when multiplying duration by scalar"

/-- `queries::reenqueue_orphaned` -/
def reenqueue (now : Nat) : WorkerFilter → Script Store Nat
  | .only worker => do
      let cutoff ← expiredBefore checks now cfg.heartbeatInterval.asSecs
      reenqueueOrphanedScript rt cfg.queue cutoff (some worker)
  | _ => do
      let deadFor ← orphanedAfter cfg
      let cutoff ← expiredBefore checks now deadFor.asSecs
      reenqueueOrphanedScript rt cfg.queue cutoff none

/-- `queries::register_worker` -/
def registerName (now : Nat) (worker service : String) : Script Store Unit := do
  let threshold ← orphanedAfter cfg
  registerWorkerScript cfg.queue now worker threshold.asSecs "RedisStorage" service

/-- `queries::renew_leases`: `tasks` are the ids that the worker's context
tracks, none when they cannot be read. -/
def renewTracked (now : Nat) (worker : String) (taskCount : Nat)
    (tasks : Option (List String)) : Script Store Nat :=
  if taskCount = 0 then
    pure 0
  else
    match tasks with
    | none => raise "WorkerOutOfSync"
    | some taskIds => renewLeasesScript cfg.queue worker now cfg.emitEvents taskIds

/-- `RedisPersistence::register`, reading the clock twice. -/
def register (now later : Nat) (worker service : String) : Script Store Unit := do
  let _ ← reenqueue rt checks cfg now (.only worker)
  registerName cfg later worker service

/-- `RedisPersistence::heartbeat`, reading the clock three times. -/
def heartbeat (now renewAt sweepAt : Nat) (worker : String) (taskCount : Nat)
    (tasks : Option (List String)) : Script Store Unit := do
  keepAliveScript cfg.queue now worker
  if cfg.lockTasks then
    let _ ← renewTracked cfg renewAt worker taskCount tasks
  let _ ← reenqueue rt checks cfg sweepAt (.allExcept worker)

/-- Registering fails because the name is in use, and leaves the holder's
tasks and registration as they were. -/
def RefusesTakeover (now later : Nat) (worker service : String) (s : Store) : Prop :=
  let outcome := (register rt checks cfg now later worker service).run s
  outcome.1 = .error "worker is still active within threshold" ∧
    outcome.2.inflightJobs worker = s.inflightJobs worker ∧
    outcome.2.workers.lookup worker = s.workers.lookup worker ∧
    outcome.2.workerMetadata worker = s.workerMetadata worker

theorem run_reenqueueOnly_of_recent
    {cutoff last : Nat}
    {worker : String}
    {s : Store}
    (hlast : s.workers.lookup worker = some last)
    (hrecent : cutoff < last) :
    (reenqueueOrphanedScript rt cfg.queue cutoff (some worker)).run s = (.ok 0, s) := by
  have hexpired := run_expiredWorkers cfg.queue cutoff (some worker) s
  have hnot : (s.workers.lookup worker).any (· ≤ cutoff) = false := by
    simp [hlast, hrecent]
  rw [reenqueueOrphanedScript, reenqueueOrphaned, run_bind_ok hexpired]
  simp [hnot]

/-- An expired name is removed, unless unpacking its tasks fails. -/
theorem run_reenqueueOnly_of_expired
    {cutoff last : Nat}
    {worker : String}
    {s : Store}
    (hlast : s.workers.lookup worker = some last)
    (hexpired : last ≤ cutoff) :
    (∃ t, (reenqueueOrphanedScript rt cfg.queue cutoff (some worker)).run s =
        (.error "too many results to unpack", t)) ∨
      ∃ n t, (reenqueueOrphanedScript rt cfg.queue cutoff (some worker)).run s = (.ok n, t) ∧
        worker ∉ t.workers := by
  have hworkers := run_expiredWorkers cfg.queue cutoff (some worker) s
  have hany : (s.workers.lookup worker).any (· ≤ cutoff) = true := by
    simp [hlast, hexpired]
  have hrecover := run_recoverWorker rt cfg.queue 0 worker s
  rw [reenqueueOrphanedScript, reenqueueOrphaned, run_bind_ok hworkers]
  simp only [hany, if_true, List.foldlM_cons, List.foldlM_nil]
  by_cases hfits : rt.Fits (rt.members (s.inflightJobs worker)).length
  · rw [if_pos hfits] at hrecover
    refine .inr ?_
    by_cases hjobs : 0 < (rt.members (s.inflightJobs worker)).length
    · refine ⟨(rt.members (s.inflightJobs worker)).length,
        (s.recover worker (rt.members (s.inflightJobs worker))).wake, ?_, ?_⟩
      · simp [run_bind_ok hrecover, hjobs, run_map]
      · simp [Store.wake, Store.recover]
    · refine ⟨(rt.members (s.inflightJobs worker)).length,
        s.recover worker (rt.members (s.inflightJobs worker)), ?_, ?_⟩
      · simp [run_bind_ok hrecover, hjobs]
      · simp [Store.recover]
  · rw [if_neg hfits] at hrecover
    exact .inl ⟨s, by simp [run_bind_error hrecover]⟩

theorem run_registerName
    {duration : Duration}
    (hduration : cfg.orphanedDuration = some duration)
    (now : Nat)
    (worker service : String)
    (s : Store) :
    (registerName cfg now worker service).run s =
      if s.StillActive now duration.asSecs worker then
        (.error "worker is still active within threshold", s)
      else
        (.ok (), (s.beat now worker).enroll cfg.queue now worker "RedisStorage" service) := by
  rw [registerName, orphanedAfter, hduration]
  exact run_registerWorker cfg.queue now worker duration.asSecs "RedisStorage" service s

/-- **When the name of a live worker cannot be taken over.** -/
theorem refusesTakeover_iff
    {duration : Duration}
    (hduration : cfg.orphanedDuration = some duration)
    {last : Nat}
    (now later : Nat)
    (worker service : String)
    (s : Store)
    (hlast : s.workers.lookup worker = some last) :
    RefusesTakeover rt checks cfg now later worker service s ↔
      (∃ cutoff, u64Sub checks now cfg.heartbeatInterval.asSecs = some cutoff ∧ cutoff < last) ∧
        (later : Int) - last < duration.asSecs := by
  unfold RefusesTakeover register reenqueue expiredBefore
  cases hcutoff : u64Sub checks now cfg.heartbeatInterval.asSecs with
  | none => simp
  | some cutoff =>
      by_cases hrecent : cutoff < last
      · have hreenqueue := run_reenqueueOnly_of_recent rt cfg hlast hrecent
        have hactive : s.StillActive later duration.asSecs worker ↔
            (later : Int) - last < duration.asSecs := by
          simp [Store.StillActive, hlast]
        have hregister := run_registerName cfg hduration later worker service s
        by_cases hlt : (later : Int) - last < duration.asSecs
        · rw [if_pos (hactive.mpr hlt)] at hregister
          simp [run_bind_ok hreenqueue, hregister, hrecent, hlt]
        · rw [if_neg (mt hactive.mp hlt)] at hregister
          simp [run_bind_ok hreenqueue, hregister, hlt]
      · rcases run_reenqueueOnly_of_expired rt cfg hlast (Nat.not_lt.mp hrecent) with
          ⟨t, herror⟩ | ⟨n, t, hok, hgone⟩
        · simp [run_bind_error herror, hrecent]
        · have hfree : ¬t.StillActive later duration.asSecs worker := by
            rintro ⟨last', hlast', -⟩
            exact hgone (Finmap.mem_of_lookup_eq_some hlast')
          have hregister := run_registerName cfg hduration later worker service t
          rw [if_neg hfree] at hregister
          simp [run_bind_ok hok, hregister, hrecent]

/-- One worker is registered, at second 100. -/
def oneRegistered : Store :=
  run (.ascending none) "default" [.registerWorker 100 "w" 300 "RedisStorage" ""] Store.empty

theorem orphanedDuration_default :
    Config.default.orphanedDuration = some (.fromSecs 300 (by decide)) :=
  Duration.mul_eq_some.mpr (by decide)

/-- Ten seconds after its last heartbeat the name is refused. -/
theorem refusesTakeover_recent :
    RefusesTakeover (.ascending none) true .default 110 110 "w" "" oneRegistered := by
  have hlast : oneRegistered.workers.lookup "w" = some 100 := by decide +kernel
  exact (refusesTakeover_iff (.ascending none) true .default orphanedDuration_default 110 110
    "w" "" oneRegistered hlast).mpr ⟨⟨80, by decide, by decide⟩, by decide⟩

/-- Forty seconds after its last heartbeat the name is lost, long before the
orphan threshold of three hundred. -/
theorem live_name_taken_over :
    oneRegistered.workers.lookup "w" = some 100 ∧
      (∃ duration, Config.default.orphanedDuration = some duration ∧
        ((140 : Int) - 100) * 10 ^ 9 < duration.nanos) ∧
      ¬RefusesTakeover (.ascending none) true .default 140 140 "w" "" oneRegistered := by
  refine ⟨by decide +kernel, ⟨_, orphanedDuration_default, by decide⟩, ?_⟩
  rintro ⟨-, -, hlookup, -⟩
  revert hlookup
  decide +kernel

/-- The sweep from `s` to `t` removed some workers whose last heartbeat is at
most the cutoff, and all of those when the tasks of everybody can be unpacked. -/
structure Swept (cutoff : Nat) (removed : List String) (s t : Store) : Prop where
  expired : ∀ v ∈ removed, ∃ last, s.workers.lookup v = some last ∧ last ≤ cutoff
  complete : (∀ v, rt.Fits (rt.members (s.inflightJobs v)).length) →
    ∀ v last, s.workers.lookup v = some last → last ≤ cutoff → v ∈ removed
  workers : ∀ v, v ∈ t.workers ↔ v ∈ s.workers ∧ v ∉ removed
  inflightJobs : ∀ v, t.inflightJobs v = if v ∈ removed then ∅ else s.inflightJobs v

theorem run_sweep
    (queue : String)
    (cutoff : Nat)
    (s : Store) :
    ∃ removed,
      Swept rt cutoff removed s ((reenqueueOrphanedScript rt queue cutoff none).run s).2 := by
  have hsub : ∀ v ∈ s.reached rt cutoff none, v ∈ s.expired cutoff none :=
    fun v hv => (List.takeWhile_prefix _).subset hv
  have hnd : (s.reached rt cutoff none).Nodup :=
    (nodup_expired cutoff none s).sublist (List.takeWhile_prefix _).sublist
  have hswept : Swept rt cutoff (s.reached rt cutoff none) s
      (s.recoverAll rt (s.reached rt cutoff none)) := by
    rw [recoverAll_eq rt _ hnd]
    refine ⟨fun v hv => ?_, fun hfits v last hlast hle => ?_, fun v => ?_, fun v => rfl⟩
    · obtain ⟨last, hlast, -, hle⟩ := ZSet.mem_rangeByScore.mp (hsub v hv)
      exact ⟨last, hlast, hle⟩
    · have hall : s.reached rt cutoff none = s.expired cutoff none :=
        List.takeWhile_eq_self_iff.mpr fun u _ => decide_eq_true (hfits u)
      rw [hall]
      exact ZSet.mem_rangeByScore.mpr ⟨last, hlast, Nat.zero_le _, hle⟩
    · rw [Hash.mem_eraseAll, and_comm]
  refine ⟨s.reached rt cutoff none, ?_⟩
  rw [reenqueueOrphanedScript]
  rcases reenqueueOrphaned_cases rt queue cutoff none s with ⟨-, -, hrun⟩ | ⟨-, hrun⟩ <;> rw [hrun]
  · dsimp only
    split
    · exact ⟨hswept.expired, hswept.complete, hswept.workers, hswept.inflightJobs⟩
    · exact hswept
  · exact hswept

/-- Whether the renewal in a heartbeat of a registered worker succeeds: it is
off, nothing is tracked, or every tracked task is held.  With events on the
script raises once it has a task to announce, for its `KEYS[4]` is missing. -/
def RenewalSucceeds (worker : String) (taskCount : Nat) (tasks : Option (List String))
    (s : Store) : Prop :=
  cfg.lockTasks = true → 0 < taskCount →
    ∃ taskIds, tasks = some taskIds ∧ (∀ id ∈ taskIds, id ∈ s.inflightJobs worker) ∧
      (cfg.emitEvents = true → taskIds = [])

/-- Registrations and inflight sets are as before. -/
def SameWorkers (s t : Store) : Prop :=
  t.workers = s.workers ∧ t.inflightJobs = s.inflightJobs

theorem Swept.congr
    {cutoff : Nat}
    {removed : List String}
    {s u t : Store}
    (h : Swept rt cutoff removed u t)
    (hsame : SameWorkers s u) :
    Swept rt cutoff removed s t := by
  obtain ⟨hexpired, hcomplete, hworkers, hinflight⟩ := h
  rw [hsame.1] at hexpired hcomplete hworkers
  rw [hsame.2] at hcomplete hinflight
  exact ⟨hexpired, hcomplete, hworkers, hinflight⟩

theorem sameWorkers_renewAll
    (now : Nat)
    (taskIds : List String)
    (s : Store) :
    SameWorkers s (taskIds.foldl (fun s id => s.renew now id) s) := by
  induction taskIds generalizing s with
  | nil => exact ⟨rfl, rfl⟩
  | cons id ids ih => exact ih (s.renew now id)

/-- The renewals themselves raise only where an event would be published. -/
theorem run_renewTasks
    (queue worker : String)
    (now : Nat)
    (emitEvents : Bool)
    (taskIds : List String)
    (s : Store) :
    ∃ reply t, (taskIds.foldlM (fun _ id =>
        renewTask (Keys.jobMetaHash queue) worker now emitEvents none id) ()).run s =
          (reply, t) ∧
      SameWorkers s t ∧
      (reply = .ok () ∧ (emitEvents = true → taskIds = []) ∨
        (∃ e, reply = .error e) ∧ ¬(emitEvents = true → taskIds = [])) := by
  cases emitEvents with
  | true =>
      cases taskIds with
      | nil => exact ⟨.ok (), s, rfl, ⟨rfl, rfl⟩, .inl ⟨rfl, fun _ => rfl⟩⟩
      | cons id ids =>
          have hrenew := run_renewTask queue worker now true id s
          refine ⟨.error "attempt to concatenate field '?' (a nil value)", s.renew now id, ?_,
            ⟨rfl, rfl⟩, .inr ⟨⟨_, rfl⟩, by simp⟩⟩
          rw [List.foldlM_cons, run_bind_error hrenew]
  | false =>
      have hrenew := run_foldlM_unit (run_renewTask queue worker now false) taskIds s
      exact ⟨.ok (), _, hrenew, sameWorkers_renewAll now taskIds s, .inl ⟨rfl, by simp⟩⟩

/-- The validation and the renewals of a registered worker. -/
theorem run_renewLeases
    (queue : String)
    {worker : String}
    (now : Nat)
    (emitEvents : Bool)
    (taskIds : List String)
    (s : Store)
    (hworker : worker ∈ s.workers) :
    ∃ reply t, (renewLeasesScript queue worker now emitEvents taskIds).run s = (reply, t) ∧
      SameWorkers s t ∧
      ((∃ n, reply = .ok n) ↔
        (∀ id ∈ taskIds, id ∈ s.inflightJobs worker) ∧ (emitEvents = true → taskIds = [])) := by
  have hsome : s.workers.lookup worker ≠ none := mt Finmap.lookup_eq_none.mp (not_not.mpr hworker)
  have hcheck := run_checkHeld_all queue worker "lease not held for task: " taskIds s
  by_cases hlen : taskIds.length = 0
  · have hnil : taskIds = [] := List.length_eq_zero_iff.mp hlen
    refine ⟨.ok 0, s, ?_, ⟨rfl, rfl⟩, by simp [hnil]⟩
    simp [renewLeasesScript, renewLeases, hsome, hlen]
  · cases hfind : taskIds.find? fun id => decide (id ∉ s.inflightJobs worker) with
    | some id =>
        rw [hfind] at hcheck
        have hid : id ∈ taskIds := List.mem_of_find?_eq_some hfind
        have hmissing : id ∉ s.inflightJobs worker := by simpa using List.find?_some hfind
        refine ⟨.error ("lease not held for task: " ++ id), s, ?_, ⟨rfl, rfl⟩, ?_⟩
        · simp [renewLeasesScript, renewLeases, hsome, hlen, run_bind_error hcheck]
        · exact iff_of_false (by simp) fun h => hmissing (h.1 id hid)
    | none =>
        rw [hfind] at hcheck
        have hheld : ∀ id ∈ taskIds, id ∈ s.inflightJobs worker := fun id hid => by
          simpa using List.find?_eq_none.mp hfind id hid
        obtain ⟨reply, t, ht, hsame, ⟨rfl, hquiet⟩ | ⟨⟨e, rfl⟩, hloud⟩⟩ :=
          run_renewTasks queue worker now emitEvents taskIds s
        · refine ⟨.ok taskIds.length, t, ?_, hsame, iff_of_true ⟨_, rfl⟩ ⟨hheld, hquiet⟩⟩
          simp [renewLeasesScript, renewLeases, hsome, hlen, run_bind_ok hcheck, run_map, ht]
        · refine ⟨.error e, t, ?_, hsame, iff_of_false (by simp) fun h => hloud h.2⟩
          simp [renewLeasesScript, renewLeases, hsome, hlen, run_bind_ok hcheck, run_map, ht]

theorem run_renewTracked
    {worker : String}
    (now taskCount : Nat)
    (tasks : Option (List String))
    (s : Store)
    (hworker : worker ∈ s.workers)
    (hlock : cfg.lockTasks = true) :
    ∃ reply t, (renewTracked cfg now worker taskCount tasks).run s = (reply, t) ∧
      SameWorkers s t ∧
      ((∃ n, reply = .ok n) ↔ RenewalSucceeds cfg worker taskCount tasks s) := by
  unfold renewTracked RenewalSucceeds
  by_cases hcount : taskCount = 0
  · exact ⟨.ok 0, s, by simp [hcount], ⟨rfl, rfl⟩, by simp [hcount]⟩
  · cases tasks with
    | none =>
        refine ⟨.error "WorkerOutOfSync", s, by simp [hcount], ⟨rfl, rfl⟩, ?_⟩
        simp [hlock, Nat.pos_of_ne_zero hcount]
    | some taskIds =>
        obtain ⟨reply, t, ht, hsame, hok⟩ :=
          run_renewLeases cfg.queue now cfg.emitEvents taskIds s hworker
        refine ⟨reply, t, by simp [hcount, ht], hsame, ?_⟩
        rw [hok]
        simp [hlock, Nat.pos_of_ne_zero hcount]

/-- A heartbeat keeps its own worker registered with its tasks, and removes or
empties another worker only when that one's last heartbeat is at least the
orphan threshold ago. -/
def HeartbeatSound (now renewAt sweepAt : Nat) (worker : String) (taskCount : Nat)
    (tasks : Option (List String)) (s : Store) : Prop :=
  let t := ((heartbeat rt checks cfg now renewAt sweepAt worker taskCount tasks).run s).2
  (worker ∈ s.workers → worker ∈ t.workers) ∧
    s.inflightJobs worker ⊆ t.inflightJobs worker ∧
    ∀ v, v ≠ worker → v ∈ s.workers → v ∉ t.workers ∨ t.inflightJobs v ≠ s.inflightJobs v →
      ∃ last duration, s.workers.lookup v = some last ∧
        cfg.orphanedDuration = some duration ∧
        (duration.nanos : Int) ≤ ((sweepAt : Int) - last) * 10 ^ 9

/-- The heartbeat gets as far as its sweep. -/
def ReachesSweep (sweepAt : Nat) (worker : String) (taskCount : Nat)
    (tasks : Option (List String)) (duration : Duration) (s : Store) : Prop :=
  worker ∈ s.workers ∧ RenewalSucceeds cfg worker taskCount tasks s ∧
    cfg.orphanedDuration = some duration ∧ (checks = true → duration.asSecs ≤ sweepAt)

/-- The sweep's cutoff lies before the heartbeat just recorded, and the fraction
that `as_secs` drops from the threshold is the last chance of nobody. -/
def SweepHarmless (now sweepAt : Nat) (worker : String) (duration : Duration) (s : Store) :
    Prop :=
  duration.asSecs ≤ sweepAt ∧ sweepAt < now + duration.asSecs ∧
    (duration.subsecNanos = 0 ∨
      ∀ v, v ≠ worker → s.workers.lookup v ≠ some (sweepAt - duration.asSecs))

/-- The part of a heartbeat before its sweep, for a registered worker. -/
theorem run_beatAndRenew
    {worker : String}
    (now renewAt : Nat)
    (taskCount : Nat)
    (tasks : Option (List String))
    (k : Script Store Unit)
    (s : Store)
    (hworker : worker ∈ s.workers) :
    ∃ u, SameWorkers (s.beat now worker) u ∧
      ((RenewalSucceeds cfg worker taskCount tasks s ∧
          (do
            keepAliveScript cfg.queue now worker
            if cfg.lockTasks then
              let _ ← renewTracked cfg renewAt worker taskCount tasks
            k).run s = k.run u) ∨
        (¬RenewalSucceeds cfg worker taskCount tasks s ∧
          ((do
            keepAliveScript cfg.queue now worker
            if cfg.lockTasks then
              let _ ← renewTracked cfg renewAt worker taskCount tasks
            k).run s).2 = u)) := by
  have halive := run_keepAlive cfg.queue now worker s
  rw [if_pos hworker] at halive
  change (keepAliveScript cfg.queue now worker).run s = _ at halive
  by_cases hlock : cfg.lockTasks = true
  · have hbeat : worker ∈ (s.beat now worker).workers := Finmap.mem_insert.mpr (.inl rfl)
    obtain ⟨reply, u, hu, hsame, hok⟩ :=
      run_renewTracked cfg renewAt taskCount tasks (s.beat now worker) hbeat hlock
    refine ⟨u, hsame, ?_⟩
    rcases reply with e | n
    · refine .inr ⟨fun h => by simpa using hok.mpr h, ?_⟩
      simp [hlock, run_bind_ok halive, run_bind_error hu]
    · refine .inl ⟨hok.mp ⟨n, rfl⟩, ?_⟩
      simp [hlock, run_bind_ok halive, run_bind_ok hu]
  · refine ⟨s.beat now worker, ⟨rfl, rfl⟩, .inl ⟨fun h => absurd h hlock, ?_⟩⟩
    simp [hlock, run_bind_ok halive]

/-- The sweep that a heartbeat asks for. -/
theorem run_reenqueueAll
    (sweepAt : Nat)
    (worker : String)
    (u : Store) :
    (∃ duration cutoff, cfg.orphanedDuration = some duration ∧
        u64Sub checks sweepAt duration.asSecs = some cutoff ∧
        (reenqueue rt checks cfg sweepAt (.allExcept worker)).run u =
          (reenqueueOrphanedScript rt cfg.queue cutoff none).run u) ∨
      ((∀ duration, cfg.orphanedDuration = some duration →
          u64Sub checks sweepAt duration.asSecs = none) ∧
        ∃ e, (reenqueue rt checks cfg sweepAt (.allExcept worker)).run u = (.error e, u)) := by
  unfold reenqueue orphanedAfter expiredBefore
  cases hduration : cfg.orphanedDuration with
  | none => exact .inr ⟨by simp, _, rfl⟩
  | some duration =>
      cases hcutoff : u64Sub checks sweepAt duration.asSecs with
      | none => exact .inr ⟨fun d hd => by cases hd; exact hcutoff, _, by simp [hcutoff]; rfl⟩
      | some cutoff => exact .inl ⟨duration, cutoff, rfl, hcutoff, by simp [hcutoff]⟩

/-- The ends of a heartbeat: its sweep ran after the keep-alive, or was not reached. -/
theorem heartbeat_cases
    (now renewAt sweepAt : Nat)
    (worker : String)
    (taskCount : Nat)
    (tasks : Option (List String))
    (s : Store) :
    let t := ((heartbeat rt checks cfg now renewAt sweepAt worker taskCount tasks).run s).2
    (∃ duration cutoff removed,
        ReachesSweep checks cfg sweepAt worker taskCount tasks duration s ∧
        u64Sub checks sweepAt duration.asSecs = some cutoff ∧
        Swept rt cutoff removed (s.beat now worker) t) ∨
      ((∀ duration, ¬ReachesSweep checks cfg sweepAt worker taskCount tasks duration s) ∧
        (SameWorkers (s.beat now worker) t ∨ worker ∉ s.workers ∧ t = s)) := by
  intro t
  by_cases hworker : worker ∈ s.workers
  · obtain ⟨u, hsame, ⟨hrenewed, hrun⟩ | ⟨hfailed, hrun⟩⟩ :=
      run_beatAndRenew cfg now renewAt taskCount tasks
        (do let _ ← reenqueue rt checks cfg sweepAt (.allExcept worker)) s hworker
    · change (heartbeat rt checks cfg now renewAt sweepAt worker taskCount tasks).run s = _ at hrun
      have ht : t = ((reenqueue rt checks cfg sweepAt (.allExcept worker)).run u).2 := by
        change ((heartbeat rt checks cfg now renewAt sweepAt worker taskCount tasks).run s).2 = _
        rw [hrun, run_bind]
        rcases (reenqueue rt checks cfg sweepAt (.allExcept worker)).run u with ⟨_ | n, v⟩ <;> rfl
      rcases run_reenqueueAll rt checks cfg sweepAt worker u with
        ⟨duration, cutoff, hduration, hcutoff, hsweep⟩ | ⟨hnone, e, herror⟩
      · obtain ⟨removed, hswept⟩ := run_sweep rt cfg.queue cutoff u
        rw [← hsweep, ← ht] at hswept
        have hchecks := (exists_u64Sub checks sweepAt duration.asSecs).mp ⟨cutoff, hcutoff⟩
        exact .inl ⟨duration, cutoff, removed, ⟨hworker, hrenewed, hduration, hchecks⟩, hcutoff,
          hswept.congr rt hsame⟩
      · refine .inr ⟨?_, .inl ?_⟩
        · rintro duration ⟨-, -, hduration, hchecks⟩
          obtain ⟨cutoff, hcutoff⟩ := (exists_u64Sub checks sweepAt duration.asSecs).mpr hchecks
          rw [hnone duration hduration] at hcutoff
          cases hcutoff
        · rw [ht, herror]
          exact hsame
    · change t = u at hrun
      exact .inr ⟨fun duration h => hfailed h.2.1, .inl (hrun ▸ hsame)⟩
  · have halive := run_keepAlive cfg.queue now worker s
    rw [if_neg hworker] at halive
    change (keepAliveScript cfg.queue now worker).run s = _ at halive
    refine .inr ⟨fun duration h => hworker h.1, .inr ⟨hworker, ?_⟩⟩
    change ((heartbeat rt checks cfg now renewAt sweepAt worker taskCount tasks).run s).2 = s
    rw [heartbeat, run_bind_error halive]

/-- The age that a removed worker has when the cutoff is computed exactly. -/
theorem old_of_expired
    {duration : Duration}
    {sweepAt last : Nat}
    (hsecs : duration.asSecs ≤ sweepAt)
    (hexpired : last ≤ sweepAt - duration.asSecs) :
    (duration.nanos : Int) ≤ ((sweepAt : Int) - last) * 10 ^ 9 ↔
      duration.subsecNanos = 0 ∨ last ≠ sweepAt - duration.asSecs := by
  have hnanos := duration.nanos_eq
  have hsub := duration.subsecNanos_lt
  constructor
  · intro hold
    by_contra hboth
    rw [not_or, not_not] at hboth
    obtain ⟨hfraction, rfl⟩ := hboth
    omega
  · rintro (hfraction | hne)
    · omega
    · omega

section Sweeping

variable {rt checks cfg}
variable {now renewAt sweepAt : Nat} {worker : String} {taskCount : Nat}
variable {tasks : Option (List String)} {duration : Duration} {cutoff : Nat}
variable {removed : List String} {s : Store}

/-- A heartbeat whose sweep is not reached is sound. -/
theorem heartbeatSound_of_unswept
    (hunswept : SameWorkers (s.beat now worker)
        ((heartbeat rt checks cfg now renewAt sweepAt worker taskCount tasks).run s).2 ∨
      worker ∉ s.workers ∧
        ((heartbeat rt checks cfg now renewAt sweepAt worker taskCount tasks).run s).2 = s) :
    HeartbeatSound rt checks cfg now renewAt sweepAt worker taskCount tasks s := by
  unfold HeartbeatSound
  rcases hunswept with ⟨hworkers, hinflight⟩ | ⟨-, hsame⟩
  · refine ⟨fun _ => ?_, ?_, fun v hv hmem hgone => ?_⟩
    · rw [hworkers]
      exact Finmap.mem_insert.mpr (.inl rfl)
    · rw [hinflight]
      exact Finset.Subset.refl _
    · rw [hworkers, hinflight] at hgone
      rcases hgone with hgone | hgone
      · exact absurd (Finmap.mem_insert.mpr (.inr hmem)) hgone
      · exact absurd rfl hgone
  · rw [hsame]
    refine ⟨fun h => h, Finset.Subset.refl _, fun v hv hmem hgone => ?_⟩
    rcases hgone with hgone | hgone
    · exact absurd hmem hgone
    · exact absurd rfl hgone

/-- A heartbeat whose sweep removed some workers is sound when its own worker is
not among them and the others were old enough. -/
theorem heartbeatSound_of_swept
    (hreaches : ReachesSweep checks cfg sweepAt worker taskCount tasks duration s)
    (hswept : Swept rt cutoff removed (s.beat now worker)
      ((heartbeat rt checks cfg now renewAt sweepAt worker taskCount tasks).run s).2) :
    HeartbeatSound rt checks cfg now renewAt sweepAt worker taskCount tasks s ↔
      worker ∉ removed ∧ ∀ v, v ≠ worker → v ∈ s.workers → v ∈ removed →
        ∃ last, s.workers.lookup v = some last ∧
          (duration.nanos : Int) ≤ ((sweepAt : Int) - last) * 10 ^ 9 := by
  obtain ⟨hworker, -, hduration, -⟩ := hreaches
  obtain ⟨-, -, hworkers, hinflight⟩ := hswept
  unfold HeartbeatSound
  constructor
  · rintro ⟨hself, -, hothers⟩
    refine ⟨((hworkers worker).mp (hself hworker)).2, fun v hv hmem hremoved => ?_⟩
    obtain ⟨last, d, hlast, hd, hold⟩ :=
      hothers v hv hmem (.inl fun h => ((hworkers v).mp h).2 hremoved)
    rw [hduration] at hd
    cases hd
    exact ⟨last, hlast, hold⟩
  · rintro ⟨hself, hothers⟩
    refine ⟨fun _ => ?_, ?_, fun v hv hmem hgone => ?_⟩
    · exact (hworkers worker).mpr ⟨Finmap.mem_insert.mpr (.inl rfl), hself⟩
    · rw [hinflight, if_neg hself]
      exact Finset.Subset.refl _
    · have hremoved : v ∈ removed := by
        by_contra hkept
        rcases hgone with hgone | hgone
        · exact hgone ((hworkers v).mpr ⟨Finmap.mem_insert.mpr (.inr hmem), hkept⟩)
        · exact hgone (by rw [hinflight, if_neg hkept]; rfl)
      obtain ⟨last, hlast, hold⟩ := hothers v hv hmem hremoved
      exact ⟨last, duration, hlast, hduration, hold⟩

theorem lookup_beat_self :
    (s.beat now worker).workers.lookup worker = some now := by
  simp [Store.beat]

theorem lookup_beat_of_ne
    {v : String}
    (hv : v ≠ worker) :
    (s.beat now worker).workers.lookup v = s.workers.lookup v := by
  simp [Store.beat, hv]

theorem heartbeatSound_of_harmless
    (hreaches : ReachesSweep checks cfg sweepAt worker taskCount tasks duration s)
    (hcutoff : u64Sub checks sweepAt duration.asSecs = some cutoff)
    (hswept : Swept rt cutoff removed (s.beat now worker)
      ((heartbeat rt checks cfg now renewAt sweepAt worker taskCount tasks).run s).2)
    (hharmless : SweepHarmless now sweepAt worker duration s) :
    HeartbeatSound rt checks cfg now renewAt sweepAt worker taskCount tasks s := by
  obtain ⟨hsecs, hlate, hfraction⟩ := hharmless
  rw [u64Sub_of_le checks hsecs] at hcutoff
  cases hcutoff
  refine (heartbeatSound_of_swept hreaches hswept).mpr
    ⟨fun hremoved => ?_, fun v hv hmem hremoved => ?_⟩
  · obtain ⟨last, hlast, hle⟩ := hswept.expired worker hremoved
    rw [lookup_beat_self] at hlast
    cases hlast
    omega
  · obtain ⟨last, hlast, hle⟩ := hswept.expired v hremoved
    rw [lookup_beat_of_ne hv] at hlast
    refine ⟨last, hlast, (old_of_expired hsecs hle).mpr ?_⟩
    refine hfraction.imp_right fun hnobody heq => ?_
    exact hnobody v hv (heq ▸ hlast)

theorem sweepHarmless_of_sound
    (hclock : now ≤ sweepAt)
    (hfits : ∀ v, rt.Fits (rt.members (s.inflightJobs v)).length)
    (hreaches : ReachesSweep checks cfg sweepAt worker taskCount tasks duration s)
    (hcutoff : u64Sub checks sweepAt duration.asSecs = some cutoff)
    (hswept : Swept rt cutoff removed (s.beat now worker)
      ((heartbeat rt checks cfg now renewAt sweepAt worker taskCount tasks).run s).2)
    (hsound : HeartbeatSound rt checks cfg now renewAt sweepAt worker taskCount tasks s) :
    SweepHarmless now sweepAt worker duration s := by
  obtain ⟨hself, hothers⟩ := (heartbeatSound_of_swept hreaches hswept).mp hsound
  have hrecent : cutoff < now := by
    by_contra hle
    exact hself (hswept.complete hfits worker now lookup_beat_self (Nat.not_lt.mp hle))
  -- A wrapped cutoff would lie above the clock, and so above this heartbeat.
  have hsecs : duration.asSecs ≤ sweepAt := by
    by_contra hlt
    have hwrap := lt_u64Sub_of_lt duration.asSecs_lt (Nat.not_le.mp hlt) hcutoff
    omega
  rw [u64Sub_of_le checks hsecs] at hcutoff
  cases hcutoff
  refine ⟨hsecs, by omega, ?_⟩
  by_contra hboth
  rw [not_or, not_forall] at hboth
  obtain ⟨hfraction, v, hv⟩ := hboth
  rw [Classical.not_imp, not_not] at hv
  obtain ⟨hne, hlast⟩ := hv
  have hremoved : v ∈ removed :=
    hswept.complete hfits v _ (by rw [lookup_beat_of_ne hne]; exact hlast) (Nat.le_refl _)
  obtain ⟨last, hlast', hage⟩ := hothers v hne (Finmap.mem_of_lookup_eq_some hlast) hremoved
  rw [hlast] at hlast'
  cases hlast'
  rcases (old_of_expired hsecs (Nat.le_refl _)).mp hage with hzero | hne'
  · exact hfraction hzero
  · exact hne' rfl

end Sweeping

/-- **When a heartbeat is sound**: when its sweep is not reached or is harmless,
and only then if the tasks of every worker can be unpacked. -/
theorem heartbeatSound_iff
    (now renewAt sweepAt : Nat)
    (hclock : now ≤ sweepAt)
    (worker : String)
    (taskCount : Nat)
    (tasks : Option (List String))
    (s : Store) :
    ((∀ duration, ReachesSweep checks cfg sweepAt worker taskCount tasks duration s →
        SweepHarmless now sweepAt worker duration s) →
      HeartbeatSound rt checks cfg now renewAt sweepAt worker taskCount tasks s) ∧
    ((∀ v, rt.Fits (rt.members (s.inflightJobs v)).length) →
      HeartbeatSound rt checks cfg now renewAt sweepAt worker taskCount tasks s →
        ∀ duration, ReachesSweep checks cfg sweepAt worker taskCount tasks duration s →
          SweepHarmless now sweepAt worker duration s) := by
  rcases heartbeat_cases rt checks cfg now renewAt sweepAt worker taskCount tasks s with
    ⟨duration, cutoff, removed, hreaches, hcutoff, hswept⟩ | ⟨hnever, hunswept⟩
  · refine ⟨fun hharmless => ?_, fun hfits hsound d hd => ?_⟩
    · exact heartbeatSound_of_harmless hreaches hcutoff hswept (hharmless duration hreaches)
    · have hsame : d = duration :=
        Option.some.inj (hd.2.2.1.symm.trans hreaches.2.2.1)
      rw [hsame]
      exact sweepHarmless_of_sound hclock hfits hreaches hcutoff hswept hsound
  · exact ⟨fun _ => heartbeatSound_of_unswept hunswept,
      fun _ _ duration hreaches => absurd hreaches (hnever duration)⟩

theorem heartbeatSound_default :
    HeartbeatSound (.ascending none) true .default 400 400 400 "w" 0 none oneRegistered := by
  refine (heartbeatSound_iff (.ascending none) true .default 400 400 400 (Nat.le_refl _) "w" 0
    none oneRegistered).1 fun duration hreaches => ?_
  have hduration := hreaches.2.2.1
  rw [orphanedDuration_default] at hduration
  cases hduration
  exact ⟨by decide, by decide, .inl (by decide)⟩

/-- A threshold below one second. -/
def halfSecond : Config :=
  { Config.default with heartbeatInterval := ⟨5 * 10 ^ 8, by decide⟩, missedHeartbeats := 1 }

/-- With such a threshold a heartbeat removes its own worker. -/
theorem heartbeat_removes_itself :
    ¬HeartbeatSound (.ascending none) true halfSecond 400 400 400 "w" 0 none oneRegistered := by
  rintro ⟨hself, -, -⟩
  have hkept := hself (by decide +kernel)
  revert hkept
  decide +kernel

end Persist

end ApalisRedis
