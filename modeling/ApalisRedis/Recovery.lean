import ApalisRedis.Bulk
import ApalisRedis.Clients
import ApalisRedis.Commutation
import ApalisRedis.Fencing
import ApalisRedis.Orphans

/-!
# The tasks of a dead worker come back

A worker that crashes stays in the registry with its last sign of life, and
keeps its tasks until somebody sweeps.  Every client sweeps in its heartbeat,
among whatever the other clients do.

**Results.**
* `lookup_workers_exec`: the calls after which a worker has been seen later.
* `heartbeat_recovers`: a heartbeat that succeeds after the worker's lease has
  run out leaves no task with it.
-/

namespace ApalisRedis

open Lua Redis Script Rust Systems

/-- The calls that score the worker with a new time. -/
def Call.SignOfLife (worker : String) : Call → Prop
  | .registerWorker _ w _ _ _ => w = worker
  | .keepAlive _ w => w = worker
  | _ => False

def Instruction.SilentAbout (worker : String) (i : Instruction) : Prop :=
  ∀ call ∈ i.call?, ¬call.SignOfLife worker

/-- The calls that may change who is registered. -/
def Call.Enrols : Call → Prop
  | .registerWorker _ _ _ _ _ => True
  | .keepAlive _ _ => True
  | .reenqueueOrphaned _ _ => True
  | _ => False

/-- Some workers have been removed, and do not hold a task any more. -/
structure Store.Removed (s t : Store) (removed : List String) : Prop where
  workers : t.workers = Hash.eraseAll s.workers removed
  inflightJobs : t.inflightJobs = fun v => if v ∈ removed then ∅ else s.inflightJobs v

section SignsOfLife

variable (rt : Runtime) (queue : String)

/-- A sweep removes expired workers, and all of them when it succeeds. -/
theorem removed_reenqueueOrphaned
    (cutoff : Nat)
    (only : Option String)
    (s : Store) :
    let outcome := (reenqueueOrphanedScript rt queue cutoff only).run s
    ∃ removed, s.Removed outcome.2 removed ∧ (∀ v ∈ removed, s.Expired cutoff only v) ∧
      ∀ n, outcome.1 = .ok n → ∀ v, s.Expired cutoff only v → v ∈ removed := by
  intro outcome
  have hnd : (s.reached rt cutoff only).Nodup :=
    (nodup_expired cutoff only s).sublist (List.takeWhile_sublist _)
  have hremoved : s.Removed (s.recoverAll rt (s.reached rt cutoff only))
      (s.reached rt cutoff only) := by
    rw [recoverAll_eq rt _ hnd]
    exact ⟨rfl, rfl⟩
  refine ⟨s.reached rt cutoff only, ?_, fun v hv =>
    mem_expired.mp ((List.takeWhile_prefix _).subset hv), ?_⟩
  · rcases reenqueueOrphaned_cases rt queue cutoff only s with ⟨-, -, hrun⟩ | ⟨-, hrun⟩
    · have hstate : outcome.2 = _ := congrArg Prod.snd hrun
      rw [hstate]
      dsimp only
      split
      · exact ⟨hremoved.workers, hremoved.inflightJobs⟩
      · exact hremoved
    · have hstate : outcome.2 = _ := congrArg Prod.snd hrun
      rw [hstate]
      exact hremoved
  · intro n hn v hv
    rcases reenqueueOrphaned_cases rt queue cutoff only s with ⟨-, hall, -⟩ | ⟨-, hrun⟩
    · rw [hall]
      exact mem_expired.mpr hv
    · have hreply : outcome.1 = _ := congrArg Prod.fst hrun
      rw [hreply] at hn
      cases hn

theorem workers_releaseLeases
    (w : String)
    (emitEvents : Bool)
    (jobIds : List String)
    (s : Store) :
    ((releaseLeasesScript rt queue w emitEvents jobIds).run s).2.workers = s.workers := by
  have hlisted := run_releaseListed w queue emitEvents jobIds 0 s
  have hall := run_releaseAll rt queue w emitEvents s
  unfold releaseLeasesScript releaseLeases
  split
  · rw [run_bind_ok hlisted, run_setSignal_pure]
    dsimp only
    split <;> rfl
  · split at hall
    · rw [run_bind_ok hall, run_setSignal_pure]
      dsimp only
      split <;> rfl
    · rw [run_bind_error hall]

/-- The other calls leave the registry alone. -/
theorem workers_exec
    (c : Call)
    (hc : ¬c.Enrols)
    (s : Store) :
    ((c.exec rt queue).run s).2.workers = s.workers := by
  cases c with
  | pushTasks ttl emitEvents batch =>
      have hloop : ((batch.foldlM (pushTaskAt rt queue ttl emitEvents)
          (0, 0)).run s).2.workers = s.workers := by
        refine foldlM_keeps (I := fun t : Store => t.workers = s.workers) batch
          (fun r _ counts t ht => ?_) (0, 0) s rfl
        rw [run_pushTaskAt]
        split
        · split <;> exact ht
        · exact ht
      rw [Call.exec, run_map_snd, run_pushTasks]
      generalize (batch.foldlM (pushTaskAt rt queue ttl emitEvents) (0, 0)).run s = outcome
        at hloop
      obtain ⟨reply | counts, t⟩ := outcome
      · exact hloop
      · dsimp only
        split <;> exact hloop
  | registerWorker now w threshold backendName service => exact absurd trivial hc
  | keepAlive now w => exact absurd trivial hc
  | fetchNext now batchSize w =>
      rw [Call.exec, run_map_snd, fetchNextScript]
      rcases fetchNext_cases rt queue w now batchSize s with
        ⟨-, message, hrun⟩ | ⟨-, -, hrun⟩ | ⟨-, -, hrun⟩
      · rw [hrun]
      · rw [hrun]
        exact workers_promoted now s
      · rw [hrun]
        exact workers_promoted now s
  | acquireLeases w now emitEvents taskIds =>
      have hlocked : (s.lockAll queue w now emitEvents taskIds).workers = s.workers :=
        List.foldlRecOn (motive := fun t : Store => t.workers = s.workers) taskIds _ rfl
          fun _ ht _ _ => ht
      rw [Call.exec, run_acquireLeases]
      split
      · rfl
      · split
        · exact hlocked
        · rfl
  | renewLeases w now emitEvents taskIds =>
      by_cases hworker : w ∈ s.workers
      · rw [Call.exec, renewLeases_eq queue now emitEvents taskIds hworker]
        split
        · rfl
        · split <;> rfl
      · obtain ⟨reply, hrun, -⟩ := renewLeases_of_evicted rt queue hworker now emitEvents taskIds
        rw [hrun]
  | handleResults w emitEvents batch =>
      rw [Call.exec, run_handleResults]
      exact List.foldlRecOn (motive := fun t : Store => t.workers = s.workers) _ _ rfl
        fun _ ht _ _ => ht
  | releaseLeases w emitEvents jobIds => exact workers_releaseLeases rt queue w emitEvents jobIds s
  | reenqueueOrphaned cutoff only => exact absurd trivial hc
  | wait milliseconds => rfl

/-- **Without a sign of life, a worker that is still registered was last seen when
it was before.** -/
theorem lookup_workers_exec
    (c : Call)
    {worker : String}
    (hc : ¬c.SignOfLife worker)
    {s : Store}
    {last : Nat}
    (hlast : ((c.exec rt queue).run s).2.workers.lookup worker = some last) :
    s.workers.lookup worker = some last := by
  by_cases henrols : c.Enrols
  · cases c with
    | registerWorker now w threshold backendName service =>
        rw [Call.exec, run_map_snd, registerWorkerScript, run_registerWorker] at hlast
        split at hlast
        · exact hlast
        · change (s.workers.insert w now).lookup worker = some last at hlast
          rwa [Finmap.lookup_insert_of_ne _ (Ne.symm hc)] at hlast
    | keepAlive now w =>
        rw [Call.exec, run_map_snd, keepAliveScript, run_keepAlive] at hlast
        split at hlast
        · change (s.workers.insert w now).lookup worker = some last at hlast
          rwa [Finmap.lookup_insert_of_ne _ (Ne.symm hc)] at hlast
        · exact hlast
    | reenqueueOrphaned cutoff only =>
        obtain ⟨removed, hremoved, -, -⟩ := removed_reenqueueOrphaned rt queue cutoff only s
        rw [Call.exec, hremoved.workers, Hash.lookup_eraseAll] at hlast
        split at hlast
        · cases hlast
        · exact hlast
    | _ => exact absurd henrols id
  · rwa [workers_exec rt queue c henrols] at hlast

end SignsOfLife

/-- What is known at a time about a worker that has been silent. -/
structure World.Silent (w : World) (worker : String) (since : Nat) (K : Nat → Prop) : Prop where
  late : since ≤ w.time
  registered : w.store.Registered
  seen : ∀ last, w.store.workers.lookup worker = some last → K last

namespace Deployment

variable {core : Core} {Outcome : Type} (d : Deployment core Outcome)

/-- Others run calls, and the worker gives no sign of life. -/
def Without (worker : String) (w w' : World) : Prop :=
  w.time ≤ w'.time ∧ ∃ calls : List Call, (∀ c ∈ calls, ¬c.SignOfLife worker) ∧
    w'.store = run d.rt d.queue calls w.store

theorem without_refl
    (worker : String)
    (w : World) :
    d.Without worker w w :=
  ⟨Nat.le_refl _, [], by simp, rfl⟩

theorem without_trans
    (worker : String)
    (w w' w'' : World)
    (h : d.Without worker w w')
    (h' : d.Without worker w' w'') :
    d.Without worker w w'' := by
  obtain ⟨htime, calls, hcalls, hstore⟩ := h
  obtain ⟨htime', calls', hcalls', hstore'⟩ := h'
  refine ⟨htime.trans htime', calls ++ calls', fun c hc => ?_, ?_⟩
  · exact (List.mem_append.mp hc).elim (hcalls c) (hcalls' c)
  · rw [hstore', hstore, run_append]

variable {d} {worker : String} {since : Nat} {K : Nat → Prop}

theorem silent_of_without
    {w w' : World}
    (h : d.Without worker w w')
    (hsilent : w.Silent worker since K) :
    w'.Silent worker since K := by
  obtain ⟨htime, calls, hcalls, hstore⟩ := h
  have hmoves := moves_persistence d.rt d.queue calls w.store
  rw [← hstore] at hmoves
  refine ⟨hsilent.late.trans htime, preserved (fun _ _ hmove => hmove.registered) hmoves
    hsilent.registered, ?_⟩
  rw [hstore]
  exact List.foldlRecOn (motive := fun s : Store =>
    ∀ last, s.workers.lookup worker = some last → K last) calls _ hsilent.seen
    fun s hs c hc last hlast => hs last (lookup_workers_exec d.rt d.queue c (hcalls c hc) hlast)

variable (d worker since K)

/-- The operation keeps what is known about the worker. -/
def Ignores {α : Type} (x : Async α) : Prop :=
  ∀ w, w.Silent worker since K → Async.Yields d.Answers (d.Without worker) (fun _ _ => True)
    (fun _ w' => w'.Silent worker since K) x w

variable {d worker since K} {α β : Type}

theorem ignores_pure
    (a : α) :
    d.Ignores worker since K (pure a) :=
  fun _ hsilent => Async.yields_pure fun _ ht => silent_of_without ht hsilent

theorem ignores_fallible
    (x : Except String α) :
    d.Ignores worker since K (Async.fallible x) :=
  fun _ hsilent => Async.yields_fallible fun _ _ _ ht => silent_of_without ht hsilent

theorem ignores_timestamp :
    d.Ignores worker since K Async.timestamp :=
  fun _ hsilent => yields_timestamp_of_stable (I := fun w => w.Silent worker since K)
    (fun _ => trivial) (fun _ _ => silent_of_without) hsilent

theorem ignores_evalsha
    {c : Call}
    (hc : ¬c.SignOfLife worker) :
    d.Ignores worker since K (Async.evalsha c) := by
  refine fun _ hsilent => Async.yields_evalsha (fun _ _ => trivial) fun t n u u' ht hanswer hu => ?_
  obtain ⟨hrun, htime⟩ := executed_of_transmits hanswer
  have hcall : d.Without worker t u :=
    ⟨htime.ge, [c], by simpa using hc, (congrArg Prod.snd hrun).symm⟩
  exact silent_of_without hu (silent_of_without hcall (silent_of_without ht hsilent))

theorem Ignores.bind
    {x : Async α}
    {f : α → Async β}
    (hx : d.Ignores worker since K x)
    (hf : ∀ a, d.Ignores worker since K (f a)) :
    d.Ignores worker since K (x >>= f) :=
  fun w hsilent => (hx w hsilent).bind (d.without_refl worker) fun a w' hsilent' =>
    hf a w' hsilent'

variable {cfg : Config} {name : String} {taskCount : Nat} {tasks : Option (List String)}

theorem ignores_keepAlive
    (hother : name ≠ worker) :
    d.Ignores worker since K (Async.keepAlive name) :=
  ignores_timestamp.bind fun _ =>
    (ignores_evalsha (by exact hother)).bind fun _ => ignores_pure ()

theorem ignores_renewLeases :
    d.Ignores worker since K (Async.renewLeases cfg name taskCount tasks) := by
  unfold Async.renewLeases
  split
  · exact ignores_pure 0
  · refine ignores_timestamp.bind fun now => ?_
    cases tasks with
    | none => exact ignores_fallible _
    | some taskIds => exact ignores_evalsha (by exact id)

/-- **The sweep of a heartbeat removes a worker whose lease has run out.** -/
theorem yields_sweep
    {last : Nat}
    {duration : Duration}
    (hduration : cfg.orphanedDuration = some duration)
    (hexpired : last + duration.asSecs + d.skew ≤ since)
    {w : World}
    (hsilent : w.Silent worker since (· ≤ last)) :
    Async.Yields d.Answers (d.Without worker) (fun _ _ => True)
      (fun _ w' => w'.Silent worker since fun _ => False)
      (Async.reenqueueOrphaned d.overflowChecks cfg (.allExcept name)) w := by
  have hread : Async.Yields d.Answers (d.Without worker) (fun _ _ => True)
      (fun now w' => w'.Silent worker since (· ≤ last) ∧ since ≤ now + d.skew)
      Async.timestamp w := by
    refine Async.yields_timestamp (fun _ _ => trivial) fun t now u u' ht hanswer hu => ?_
    obtain ⟨rfl, hlate, -⟩ := hanswer
    have hsilent' := silent_of_without ht hsilent
    exact ⟨silent_of_without hu hsilent', hsilent'.late.trans hlate⟩
  refine hread.bind (d.without_refl worker) fun now w' ⟨hsilent', hnow⟩ => ?_
  have hcutoff : u64Sub d.overflowChecks now duration.asSecs = some (now - duration.asSecs) :=
    u64Sub_of_le _ (by omega)
  have hprogram : (do
      let deadFor ← Async.orphanedAfter cfg
      let cutoff ← Async.expiredBefore d.overflowChecks now deadFor.asSecs
      Async.evalsha (.reenqueueOrphaned cutoff none)) =
        Async.evalsha (.reenqueueOrphaned (now - duration.asSecs) none) := by
    unfold Async.orphanedAfter Async.expiredBefore
    simp only [hduration, pure_bind, hcutoff]
  dsimp only
  rw [hprogram]
  refine Async.yields_evalsha (fun _ _ => trivial) fun t n u u' ht hanswer hu => ?_
  obtain ⟨hrun, htime⟩ := executed_of_transmits hanswer
  have hbefore := silent_of_without ht hsilent'
  have hafter : u.Silent worker since (· ≤ last) :=
    silent_of_without ⟨htime.ge, [.reenqueueOrphaned (now - duration.asSecs) none],
      by simp [Call.SignOfLife], (congrArg Prod.snd hrun).symm⟩ hbefore
  refine silent_of_without hu ⟨hafter.late, hafter.registered, fun l hl => ?_⟩
  obtain ⟨removed, hremoved, -, hall⟩ := removed_reenqueueOrphaned d.rt d.queue
    (now - duration.asSecs) none t.store
  have hrun' : (reenqueueOrphanedScript d.rt d.queue (now - duration.asSecs) none).run t.store =
      (.ok n, u.store) := hrun
  rw [hrun'] at hremoved hall
  rw [hremoved.workers, Hash.lookup_eraseAll] at hl
  split at hl
  · cases hl
  · next hstays =>
      have hle := hbefore.seen l hl
      exact hstays (hall n rfl worker ⟨⟨l, hl, by omega⟩, by simp⟩)

/-- A heartbeat that succeeds has swept. -/
theorem yields_heartbeat
    (hother : name ≠ worker)
    {last : Nat}
    {duration : Duration}
    (hduration : cfg.orphanedDuration = some duration)
    (hexpired : last + duration.asSecs + d.skew ≤ since)
    {w : World}
    (hsilent : w.Silent worker since (· ≤ last)) :
    Async.Yields d.Answers (d.Without worker) (fun _ _ => True)
      (fun _ w' => w'.Silent worker since fun _ => False)
      (Async.heartbeat d.overflowChecks cfg name taskCount tasks) w := by
  have hlast : ∀ w : World, w.Silent worker since (· ≤ last) →
      Async.Yields d.Answers (d.Without worker) (fun _ _ => True)
        (fun _ w' => w'.Silent worker since fun _ => False) (do
          let _ ← Async.reenqueueOrphaned d.overflowChecks cfg (.allExcept name)) w :=
    fun w hw => (yields_sweep hduration hexpired hw).bind (d.without_refl worker)
      fun _ w' hw' => ignores_pure () w' hw'
  unfold Async.heartbeat
  refine (ignores_keepAlive hother w hsilent).bind (d.without_refl worker) fun _ w' hw' => ?_
  cases cfg.lockTasks with
  | true =>
      exact (ignores_renewLeases w' hw').bind (d.without_refl worker) fun _ w'' hw'' =>
        hlast w'' hw''
  | false => exact hlast w' hw'

variable {epoch : Nat} {sweeps : Nat → Option String → World → Prop}

/-- A step of clients that are silent about the worker. -/
theorem Conforms.without
    (hcareful : d.Careful)
    (hsweeps : d.SweepsWithin epoch sweeps)
    {l : Option Instruction}
    {c c' : State}
    (h : d.Conforms epoch sweeps c)
    (hstep : d.Step l c c')
    (hsilent : ∀ i ∈ l, i.SilentAbout worker) :
    d.Without worker c.state c'.state := by
  have hadmitted := (h.step hcareful hsweeps hstep).2.1
  cases hstep with
  | start hp => exact d.without_refl worker _
  | @perform w w' ps qs i next reply hanswer =>
      rcases d.effect_of_answers sweeps hanswer (hadmitted i rfl) with rfl | ⟨call, hcall, rfl⟩
      · exact d.without_refl worker _
      · exact ⟨Nat.le_refl _, [call], by simpa using hsilent i rfl call hcall, rfl⟩
  | drop => exact d.without_refl worker _
  | elapse helapses =>
      cases helapses with
      | pass seconds milliseconds =>
          exact ⟨Nat.le_add_right _ _, [.wait milliseconds], by simp [Call.SignOfLife], rfl⟩

end Deployment

/-- A task that is somewhere stays somewhere. -/
theorem exists_place
    (rt : Runtime)
    (queue : String)
    (calls later : List Call)
    {id : String}
    {q : Place}
    (hid : (run rt queue calls Store.empty).At id q) :
    ∃ p, ∀ q, (run rt queue later (run rt queue calls Store.empty)).At id q ↔ q = p := by
  obtain ⟨b, -, hb⟩ := reflects_run rt queue calls reflects_empty
  obtain ⟨b', hsteps, hb'⟩ := reflects_run rt queue later hb
  have hknown : b' id ≠ none := by
    refine preserved (I := fun b : Board => b id ≠ none) (fun _ _ hstep h => (hstep id).known h)
      hsteps ?_
    rw [(hb.place id q).mp hid]
    simp
  obtain ⟨p, hp⟩ := Option.ne_none_iff_exists'.mp hknown
  refine ⟨p, fun q => ?_⟩
  rw [hb'.place, hp, Option.some.injEq, eq_comm]

/-- **A heartbeat that succeeds after a worker's lease has run out brings its tasks
back**, whatever the others do meanwhile: each of them is at one other place. -/
theorem heartbeat_recovers
    {core : Core}
    {Outcome : Type}
    (d : Deployment core Outcome)
    (hcareful : d.Careful)
    {time : Nat}
    {c c' : Deployment.State}
    (hreached : d.Reaches ⟨⟨Store.empty, time⟩, []⟩ c)
    {cfg : Config}
    {name worker : String}
    {taskCount : Nat}
    {tasks : Option (List String)}
    (hqueue : cfg.queue = d.queue)
    (huses : d.uses cfg (.heartbeat name taskCount tasks))
    (hother : name ≠ worker)
    {last : Nat}
    {duration : Duration}
    (hduration : cfg.orphanedDuration = some duration)
    (hlast : c.state.store.workers.lookup worker = some last)
    (hexpired : last + duration.asSecs + d.skew ≤ c.state.time)
    (hruns : Relation.ReflTransGen (d.Watch (Instruction.SilentAbout worker))
      ((d.program cfg (.heartbeat name taskCount tasks)).run, c) (.done (.ok ()), c')) :
    worker ∉ c'.state.store.workers ∧ c'.state.store.inflightJobs worker = ∅ ∧
      ∀ id ∈ c.state.store.inflightJobs worker,
        ∃ p, p ≠ .inflight worker ∧ ∀ q, c'.state.store.At id q ↔ q = p := by
  obtain ⟨⟨calls, -, hcalls⟩, epoch, hconforms⟩ := Deployment.conforms_of_reaches hcareful hreached
  have hsweeps : d.SweepsWithin epoch fun _ _ _ => True :=
    fun _ _ _ _ _ _ _ _ _ _ _ _ => trivial
  have hregistered : c.state.store.Registered := by
    rw [hcalls, ← runOps_map_call]
    exact registered_runOps d.rt d.queue _
  have hsilent : c.state.Silent worker c.state.time (· ≤ last) := by
    refine ⟨Nat.le_refl _, hregistered, fun l hl => ?_⟩
    rw [hlast] at hl
    exact (Option.some.inj hl).ge
  obtain ⟨hdone, hlater⟩ := hconforms.watched hcareful hsweeps id (d.without_refl worker)
    (d.without_trans worker) (fun l c c' hc => hc.without hcareful hsweeps)
    ⟨cfg, _, hqueue, huses, id_map _⟩
    (Deployment.yields_heartbeat hother hduration hexpired hsilent) hruns
  have hgone := hdone () rfl
  have hout : worker ∉ c'.state.store.workers := by
    rw [← Finmap.lookup_eq_none]
    exact Option.eq_none_iff_forall_not_mem.mpr fun l hl => hgone.seen l hl
  have hempty : c'.state.store.inflightJobs worker = ∅ := by
    by_contra hheld
    exact hout (hgone.registered worker hheld)
  refine ⟨hout, hempty, fun id hid => ?_⟩
  obtain ⟨⟨later, -, hmore⟩, -⟩ := Deployment.exists_run hcareful ⟨epoch, hconforms⟩ hlater
  rw [hcalls] at hid hmore
  obtain ⟨p, hp⟩ := exists_place d.rt d.queue calls later (q := .inflight worker) hid
  rw [← hmore] at hp
  refine ⟨p, ?_, hp⟩
  rintro rfl
  have hheld : id ∈ c'.state.store.inflightJobs worker := (hp _).mpr rfl
  rw [hempty] at hheld
  exact absurd hheld (Finset.notMem_empty id)

/-- A second worker has registered, and the first one has been silent for five minutes. -/
def deadWorld : World :=
  let both := twoWorkers.after .default (.register "v" "") fetchedWorld
  { both with time := both.time + 300 }

/-- The second worker's heartbeat. -/
def heartbeatOutcome : Except String Unit × World :=
  (twoWorkers.program .default (.heartbeat "v" 0 none)).run.alone twoWorkers.answer deadWorld

theorem reaches_deadWorld :
    twoWorkers.Reaches ⟨⟨Store.empty, 100⟩, []⟩ ⟨deadWorld, []⟩ := by
  have hboth : twoWorkers.Reaches ⟨fetchedWorld, []⟩
      ⟨twoWorkers.after .default (.register "v" "") fetchedWorld, []⟩ :=
    Deployment.reaches_after twoWorkers rfl ⟨rfl, by trivial, by simp⟩ _
  exact ((reaches_pushedWorld.trans reaches_fetchedWorld).trans hboth).tail
    ⟨none, .elapse (.pass _ 300 0)⟩

theorem recovered_by_heartbeat :
    "w" ∉ heartbeatOutcome.2.store.workers ∧ heartbeatOutcome.2.store.inflightJobs "w" = ∅ ∧
      ∀ id ∈ deadWorld.store.inflightJobs "w",
        ∃ p, p ≠ .inflight "w" ∧ ∀ q, heartbeatOutcome.2.store.At id q ↔ q = p := by
  have hruns : Relation.ReflTransGen (twoWorkers.Watch (Instruction.SilentAbout "w"))
      ((twoWorkers.program .default (.heartbeat "v" 0 none)).run, ⟨deadWorld, []⟩)
      (.done heartbeatOutcome.1, ⟨heartbeatOutcome.2, []⟩) :=
    Pool.watch_alone twoWorkers.answers_answer _ _ [] deadWorld
  have hok : heartbeatOutcome.1 = .ok () := by decide +kernel
  have hlast : deadWorld.store.workers.lookup "w" = some 100 := by decide +kernel
  have htime : 100 + 300 + 0 ≤ deadWorld.time := by decide +kernel
  rw [hok] at hruns
  exact heartbeat_recovers twoWorkers careful_twoWorkers reaches_deadWorld rfl
    ⟨rfl, by trivial, by simp⟩ (by decide) orphanedDuration_default hlast htime hruns

end ApalisRedis
