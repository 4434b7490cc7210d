import ApalisRedis.Announcements
import ApalisRedis.Completion

/-!
# The messages about finished tasks

With `emit_events` on, the scripts publish on several channels of the queue.  Only
`handle_results.lua` publishes on those of the done and the dead set.

**Results.**
* `hushed_exec`: the other scripts leave these channels and these sets alone.
* `completions_published`: whoever listens to the two channels knows the two sets.
-/

namespace ApalisRedis

open Lua Redis Script Systems

/-- What was published on the channel, in order. -/
def Store.heard (s : Store) (channel : String) : List String :=
  (s.published.filter fun message => message.1 = channel).map Prod.snd

/-- The channel on which a task is said to have come to rest. -/
def Place.channel (queue : String) : Place → String
  | .done => "tasks:" ++ (queue ++ ":done")
  | _ => "tasks:" ++ (queue ++ ":dead")

/-- The channel of a final place names every task at that place once. -/
def Store.Logged (s : Store) (queue : String) : Prop :=
  ∀ p : Place, p.Final → (s.heard (p.channel queue)).Nodup ∧
    ∀ id, id ∈ s.heard (p.channel queue) ↔ s.At id p

/-- In between nothing was published on these channels. -/
def Store.Hushed (s t : Store) (queue : String) : Prop :=
  ∀ p : Place, t.heard (p.channel queue) = s.heard (p.channel queue)

theorem heard_say
    (s : Store)
    (channel message : String) :
    (s.say true channel message).heard channel = s.heard channel ++ [message] := by
  simp [Store.heard, Store.say]

theorem heard_say_of_ne
    {channel channel' : String}
    (hne : channel' ≠ channel)
    (s : Store)
    (emitEvents : Bool)
    (message : String) :
    (s.say emitEvents channel' message).heard channel = s.heard channel := by
  cases emitEvents <;> simp [Store.heard, Store.say, hne]

theorem heard_sayAll_of_ne
    {channel channel' : String}
    (hne : channel' ≠ channel)
    (s : Store)
    (emitEvents : Bool)
    (messages : List String) :
    (s.sayAll emitEvents channel' messages).heard channel = s.heard channel := by
  cases emitEvents <;> simp [Store.heard, Store.sayAll, List.filter_map, Function.comp_def, hne]

/-- A channel of the queue that ends in another way. -/
theorem channel_ne
    {queue ending : String}
    (hdone : ending ≠ ":done")
    (hdead : ending ≠ ":dead")
    (p : Place) :
    "tasks:" ++ (queue ++ ending) ≠ p.channel queue := by
  have hends : ∀ ending', ending ≠ ending' →
      "tasks:" ++ (queue ++ ending) ≠ "tasks:" ++ (queue ++ ending') := by
    intro ending' hne heq
    simp only [← String.toList_inj, String.toList_append, List.append_cancel_left_eq] at heq
    exact hne (String.toList_inj.mp heq)
  cases p with
  | done => exact hends _ hdone
  | _ => exact hends _ hdead

theorem available_ne
    (queue : String)
    (p : Place) :
    "tasks:" ++ (queue ++ ":active") ++ ":available" ≠ p.channel queue := by
  rw [String.append_assoc, String.append_assoc]
  exact channel_ne (by decide) (by decide) p

theorem lock_ne
    (queue : String)
    (p : Place) :
    "tasks:" ++ (queue ++ ":active") ++ ":lock" ≠ p.channel queue := by
  rw [String.append_assoc, String.append_assoc]
  exact channel_ne (by decide) (by decide) p

theorem retry_ne
    (queue : String)
    (p : Place) :
    "tasks:" ++ (queue ++ ":scheduled") ++ ":retry" ≠ p.channel queue := by
  rw [String.append_assoc, String.append_assoc]
  exact channel_ne (by decide) (by decide) p

theorem done_ne_dead
    (queue : String) :
    Place.done.channel queue ≠ Place.dead.channel queue := by
  simp [Place.channel, String.append_right_inj]

/-- The channel of an outcome is the channel of a final place when the task goes there. -/
theorem channel_eq_iff
    {queue : String}
    {p : Place}
    (hp : p.Final)
    (r : AckRecord) :
    r.channel queue = p.channel queue ↔ r.place = p := by
  unfold AckRecord.channel
  rcases Reflects.place_ack r with hplace | hplace | hplace <;> rw [hplace]
  · cases p with
    | done => exact iff_of_true rfl rfl
    | dead => exact iff_of_false (done_ne_dead queue) (by simp)
    | _ => exact hp.elim
  · exact iff_of_false (retry_ne queue p) (by rintro rfl; exact hp)
  · cases p with
    | done => exact iff_of_false (done_ne_dead queue).symm (by simp)
    | dead => exact iff_of_true rfl rfl
    | _ => exact hp.elim

/-- At a final place is what was there, and what is sent there. -/
theorem at_ack
    {p : Place}
    (hp : p.Final)
    (worker : String)
    (r : AckRecord)
    (s : Store)
    (id : String) :
    (s.ack worker r).At id p ↔ s.At id p ∨ r.place = p ∧ id = r.taskId := by
  cases p with
  | done =>
      change id ∈ ite _ _ _ ↔ id ∈ s.doneJobs ∨ _
      split <;> simp_all [or_comm]
  | dead =>
      change id ∈ ite _ _ _ ↔ id ∈ s.deadJobs ∨ _
      split <;> simp_all [or_comm]
  | _ => exact hp.elim

/-- **A held task is announced when it comes to rest, and was not before.** -/
theorem logged_ack
    {queue worker : String}
    {r : AckRecord}
    {s : Store}
    {b : Board}
    (h : Reflects s b)
    (hheld : r.taskId ∈ s.inflightJobs worker)
    (hlogged : s.Logged queue) :
    ((s.ack worker r).say true (r.channel queue) r.taskId).Logged queue := by
  intro p hp
  obtain ⟨hnd, hmem⟩ := hlogged p hp
  have hat : ∀ id, ((s.ack worker r).say true (r.channel queue) r.taskId).At id p ↔
      s.At id p ∨ r.place = p ∧ id = r.taskId := at_ack hp worker r s
  by_cases hplace : r.place = p
  · have hnew : r.taskId ∉ s.heard (p.channel queue) := by
      intro hold
      have hat := (h.place r.taskId p).mp ((hmem r.taskId).mp hold)
      have hwhere := hat.symm.trans ((h.place r.taskId (.inflight worker)).mp hheld)
      cases Option.some.inj hwhere
      exact hp
    have hheard : ((s.ack worker r).say true (r.channel queue) r.taskId).heard (p.channel queue) =
        s.heard (p.channel queue) ++ [r.taskId] := by
      rw [(channel_eq_iff hp r).mpr hplace]
      exact heard_say _ _ _
    rw [hheard]
    refine ⟨List.nodup_append.mpr ⟨hnd, List.nodup_singleton _, ?_⟩, fun id => ?_⟩
    · rintro id hid _ hlast rfl
      rw [List.mem_singleton.mp hlast] at hid
      exact hnew hid
    · rw [hat, List.mem_append, List.mem_singleton, hmem]
      simp [hplace]
  · have hne : r.channel queue ≠ p.channel queue := fun heq =>
      hplace ((channel_eq_iff hp r).mp heq)
    have hheard : ((s.ack worker r).say true (r.channel queue) r.taskId).heard (p.channel queue) =
        s.heard (p.channel queue) := heard_say_of_ne hne _ _ _
    rw [hheard]
    refine ⟨hnd, fun id => ?_⟩
    rw [hat, hmem]
    simp [hplace]

theorem logged_handleResults
    (rt : Runtime)
    (queue worker : String)
    (batch : List AckRecord)
    {s : Store}
    {b : Board}
    (h : Reflects s b)
    (hlogged : s.Logged queue) :
    (((Call.handleResults worker true batch).exec rt queue).run s).2.Logged queue := by
  refine (foldlM_keeps (I := fun t => (∃ b, Reflects t b) ∧ t.Logged queue) batch
    (fun r _ acked t ⟨⟨b, hb⟩, ht⟩ => ?_) 0 s ⟨⟨b, h⟩, hlogged⟩).2
  rw [run_ackTask]
  split
  · next hheld =>
      exact ⟨⟨_, (hb.ack hheld).congr rfl rfl rfl rfl rfl fun id hid => hid⟩,
        logged_ack hb hheld ht⟩
  · exact ⟨⟨b, hb⟩, ht⟩

section Others

variable (rt : Runtime) (queue : String)

theorem hushed_of_published
    {s t : Store}
    (hsame : t.published = s.published) :
    s.Hushed t queue := by
  intro p
  unfold Store.heard
  rw [hsame]

theorem hushed_pushTasks
    (ttl : Nat)
    (emitEvents : Bool)
    (batch : List PushRecord)
    (s : Store) :
    s.Hushed ((pushTasksScript rt queue ttl emitEvents batch).run s).2 queue := by
  have hloop := foldlM_keeps (I := fun t => s.Hushed t queue) batch
    (f := pushTaskAt rt queue ttl emitEvents) (fun r _ counts t ht p => by
      rw [run_pushTaskAt]
      split
      · split
        · exact (heard_say_of_ne (available_ne queue p) _ _ _).trans (ht p)
        · exact ht p
      · exact ht p) (0, 0) s fun _ => rfl
  rw [run_pushTasks]
  generalize (batch.foldlM (pushTaskAt rt queue ttl emitEvents) (0, 0)).run s = loop at hloop
  rcases loop with ⟨e | counts, t⟩
  · exact hloop
  · dsimp only
    split <;> exact hloop

theorem hushed_acquireLeases
    (worker : String)
    (now : Nat)
    (emitEvents : Bool)
    (taskIds : List String)
    (s : Store) :
    s.Hushed ((acquireLeasesScript queue worker now emitEvents taskIds).run s).2 queue := by
  have hlock : s.Hushed (s.lockAll queue worker now emitEvents taskIds) queue :=
    List.foldlRecOn (motive := fun t : Store => s.Hushed t queue) taskIds _ (fun _ => rfl)
      fun t ht id _ p => (heard_say_of_ne (lock_ne queue p) _ _ _).trans (ht p)
  rw [run_acquireLeases]
  split
  · exact fun _ => rfl
  · split
    · exact hlock
    · exact fun _ => rfl

theorem hushed_renewLeases
    (worker : String)
    (now : Nat)
    (emitEvents : Bool)
    (taskIds : List String)
    (s : Store) :
    s.Hushed ((renewLeasesScript queue worker now emitEvents taskIds).run s).2 queue := by
  by_cases hworker : worker ∈ s.workers
  · rw [renewLeases_eq queue now emitEvents taskIds hworker]
    split
    · exact fun _ => rfl
    · split <;> exact fun _ => rfl
  · have hnone : s.workers.lookup worker = none := Finmap.lookup_eq_none.mpr hworker
    exact hushed_of_published queue (by simp [renewLeasesScript, renewLeases, hnone])

/-- Waking the pollers publishes nothing. -/
theorem hushed_signal
    {x : Script Store Nat}
    {s : Store}
    (hx : s.Hushed (x.run s).2 queue) :
    s.Hushed ((x >>= fun n => do
      if 0 < n then
        setSignal (Keys.signalList queue)
      pure n).run s).2 queue := by
  rcases hrun : x.run s with ⟨e | n, t⟩
  · rw [run_bind_error hrun]
    rwa [hrun] at hx
  · rw [hrun] at hx
    rw [run_bind_ok hrun]
    dsimp only
    split
    · rw [run_bind_ok (run_setSignal queue t)]
      exact hx
    · exact hx

theorem hushed_releaseLeases
    (worker : String)
    (emitEvents : Bool)
    (jobIds : List String)
    (s : Store) :
    s.Hushed ((releaseLeasesScript rt queue worker emitEvents jobIds).run s).2 queue := by
  have hlisted := foldlM_keeps (I := fun t => s.Hushed t queue) jobIds
    (f := releaseTask (Keys.inflightSetFor queue worker) (Keys.jobMetaHash queue)
      (Keys.activeJobsList queue) emitEvents) (fun id _ n t ht p => by
        rw [run_releaseTask]
        split
        · exact (heard_say_of_ne (available_ne queue p) _ _ _).trans (ht p)
        · exact ht p) 0 s fun _ => rfl
  have hall : s.Hushed ((releaseAll rt (Keys.inflightSetFor queue worker) (Keys.jobMetaHash queue)
      (Keys.activeJobsList queue) emitEvents).run s).2 queue := by
    intro p
    rw [run_releaseAll]
    split
    · exact heard_sayAll_of_ne (available_ne queue p) _ _ _
    · rfl
  unfold releaseLeasesScript releaseLeases
  dsimp only
  split
  · exact hushed_signal queue hlisted
  · exact hushed_signal queue hall

theorem hushed_reenqueueOrphaned
    (cutoff : Nat)
    (only : Option String)
    (s : Store) :
    s.Hushed ((reenqueueOrphanedScript rt queue cutoff only).run s).2 queue := by
  have hrecover : ∀ workers, (s.recoverAll rt workers).published = s.published := fun workers =>
    List.foldlRecOn (motive := fun t : Store => t.published = s.published) workers _ rfl
      fun _ ht _ _ => ht
  refine hushed_of_published queue ?_
  rw [reenqueueOrphanedScript]
  rcases reenqueueOrphaned_cases rt queue cutoff only s with
    ⟨-, -, hrun⟩ | ⟨-, hrun⟩ <;> rw [hrun]
  · dsimp only
    split <;> exact hrecover _
  · exact hrecover _

/-- Only the recording of outcomes publishes on these channels. -/
theorem hushed_exec
    {c : Call}
    (hother : ∀ worker emitEvents batch, c ≠ .handleResults worker emitEvents batch)
    (s : Store) :
    s.Hushed ((c.exec rt queue).run s).2 queue := by
  cases c with
  | pushTasks ttl emitEvents batch =>
      rw [Call.exec, run_map_snd]
      exact hushed_pushTasks rt queue ttl emitEvents batch s
  | registerWorker now worker threshold backendName service =>
      rw [Call.exec, run_map_snd, registerWorkerScript, run_registerWorker]
      split <;> exact fun _ => rfl
  | keepAlive now worker =>
      rw [Call.exec, run_map_snd, keepAliveScript, run_keepAlive]
      split <;> exact fun _ => rfl
  | fetchNext now batchSize worker =>
      exact hushed_of_published queue (published_fetchNext rt queue now batchSize worker s)
  | acquireLeases worker now emitEvents taskIds =>
      exact hushed_acquireLeases queue worker now emitEvents taskIds s
  | renewLeases worker now emitEvents taskIds =>
      exact hushed_renewLeases queue worker now emitEvents taskIds s
  | handleResults worker emitEvents batch => exact absurd rfl (hother worker emitEvents batch)
  | releaseLeases worker emitEvents jobIds =>
      exact hushed_releaseLeases rt queue worker emitEvents jobIds s
  | reenqueueOrphaned cutoff only => exact hushed_reenqueueOrphaned rt queue cutoff only s
  | wait milliseconds => exact fun _ => rfl

/-- Only the recording of outcomes finishes tasks. -/
theorem Move.finals
    {may : Powers}
    (hack : ∀ r, ¬may.ack r)
    (hdiscard : ¬may.discard)
    {s t : Store}
    (hmove : Move rt may s t)
    {p : Place}
    (hp : p.Final)
    (id : String) :
    t.At id p ↔ s.At id p := by
  have hsame : t.doneJobs = s.doneJobs ∧ t.deadJobs = s.deadJobs := by
    cases hmove with
    | bookkeep hsame => exact ⟨hsame.doneJobs, hsame.deadJobs⟩
    | ack worker r hheld hmay => exact absurd hmay (hack r)
    | discard taskId hmay => exact absurd hmay hdiscard
    | _ => exact ⟨rfl, rfl⟩
  cases p with
  | done =>
      change id ∈ t.doneJobs ↔ id ∈ s.doneJobs
      rw [hsame.1]
  | dead =>
      change id ∈ t.deadJobs ↔ id ∈ s.deadJobs
      rw [hsame.2]
  | _ => exact hp.elim

theorem finals_exec
    {c : Call}
    (hother : ∀ worker emitEvents batch, c ≠ .handleResults worker emitEvents batch)
    {s : Store}
    {p : Place}
    (hp : p.Final)
    (id : String) :
    ((c.exec rt queue).run s).2.At id p ↔ s.At id p := by
  have hwithin : c.Within (unfinishing rt) := by
    cases c with
    | pushTasks ttl emitEvents batch => exact fun _ _ => trivial
    | handleResults worker emitEvents batch => exact absurd rfl (hother worker emitEvents batch)
    | _ => exact trivial
  have hstash : ∀ n, ¬rt.Fits n → (unfinishing rt).stash := fun n hn => ⟨n, hn⟩
  have hmoves := c.movesBy queue hstash hwithin s
  exact preserved (I := fun t => t.At id p ↔ s.At id p) (fun _ _ hmove ht =>
    (hmove.finals rt (fun _ hd => hd) (fun hd => hd) hp id).trans ht) hmoves Iff.rfl

/-- **A call that records outcomes, if it does, with events keeps the log.** -/
theorem logged_exec
    {c : Call}
    (hemits : ∀ worker emitEvents batch, c = .handleResults worker emitEvents batch →
      emitEvents = true)
    {s : Store}
    {b : Board}
    (h : Reflects s b)
    (hlogged : s.Logged queue) :
    ((c.exec rt queue).run s).2.Logged queue := by
  by_cases hrecords : ∃ worker emitEvents batch, c = .handleResults worker emitEvents batch
  · obtain ⟨worker, emitEvents, batch, rfl⟩ := hrecords
    obtain rfl := hemits worker emitEvents batch rfl
    exact logged_handleResults rt queue worker batch h hlogged
  · have hother : ∀ worker emitEvents batch, c ≠ .handleResults worker emitEvents batch :=
      fun worker emitEvents batch hc => hrecords ⟨worker, emitEvents, batch, hc⟩
    intro p hp
    obtain ⟨hnd, hmem⟩ := hlogged p hp
    rw [hushed_exec rt queue hother s p]
    exact ⟨hnd, fun id => (hmem id).trans (finals_exec rt queue hother hp id).symm⟩

theorem logged_run
    (calls : List Call)
    (hemits : ∀ c ∈ calls, ∀ worker emitEvents batch, c = .handleResults worker emitEvents batch →
      emitEvents = true)
    {s : Store}
    {b : Board}
    (h : Reflects s b)
    (hlogged : s.Logged queue) :
    (run rt queue calls s).Logged queue := by
  induction calls generalizing s b with
  | nil => exact hlogged
  | cons c calls ih =>
      rw [List.forall_mem_cons] at hemits
      obtain ⟨b', -, hb'⟩ := reflects_run rt queue [c] h
      exact ih hemits.2 hb' (logged_exec rt queue hemits.1 h hlogged)

end Others

/-- **Whoever listens to the two channels knows the two sets**: when the clients
emit events, then however they interleave and whatever is lost on the way, every
finished task has been announced once, on the channel of its place, and no other
task has. -/
theorem completions_published
    {core : Core}
    {Outcome : Type}
    (d : Deployment core Outcome)
    (hcareful : d.Careful)
    (hemits : ∀ cfg worker events, d.uses cfg (.handleEvents worker events) →
      cfg.emitEvents = true)
    {time : Nat}
    {c : Deployment.State}
    (hreached : d.Reaches ⟨⟨Store.empty, time⟩, []⟩ c) :
    (c.state.store.heard ("tasks:" ++ (Keys.doneJobsSet d.queue).name)).Nodup ∧
      (∀ id, id ∈ c.state.store.heard ("tasks:" ++ (Keys.doneJobsSet d.queue).name) ↔
        id ∈ c.state.store.doneJobs) ∧
      (c.state.store.heard ("tasks:" ++ (Keys.deadJobsSet d.queue).name)).Nodup ∧
      ∀ id, id ∈ c.state.store.heard ("tasks:" ++ (Keys.deadJobsSet d.queue).name) ↔
        id ∈ c.state.store.deadJobs := by
  obtain ⟨⟨calls, hissued, hrun⟩, -⟩ := Deployment.conforms_of_reaches hcareful hreached
  have hall : ∀ call ∈ calls, ∀ worker emitEvents batch,
      call = .handleResults worker emitEvents batch → emitEvents = true := by
    rintro call hcall worker emitEvents batch rfl
    obtain ⟨cfg, worker, events, -, huses, rfl⟩ := hissued _ hcall
    exact hemits cfg worker events huses
  have hlogged : c.state.store.Logged d.queue := by
    rw [hrun]
    exact logged_run d.rt d.queue calls hall reflects_empty fun p hp =>
      ⟨List.nodup_nil, fun id => by cases p <;> simp_all [Place.Final, Store.heard, Store.At,
        Store.empty]⟩
  obtain ⟨hdone, hdoneMem⟩ := hlogged .done trivial
  obtain ⟨hdead, hdeadMem⟩ := hlogged .dead trivial
  exact ⟨hdone, hdoneMem, hdead, hdeadMem⟩

theorem done_published :
    (doneWorld.store.heard ("tasks:" ++ (Keys.doneJobsSet "default").name)).Nodup ∧
      "a" ∈ doneWorld.store.heard ("tasks:" ++ (Keys.doneJobsSet "default").name) := by
  have hemits : ∀ cfg worker events, twoWorkers.uses cfg (.handleEvents worker events) →
      cfg.emitEvents = true := by
    rintro cfg worker events ⟨rfl, -⟩
    rfl
  have hdone : "a" ∈ doneWorld.store.doneJobs := by decide +kernel
  obtain ⟨hnd, hmem, -⟩ :=
    completions_published twoWorkers careful_twoWorkers hemits reaches_doneWorld
  exact ⟨hnd, (hmem "a").mpr hdone⟩

end ApalisRedis
