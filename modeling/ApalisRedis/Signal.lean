import ApalisRedis.Bulk
import ApalisRedis.Leasing

/-!
# The availability signal

Pollers wait for a value in the signal list.  Scripts that append to the active
list set it, and a fetch that gets less than it asked for clears it.

**Results.**
* `signalled_exec`: every call keeps the signal set while tasks are active.
* `signal_not_lost`: so does every run.
-/

namespace ApalisRedis

open Lua Redis Script

/-- The signal list holds at most the one value, and holds it while tasks are active. -/
structure Store.Signalled (s : Store) : Prop where
  shape : s.signal = [] ∨ s.signal = ["1"]
  awake : s.activeJobs ≠ [] → s.signal ≠ []

/-- Fetches ask for at least one task, as `Config::batch_size` asserts. -/
def Call.AsksForTasks : Call → Prop
  | .fetchNext _ batchSize _ => 0 < batchSize
  | _ => True

/-- The signal is untouched, and no task became active. -/
def Store.Quieter (s t : Store) : Prop :=
  t.signal = s.signal ∧ (t.activeJobs ≠ [] → s.activeJobs ≠ [])

/-- The script succeeds, appends some tasks to the active list, leaves the signal
to its caller and reports `n` and the number of these tasks. -/
def Appends {β : Type} (count : β → Nat) (x : Script Store β) (n : Nat) (s : Store) : Prop :=
  ∃ b t ids, x.run s = (.ok b, t) ∧ count b = n + List.length ids ∧
    t.activeJobs = s.activeJobs ++ ids ∧ t.signal = s.signal

namespace Store

theorem Signalled.of_quieter
    {s t : Store}
    (h : s.Signalled)
    (hquieter : s.Quieter t) :
    t.Signalled := by
  obtain ⟨hsignal, hactive⟩ := hquieter
  refine ⟨?_, fun hne => ?_⟩
  · rw [hsignal]
    exact h.shape
  · rw [hsignal]
    exact h.awake (hactive hne)

theorem Quieter.refl
    (s : Store) :
    s.Quieter s :=
  ⟨rfl, id⟩

theorem Quieter.trans
    {s t u : Store}
    (hst : s.Quieter t)
    (htu : t.Quieter u) :
    s.Quieter u :=
  ⟨htu.1.trans hst.1, hst.2 ∘ htu.2⟩

theorem signalled_wake
    (s : Store) :
    s.wake.Signalled :=
  ⟨.inr rfl, fun _ h => by cases h⟩

end Store

section Signal

variable (rt : Runtime) (queue : String)

/-- A loop whose body appends, appends. -/
theorem Appends.foldlM
    {β γ : Type}
    {count : β → Nat}
    {f : β → γ → Script Store β}
    (xs : List γ)
    (hbody : ∀ x ∈ xs, ∀ b s, Appends count (f b x) (count b) s)
    (b : β)
    (s : Store) :
    Appends count (xs.foldlM f b) (count b) s := by
  induction xs generalizing b s with
  | nil => exact ⟨b, s, [], rfl, rfl, (List.append_nil _).symm, rfl⟩
  | cons x xs ih =>
      obtain ⟨b', t, ids, hrun, hcount, hactive, hsignal⟩ := hbody x List.mem_cons_self b s
      obtain ⟨c, u, ids', hrun', hcount', hactive', hsignal'⟩ :=
        ih (fun y hy => hbody y (List.mem_cons_of_mem _ hy)) b' t
      refine ⟨c, u, ids ++ ids', ?_, ?_, ?_, hsignal'.trans hsignal⟩
      · rw [List.foldlM_cons, run_bind_ok hrun, hrun']
      · rw [hcount', hcount, List.length_append, Nat.add_assoc]
      · rw [hactive', hactive, List.append_assoc]

/-- Setting the signal when something was appended restores the invariant. -/
theorem Appends.signalled
    {β : Type}
    {count : β → Nat}
    {x : Script Store β}
    {s : Store}
    (h : Appends count x 0 s)
    (hs : s.Signalled) :
    ∃ b t, x.run s = (.ok b, t) ∧ (if 0 < count b then t.wake else t).Signalled := by
  obtain ⟨b, t, ids, hrun, hcount, hactive, hsignal⟩ := h
  refine ⟨b, t, hrun, ?_⟩
  rw [Nat.zero_add] at hcount
  split
  · exact Store.signalled_wake t
  · next hnone =>
      obtain rfl : ids = [] := by
        rw [← List.length_eq_zero_iff]
        omega
      rw [List.append_nil] at hactive
      exact hs.of_quieter ⟨hsignal, fun hne => hactive ▸ hne⟩

/-- The end of the scripts that report how many tasks they appended. -/
theorem Appends.then_signal
    {x : Script Store Nat}
    {s : Store}
    (h : Appends id x 0 s)
    (hs : s.Signalled) :
    ((x >>= fun n => do
      if 0 < n then
        setSignal (Keys.signalList queue)
      pure n).run s).2.Signalled := by
  obtain ⟨n, t, hrun, ht⟩ := h.signalled hs
  rw [run_bind_ok hrun]
  change (if 0 < n then t.wake else t).Signalled at ht
  dsimp only
  split
  · next hpos =>
      rw [if_pos hpos] at ht
      rw [run_bind_ok (run_setSignal queue t)]
      exact ht
  · next hzero =>
      rw [if_neg hzero] at ht
      exact ht

theorem appends_pushTask
    (ttl : Nat)
    (emitEvents : Bool)
    (counts : Nat × Nat)
    (r : PushRecord)
    (s : Store) :
    Appends Prod.fst (pushTaskAt rt.unlimited queue ttl emitEvents counts r) counts.1 s := by
  have hrun := run_pushTaskAt rt.unlimited queue ttl emitEvents counts r s
  by_cases hnew : s.KeyFree r ∧ r.taskId ∉ s.jobData
  · rw [if_pos hnew, if_pos (rt.unlimited_fits _)] at hrun
    rcases Nat.eq_zero_or_pos r.scheduleTime with hzero | hpos
    · refine ⟨_, _, [r.taskId], hrun, ?_, ?_, rfl⟩
      · simp [hzero]
      · simp [Store.say, Store.submit, Store.claimKey, hzero]
    · refine ⟨_, _, [], hrun, ?_, ?_, rfl⟩
      · simp [hpos]
      · simp [Store.say, Store.submit, Store.claimKey, hpos]
  · rw [if_neg hnew] at hrun
    exact ⟨_, _, [], hrun, rfl, (List.append_nil _).symm, rfl⟩

theorem signalled_pushTasks
    (ttl : Nat)
    (emitEvents : Bool)
    (batch : List PushRecord)
    {s : Store}
    (hs : s.Signalled) :
    ((pushTasksScript rt.unlimited queue ttl emitEvents batch).run s).2.Signalled := by
  have hloop := Appends.foldlM batch
    (fun r _ counts s => appends_pushTask rt queue ttl emitEvents counts r s) (0, 0) s
  obtain ⟨counts, t, hrun, ht⟩ := hloop.signalled hs
  rw [run_pushTasks, hrun]
  exact ht

theorem appends_releaseTask
    (worker : String)
    (emitEvents : Bool)
    (reenqueued : Nat)
    (jobId : String)
    (s : Store) :
    Appends id (releaseTask (Keys.inflightSetFor queue worker) (Keys.jobMetaHash queue)
      (Keys.activeJobsList queue) emitEvents reenqueued jobId) reenqueued s := by
  have hrun := run_releaseTask queue worker emitEvents reenqueued jobId s
  by_cases hheld : jobId ∈ s.inflightJobs worker
  · rw [if_pos hheld] at hrun
    exact ⟨_, _, [jobId], hrun, rfl, rfl, rfl⟩
  · rw [if_neg hheld] at hrun
    exact ⟨_, _, [], hrun, rfl, (List.append_nil _).symm, rfl⟩

theorem appends_releaseAll
    (worker : String)
    (emitEvents : Bool)
    (s : Store) :
    Appends id (releaseAll rt.unlimited (Keys.inflightSetFor queue worker)
      (Keys.jobMetaHash queue) (Keys.activeJobsList queue) emitEvents) 0 s := by
  have hrun := run_releaseAll rt.unlimited queue worker emitEvents s
  rw [if_pos (rt.unlimited_fits _)] at hrun
  exact ⟨_, _, rt.unlimited.members (s.inflightJobs worker), hrun, (Nat.zero_add _).symm, rfl, rfl⟩

theorem signalled_releaseLeases
    (worker : String)
    (emitEvents : Bool)
    (jobIds : List String)
    {s : Store}
    (hs : s.Signalled) :
    ((releaseLeasesScript rt.unlimited queue worker emitEvents jobIds).run s).2.Signalled := by
  have hlisted : Appends id (jobIds.foldlM (releaseTask (Keys.inflightSetFor queue worker)
      (Keys.jobMetaHash queue) (Keys.activeJobsList queue) emitEvents) 0) 0 s :=
    Appends.foldlM jobIds
      (fun jobId _ n s => appends_releaseTask queue worker emitEvents n jobId s) 0 s
  unfold releaseLeasesScript releaseLeases
  dsimp only
  split
  · exact Appends.then_signal queue hlisted hs
  · exact Appends.then_signal queue (appends_releaseAll rt queue worker emitEvents s) hs

theorem signalled_reenqueueOrphaned
    (cutoff : Nat)
    (only : Option String)
    {s : Store}
    (hs : s.Signalled) :
    ((reenqueueOrphanedScript rt.unlimited queue cutoff only).run s).2.Signalled := by
  have hnd := nodup_expired cutoff only s
  rcases reenqueueOrphaned_cases rt.unlimited queue cutoff only s with
    ⟨-, hreached, hrun⟩ | ⟨hstuck, -⟩
  · rw [reenqueueOrphanedScript, hrun, hreached, recoverAll_eq rt.unlimited _ hnd]
    dsimp only
    split
    · exact Store.signalled_wake _
    · next hnone =>
        have hnil : (s.expired cutoff only).flatMap (s.held rt.unlimited) = [] := by
          rw [← List.length_eq_zero_iff]
          omega
        refine hs.of_quieter ⟨rfl, fun hne => ?_⟩
        dsimp only at hne
        rwa [hnil, List.append_nil] at hne
  · exact absurd (fun v _ => rt.unlimited_fits _) hstuck

theorem signalled_promoted
    (now : Nat)
    {s : Store}
    (hs : s.Signalled) :
    (s.promoted now).Signalled := by
  unfold Store.promoted
  split
  · exact hs
  · exact Store.signalled_wake _

/-- A fetch that gets less than it asked for leaves no active task. -/
theorem signalled_fetchNext
    (now : Nat)
    {batchSize : Nat}
    (hbatch : 0 < batchSize)
    (worker : String)
    {s : Store}
    (hs : s.Signalled) :
    ((fetchNextScript rt.unlimited queue now batchSize worker).run s).2.Signalled := by
  have hpromoted := signalled_promoted now hs
  rw [fetchNextScript]
  rcases fetchNext_cases rt.unlimited queue worker now batchSize s with
    ⟨-, message, hrun⟩ | ⟨-, hstuck, -⟩ | ⟨-, -, hrun⟩
  · rw [hrun]
    exact hs
  · exact absurd (rt.unlimited_fits _) hstuck
  · rw [hrun, front_eq_take hbatch]
    by_cases hshort : ((s.promoted now).activeJobs.take batchSize).length < batchSize
    · have hall : (s.promoted now).activeJobs.drop
          ((s.promoted now).activeJobs.take batchSize).length = [] := by
        rw [List.length_take] at hshort ⊢
        rw [List.drop_eq_nil_iff]
        omega
      exact ⟨.inl (if_pos (decide_eq_true hshort)), fun hne => absurd hall hne⟩
    · have hkept : Store.quiet ((s.promoted now).deliver worker
          ((s.promoted now).activeJobs.take batchSize)) (decide
            (((s.promoted now).activeJobs.take batchSize).length < batchSize)) =
          (s.promoted now).deliver worker ((s.promoted now).activeJobs.take batchSize) := by
        simp only [Store.quiet, hshort, decide_false]
        rfl
      rw [hkept]
      refine hpromoted.of_quieter ⟨rfl, fun hne hnil => hne ?_⟩
      change (s.promoted now).activeJobs.drop _ = []
      rw [hnil, List.drop_nil]

theorem quieter_lockAll
    (worker : String)
    (now : Nat)
    (emitEvents : Bool)
    (taskIds : List String)
    (s : Store) :
    s.Quieter (s.lockAll queue worker now emitEvents taskIds) := by
  induction taskIds generalizing s with
  | nil => exact .refl s
  | cons id ids ih =>
      have hfirst : s.Quieter ((s.lock worker now id).say emitEvents
          ("tasks:" ++ (queue ++ ":active") ++ ":lock") id) := by
        refine ⟨rfl, fun hne hnil => hne ?_⟩
        change s.activeJobs.erase id = []
        rw [hnil, List.erase_nil]
      exact hfirst.trans (ih _)

theorem quieter_acquireLeases
    (worker : String)
    (now : Nat)
    (emitEvents : Bool)
    (taskIds : List String)
    (s : Store) :
    s.Quieter ((acquireLeasesScript queue worker now emitEvents taskIds).run s).2 := by
  rw [run_acquireLeases]
  split
  · exact .refl s
  · split
    · exact quieter_lockAll queue worker now emitEvents taskIds s
    · exact .refl s

theorem quieter_handleResults
    (worker : String)
    (emitEvents : Bool)
    (batch : List AckRecord)
    (s : Store) :
    s.Quieter ((handleResultsScript queue worker emitEvents batch).run s).2 := by
  refine foldlM_keeps (I := s.Quieter) batch (fun r _ acked t ht => ?_) 0 s (.refl s)
  rw [run_ackTask]
  split
  · exact ht.trans ⟨rfl, id⟩
  · exact ht

theorem quieter_renewLeases
    (worker : String)
    (now : Nat)
    (emitEvents : Bool)
    (taskIds : List String)
    (s : Store) :
    s.Quieter ((renewLeasesScript queue worker now emitEvents taskIds).run s).2 := by
  by_cases hworker : worker ∈ s.workers
  · rw [renewLeases_eq queue now emitEvents taskIds hworker]
    split
    · exact .refl s
    · split <;> exact ⟨rfl, id⟩
  · have hrefused : (renewLeasesScript queue worker now emitEvents taskIds).run s =
        (.error "Cant renew leases: worker not registered", s) := by
      simp [renewLeasesScript, renewLeases, Finmap.lookup_eq_none, hworker]
    rw [hrefused]
    exact .refl s

/-- **Every call keeps the signal set while tasks are active.** -/
theorem signalled_exec
    (c : Call)
    (hc : c.AsksForTasks)
    {s : Store}
    (hs : s.Signalled) :
    ((c.exec rt.unlimited queue).run s).2.Signalled := by
  cases c with
  | pushTasks ttl emitEvents batch =>
      rw [Call.exec, run_map_snd]
      exact signalled_pushTasks rt queue ttl emitEvents batch hs
  | registerWorker now worker threshold backendName service =>
      rw [Call.exec, run_map_snd, registerWorkerScript, run_registerWorker]
      split
      · exact hs
      · exact hs.of_quieter ⟨rfl, id⟩
  | keepAlive now worker =>
      rw [Call.exec, run_map_snd, keepAliveScript, run_keepAlive]
      split
      · exact hs.of_quieter ⟨rfl, id⟩
      · exact hs
  | fetchNext now batchSize worker =>
      rw [Call.exec, run_map_snd]
      exact signalled_fetchNext rt queue now hc worker hs
  | acquireLeases worker now emitEvents taskIds =>
      exact hs.of_quieter (quieter_acquireLeases queue worker now emitEvents taskIds s)
  | renewLeases worker now emitEvents taskIds =>
      exact hs.of_quieter (quieter_renewLeases queue worker now emitEvents taskIds s)
  | handleResults worker emitEvents batch =>
      exact hs.of_quieter (quieter_handleResults queue worker emitEvents batch s)
  | releaseLeases worker emitEvents jobIds =>
      exact signalled_releaseLeases rt queue worker emitEvents jobIds hs
  | reenqueueOrphaned cutoff only => exact signalled_reenqueueOrphaned rt queue cutoff only hs
  | wait milliseconds => exact hs.of_quieter ⟨rfl, id⟩

theorem signalled_run
    (calls : List Call)
    (hcalls : ∀ c ∈ calls, c.AsksForTasks)
    {s : Store}
    (hs : s.Signalled) :
    (run rt.unlimited queue calls s).Signalled := by
  induction calls generalizing s with
  | nil => exact hs
  | cons c rest ih =>
      rw [List.forall_mem_cons] at hcalls
      exact ih hcalls.2 (signalled_exec rt queue c hcalls.1 hs)

/-- **The availability signal is never lost.** -/
theorem signal_not_lost
    (calls : List Call)
    (hcalls : ∀ c ∈ calls, c.AsksForTasks) :
    (run rt.unlimited queue calls Store.empty).Signalled :=
  signalled_run rt queue calls hcalls ⟨.inl rfl, fun h => absurd rfl h⟩

end Signal

/-- A fetch of one of two due tasks leaves the signal set for the other one. -/
theorem signal_kept_for_second :
    (run (Runtime.ascending none).unlimited Config.default.queue
      [registerW, .submit 0 true [plainPush "a" ∅, plainPush "b" ∅], .fetchNext 12 1 "w"]
      Store.empty).Signalled := by
  refine signal_not_lost (.ascending none) Config.default.queue _ ?_
  rw [List.forall_mem_cons, List.forall_mem_cons, List.forall_mem_singleton]
  exact ⟨trivial, trivial, Nat.one_pos⟩

end ApalisRedis
