import ApalisRedis.Enqueue

/-!
# Messages about waiting tasks

A factory worker polls its queue when the queue's `available` channel carries a
message.  `batch_push.lua` and `release_leases.lua` publish there, next to each
task that they append to the active list; the promotion of `fetch_next.lua` and
`reenqueue_orphaned.lua` have no event flag, and append in silence.

**Results.**
* `announces_iff`: when a call announces every task that it leaves waiting.
-/

namespace ApalisRedis

open Lua Redis Script

section Announcements

variable (rt : Runtime) (queue : String)

/-- The calls that append to the active list, with events on. -/
def Call.Enqueues : Call → Prop
  | .pushTasks _ emitEvents _ => emitEvents = true
  | .fetchNext _ _ _ => True
  | .releaseLeases _ emitEvents _ => emitEvents = true
  | .reenqueueOrphaned _ _ => True
  | _ => False

/-- How many tasks the call took off the front of the active list: a fetch takes
those that it replies with. -/
def Call.taken (c : Call) (s : Store) : Nat :=
  match c, ((c.exec rt queue).run s).1 with
  | .fetchNext _ _ _, .ok n => n
  | _, _ => 0

/-- What the call appended to the active list and left there. -/
def Call.leftWaiting (c : Call) (s : Store) : List String :=
  ((c.exec rt queue).run s).2.activeJobs.drop (s.activeJobs.length - c.taken rt queue s)

/-- The messages of the call on the queue's `available` channel. -/
def Call.announced (c : Call) (s : Store) : List String :=
  ((((c.exec rt queue).run s).2.published.drop s.published.length).filter
    fun message => message.1 = availableChannel queue).map Prod.snd

/-- One message for each task that the call appended and left, and no other. -/
def Call.Announces (c : Call) (s : Store) : Prop :=
  (c.announced rt queue s).Perm (c.leftWaiting rt queue s)

/-- No task comes to wait in silence: a fetch with due tasks takes the whole
list, and the workers that are recovered hold nothing. -/
def Call.AppendsNothing : Call → Store → Prop
  | .fetchNext now batchSize worker, s =>
      let waiting := s.activeJobs.length + (s.due now).length
      worker ∈ s.workers ∧ rt.Fits (s.due now).length → s.due now = [] ∨
        (batchSize = 0 ∨ waiting ≤ batchSize) ∧ rt.Fits waiting
  | .reenqueueOrphaned cutoff only, s =>
      ∀ v ∈ s.reached rt cutoff only, s.inflightJobs v = ∅
  | _, _ => True

/-- Tasks were appended to the active list, and each was announced. -/
def Store.Announced (s t : Store) (queue : String) : Prop :=
  ∃ ids : List String, t.activeJobs = s.activeJobs ++ ids ∧
    t.published = s.published ++ ids.map (availableChannel queue, ·)

variable {queue}

theorem Store.Announced.refl
    (s : Store) :
    s.Announced s queue :=
  ⟨[], by simp, by simp⟩

theorem Store.Announced.trans
    {s t u : Store}
    (hst : s.Announced t queue)
    (htu : t.Announced u queue) :
    s.Announced u queue := by
  obtain ⟨ids, hactive, hpublished⟩ := hst
  obtain ⟨ids', hactive', hpublished'⟩ := htu
  refine ⟨ids ++ ids', ?_, ?_⟩
  · rw [hactive', hactive, List.append_assoc]
  · rw [hpublished', hpublished, List.map_append, List.append_assoc]

/-- Waking the pollers announces nothing and appends nothing. -/
theorem Store.Announced.then_signal
    {s : Store}
    {x : Script Store Nat}
    (hx : s.Announced (x.run s).2 queue) :
    s.Announced ((x >>= fun n => do
      if 0 < n then
        setSignal (Keys.signalList queue)
      pure n).run s).2 queue := by
  rcases hrun : x.run s with ⟨e | n, t⟩
  · rw [run_bind_error hrun]
    rwa [hrun] at hx
  · rw [hrun] at hx
    rw [run_bind_ok hrun]
    dsimp only
    split
    · rw [run_bind_ok (run_setSignal queue t)]
      exact hx
    · exact hx

variable (queue)

theorem announced_pushTask
    (ttl : Nat)
    (counts : Nat × Nat)
    (r : PushRecord)
    (s : Store) :
    s.Announced ((pushTaskAt rt queue ttl true counts r).run s).2 queue := by
  rw [run_pushTaskAt]
  split
  · split
    · rcases Nat.eq_zero_or_pos r.scheduleTime with hzero | hpos
      · refine ⟨[r.taskId], ?_, ?_⟩
        · simp [Store.say, Store.submit, Store.claimKey, hzero]
        · simp [Store.say, Store.submit, Store.claimKey, hzero, availableChannel]
      · refine ⟨[], ?_, ?_⟩
        · simp [Store.say, Store.submit, Store.claimKey, hpos]
        · simp [Store.say, Store.submit, Store.claimKey, hpos.ne']
    · exact ⟨[], by simp [Store.stash, Store.claimKey], by simp [Store.stash, Store.claimKey]⟩
  · exact ⟨[], by simp [Store.claimKey], by simp [Store.claimKey]⟩

theorem announced_pushTasks
    (ttl : Nat)
    (batch : List PushRecord)
    (s : Store) :
    s.Announced ((pushTasksScript rt queue ttl true batch).run s).2 queue := by
  have hloop := foldlM_keeps (I := fun t => s.Announced t queue) batch
    (fun r _ counts t ht => ht.trans (announced_pushTask rt queue ttl counts r t)) (0, 0) s
    (.refl s)
  rw [run_pushTasks]
  generalize (batch.foldlM (pushTaskAt rt queue ttl true) (0, 0)).run s = loop at hloop
  rcases loop with ⟨e | counts, t⟩
  · exact hloop
  · dsimp only
    split <;> exact hloop

theorem announced_releaseTask
    (worker : String)
    (reenqueued : Nat)
    (jobId : String)
    (s : Store) :
    s.Announced ((releaseTask (Keys.inflightSetFor queue worker) (Keys.jobMetaHash queue)
      (Keys.activeJobsList queue) true reenqueued jobId).run s).2 queue := by
  rw [run_releaseTask]
  split
  · exact ⟨[jobId], rfl, rfl⟩
  · exact .refl s

theorem announced_releaseAll
    (worker : String)
    (s : Store) :
    s.Announced ((releaseAll rt (Keys.inflightSetFor queue worker) (Keys.jobMetaHash queue)
      (Keys.activeJobsList queue) true).run s).2 queue := by
  rw [run_releaseAll]
  split
  · exact ⟨s.held rt worker, rfl, rfl⟩
  · exact .refl s

theorem announced_releaseLeases
    (worker : String)
    (jobIds : List String)
    (s : Store) :
    s.Announced ((releaseLeasesScript rt queue worker true jobIds).run s).2 queue := by
  have hlisted := foldlM_keeps (I := fun t => s.Announced t queue) jobIds
    (fun id _ n t ht => ht.trans (announced_releaseTask queue worker n id t)) 0 s (.refl s)
  unfold releaseLeasesScript releaseLeases
  dsimp only
  split
  · exact .then_signal hlisted
  · exact .then_signal (announced_releaseAll rt queue worker s)

/-- Messages of the queue's own channel are all kept by the filter. -/
theorem announced_eq
    (ids : List String) :
    (((ids.map (availableChannel queue, ·)).filter
      fun message => message.1 = availableChannel queue).map Prod.snd) = ids := by
  rw [List.filter_eq_self.mpr (by simp), List.map_map]
  exact List.map_id ids

/-- A call that announces what it appends, and takes nothing. -/
theorem announces_of_announced
    (c : Call)
    (s : Store)
    (htaken : c.taken rt queue s = 0)
    (h : s.Announced ((c.exec rt queue).run s).2 queue) :
    c.Announces rt queue s := by
  obtain ⟨ids, hactive, hpublished⟩ := h
  unfold Call.Announces Call.announced Call.leftWaiting
  rw [htaken, hactive, hpublished, Nat.sub_zero, List.drop_left, List.drop_left, announced_eq]

/-- A call that publishes nothing announces what it left exactly when that is nothing. -/
theorem announces_iff_of_silent
    (c : Call)
    (s : Store)
    (hsilent : ((c.exec rt queue).run s).2.published = s.published) :
    c.Announces rt queue s ↔ c.leftWaiting rt queue s = [] := by
  unfold Call.Announces Call.announced
  rw [hsilent, List.drop_length]
  exact List.nil_perm

theorem announces_reenqueueOrphaned_iff
    (cutoff : Nat)
    (only : Option String)
    (s : Store) :
    (Call.reenqueueOrphaned cutoff only).Announces rt queue s ↔
      ∀ v ∈ s.reached rt cutoff only, s.inflightJobs v = ∅ := by
  have hnd : (s.reached rt cutoff only).Nodup :=
    (nodup_expired cutoff only s).sublist (List.takeWhile_sublist _)
  have hstate : ((reenqueueOrphanedScript rt queue cutoff only).run s).2.published =
        s.published ∧
      ((reenqueueOrphanedScript rt queue cutoff only).run s).2.activeJobs =
        s.activeJobs ++ (s.reached rt cutoff only).flatMap (s.held rt) := by
    rw [reenqueueOrphanedScript]
    rcases reenqueueOrphaned_cases rt queue cutoff only s with
      ⟨-, -, hrun⟩ | ⟨-, hrun⟩ <;> rw [hrun, recoverAll_eq rt _ hnd]
    · dsimp only
      split <;> exact ⟨rfl, rfl⟩
    · exact ⟨rfl, rfl⟩
  rw [announces_iff_of_silent rt queue (.reenqueueOrphaned cutoff only) s hstate.1]
  change ((reenqueueOrphanedScript rt queue cutoff only).run s).2.activeJobs.drop
    (s.activeJobs.length - 0) = [] ↔ _
  rw [hstate.2, Nat.sub_zero, List.drop_left, List.flatMap_eq_nil_iff]
  exact forall₂_congr fun v _ => rt.members_eq_nil

/-- When a fetch takes the whole list. -/
theorem length_front_eq_iff
    (batchSize : Nat)
    (s : Store) :
    (s.front batchSize).length = s.activeJobs.length ↔
      batchSize = 0 ∨ s.activeJobs.length ≤ batchSize := by
  rw [Store.front, slice_zero, List.length_take]
  unfold fromEnd
  split <;> omega

theorem published_promoted
    (now : Nat)
    (s : Store) :
    (s.promoted now).published = s.published := by
  unfold Store.promoted
  split <;> rfl

/-- A fetch publishes nothing. -/
theorem published_fetchNext
    (now batchSize : Nat)
    (worker : String)
    (s : Store) :
    (((Call.fetchNext now batchSize worker).exec rt queue).run s).2.published =
      s.published := by
  rw [Call.exec, run_map_snd, fetchNextScript]
  rcases fetchNext_cases rt queue worker now batchSize s with
    ⟨-, message, hrun⟩ | ⟨-, -, hrun⟩ | ⟨-, -, hrun⟩ <;> rw [hrun]
  · exact published_promoted now s
  · exact published_promoted now s

/-- What a fetch leaves waiting stands behind the tasks that it replies with. -/
theorem leftWaiting_fetchNext
    (now batchSize : Nat)
    (worker : String)
    (s : Store) :
    (Call.fetchNext now batchSize worker).leftWaiting rt queue s =
      ((fetchNextScript rt queue now batchSize worker).run s).2.activeJobs.drop
        (s.activeJobs.length -
          match ((fetchNextScript rt queue now batchSize worker).run s).1 with
          | .ok reply => reply.1.length
          | .error _ => 0) := by
  unfold Call.leftWaiting Call.taken Call.exec
  rw [run_map]
  rcases (fetchNextScript rt queue now batchSize worker).run s with ⟨e | reply, t⟩ <;> rfl

theorem announces_fetchNext_iff
    (now batchSize : Nat)
    (worker : String)
    (s : Store) :
    (Call.fetchNext now batchSize worker).Announces rt queue s ↔
      (Call.fetchNext now batchSize worker).AppendsNothing rt s := by
  have hlength : (s.promoted now).activeJobs.length =
      s.activeJobs.length + (s.due now).length := by
    rw [activeJobs_promoted, List.length_append]
  have hwhole := length_front_eq_iff batchSize (s.promoted now)
  have htaken := (slice_zero_isPrefix (s.promoted now).activeJobs
    ((batchSize : Int) - 1)).length_le
  rw [hlength] at hwhole htaken
  have hdue := List.length_eq_zero_iff (l := s.due now)
  rw [announces_iff_of_silent rt queue _ s (published_fetchNext rt queue now batchSize worker s),
    leftWaiting_fetchNext, fetchNextScript]
  unfold Call.AppendsNothing
  rcases fetchNext_cases rt queue worker now batchSize s with
    ⟨hrefused, message, hrun⟩ | ⟨hserved, hstuck, hrun⟩ | ⟨hserved, hfits, hrun⟩
  · rw [hrun]
    exact iff_of_true (by simp) fun h => absurd h hrefused
  · rw [hrun, Nat.sub_zero, activeJobs_promoted, List.drop_left]
    constructor
    · exact fun hnone _ => .inl hnone
    · intro h
      rcases h hserved with hnone | ⟨hbatch, hfits⟩
      · exact hnone
      · exact absurd (hwhole.mpr hbatch ▸ hfits) hstuck
  · rw [hrun]
    have hreply : ((s.promoted now).reply rt ((s.promoted now).front batchSize)).1.length =
        ((s.promoted now).front batchSize).length := List.length_map _
    dsimp only [Store.quiet, Store.deliver]
    rw [hreply, List.drop_drop, List.drop_eq_nil_iff, hlength, ← hdue, ← hwhole]
    change ((s.promoted now).front batchSize).length ≤ _ at htaken
    constructor
    · intro hnone _
      rcases Nat.eq_zero_or_pos (s.due now).length with hzero | hpos
      · exact .inl hzero
      · have hall : ((s.promoted now).front batchSize).length =
            s.activeJobs.length + (s.due now).length := by omega
        exact .inr ⟨hall, hall ▸ hfits⟩
    · intro h
      rcases h hserved with hzero | ⟨hall, -⟩ <;> omega

end Announcements

/-- Two tasks are scheduled, and a worker is registered. -/
def twoScheduled : Store :=
  run (.ascending none) Config.default.queue
    [registerW, .submit 0 true [plainPush "a" ∅, plainPush "b" ∅]] Store.empty

end ApalisRedis
