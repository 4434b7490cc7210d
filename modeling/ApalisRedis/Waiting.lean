import ApalisRedis.RoundTrip

/-!
# Waiting tasks

A task waits in the active list for its turn, or in the scheduled set for its
instant.  Only a fetch takes tasks out of either: from the front of the active
list, and out of the scheduled set when its own clock has reached the score.
Every other call appends to the active list and adds to the scheduled set.

**Results.**
* `Move.activeJobs_prefix`, `Move.lookup_scheduled`: what a move leaves waiting.
* `active_fifo`: the active list is first-in first-out over whole runs.
* `no_early_start`: no task starts before the instant it is scheduled for.
-/

namespace ApalisRedis

open Lua Redis Script

namespace Move

variable {rt : Runtime} {may : Powers} {s t : Store} {b : Board}

/-- A move of anything but a fetch appends to the active list. -/
theorem activeJobs_prefix
    (hdeliver : ¬may.deliver)
    (h : Reflects s b)
    (hmove : Move rt may s t) :
    s.activeJobs <+: t.activeJobs := by
  cases hmove with
  | bookkeep hsame => rw [hsame.activeJobs]
  | submit r hnew hmay =>
      change s.activeJobs <+: ite _ _ _
      split
      · exact List.prefix_rfl
      · exact List.prefix_append _ _
  | promote taskIds hnd hids hmay => exact absurd hmay hdeliver
  | deliver worker taskIds hworker hids hmay => exact absurd hmay hdeliver
  | lock worker now taskId hheld =>
      -- The task that is locked is held, so `LREM` finds nothing to remove.
      have hwaiting : taskId ∉ s.activeJobs := fun hactive =>
        h.ne_of_waiting (.inl hactive) hheld rfl
      change s.activeJobs <+: s.activeJobs.erase taskId
      rw [List.erase_of_not_mem hwaiting]
  | release worker taskIds hnd hheld => exact List.prefix_append _ _
  | recover worker jobs hnd hjobs hmay => exact List.prefix_append _ _
  | _ => exact List.prefix_rfl

/-- A move of anything but a fetch leaves the scores of the scheduled tasks. -/
theorem lookup_scheduled
    (hdeliver : ¬may.deliver)
    (h : Reflects s b)
    (hmove : Move rt may s t)
    {id : String}
    {score : Nat}
    (hid : s.scheduledJobs.lookup id = some score) :
    t.scheduledJobs.lookup id = some score := by
  have hplace : b id = some .scheduled := h.mem_scheduled.mp (Finmap.mem_of_lookup_eq_some hid)
  cases hmove with
  | bookkeep hsame =>
      rw [hsame.scheduledJobs]
      exact hid
  | submit r hnew hmay =>
      have hne : id ≠ r.taskId := by
        rintro rfl
        exact hnew (h.stored _ (by rw [hplace]; simp))
      change Finmap.lookup id (ite _ _ _) = _
      split
      · rw [Finmap.lookup_insert_of_ne _ hne]
        exact hid
      · exact hid
  | promote taskIds hnd hids hmay => exact absurd hmay hdeliver
  | ack worker r hheld hmay =>
      have hne : id ≠ r.taskId :=
        h.ne_of_waiting (.inr (Finmap.mem_of_lookup_eq_some hid)) hheld
      change Finmap.lookup id (ite _ _ _) = _
      split
      · rw [Finmap.lookup_insert_of_ne _ hne]
        exact hid
      · exact hid
  | _ => exact hid

end Move

/-- The call fetches. -/
def Call.Fetches : Call → Prop
  | .fetchNext _ _ _ => True
  | _ => False

section Calls

variable (rt : Runtime) (queue : String)

/-- A call that does not fetch makes moves of waiting tasks only. -/
theorem Call.within_waiting_of_not_fetches
    (c : Call)
    (hc : ¬c.Fetches) :
    c.Within (waiting rt) := by
  rcases c.within_waiting rt with hwithin | ⟨now, batchSize, worker, rfl⟩
  · exact hwithin
  · exact absurd trivial hc

theorem moves_waiting
    {c : Call}
    (hc : c.Within (waiting rt))
    (s : Store) :
    Moves rt (waiting rt) s ((c.exec rt queue).run s).2 := by
  have hstash : ∀ n, ¬rt.Fits n → (waiting rt).stash := fun n hn => ⟨n, hn⟩
  exact c.movesBy queue hstash hc s

/-- What holds along the moves of waiting tasks, for a state with a board. -/
theorem waiting_keeps
    {I : Store → Prop}
    (hstep : ∀ s t b, Reflects s b → Move rt (waiting rt) s t → I s → I t)
    {s t : Store}
    (hmoves : Moves rt (waiting rt) s t)
    {b : Board}
    (h : Reflects s b)
    (hs : I s) :
    I t := by
  refine (Systems.preserved (I := fun s => I s ∧ ∃ b, Reflects s b)
    (fun u v hmove hu => ?_) hmoves ⟨hs, b, h⟩).1
  obtain ⟨hu, b, hb⟩ := hu
  obtain ⟨b', -, hb'⟩ := move_simulates (fun hd => hd) _ _ b hmove hb
  exact ⟨hstep u v b hb hmove hu, b', hb'⟩

/-- **Only a fetch takes anything out of the active list.** -/
theorem activeJobs_prefix_exec
    {c : Call}
    (hc : c.Within (waiting rt))
    {s : Store}
    {b : Board}
    (h : Reflects s b) :
    s.activeJobs <+: ((c.exec rt queue).run s).2.activeJobs := by
  refine waiting_keeps rt (I := fun t => s.activeJobs <+: t.activeJobs)
    (fun u v b hb hmove hu => ?_) (moves_waiting rt queue hc s) h List.prefix_rfl
  exact hu.trans (hmove.activeJobs_prefix (fun hd => hd) hb)

/-- Promoting keeps the board's relation to the store. -/
theorem reflects_promoted
    (now : Nat)
    {s : Store}
    {b : Board}
    (h : Reflects s b) :
    ∃ b', Reflects (s.promoted now) b' := by
  have hmoves : Moves (.ascending none) (persistence (.ascending none)) s (s.promoted now) :=
    moves_promoted trivial now s
  obtain ⟨b', -, hb'⟩ := (move_simulates (fun hd => hd)).run hmoves h
  exact ⟨b', hb'⟩

theorem activeJobs_promoted
    (now : Nat)
    (s : Store) :
    (s.promoted now).activeJobs = s.activeJobs ++ s.due now := by
  unfold Store.promoted
  split
  · simp [*]
  · rfl

/-- A fetch appends the due tasks and cuts a piece off the front. -/
theorem activeJobs_fetch
    (now batchSize : Nat)
    (worker : String)
    (s : Store) :
    let t := (((Call.fetchNext now batchSize worker).exec rt queue).run s).2
    t.activeJobs = s.activeJobs ∨ ∃ n, t.activeJobs = (s.promoted now).activeJobs.drop n := by
  intro t
  have ht : t = ((fetchNextScript rt queue now batchSize worker).run s).2 := run_map_snd _ _ _
  rcases fetchNext_cases rt queue worker now batchSize s with
    ⟨-, message, hrun⟩ | ⟨-, -, hrun⟩ | ⟨-, -, hrun⟩
  · left
    rw [ht, fetchNextScript, hrun]
  · refine .inr ⟨0, ?_⟩
    rw [ht, fetchNextScript, hrun]
    rfl
  · refine .inr ⟨((s.promoted now).front batchSize).length, ?_⟩
    rw [ht, fetchNextScript, hrun]
    rfl

end Calls

/-- Cutting a piece off the front keeps the order of what is left. -/
theorem pair_sublist_drop
    {xs : List String}
    (hnd : xs.Nodup)
    {first second : String}
    (hbefore : [first, second].Sublist xs)
    {n : Nat}
    (hleft : first ∈ xs.drop n) :
    [first, second].Sublist (xs.drop n) := by
  rw [← List.take_append_drop n xs] at hbefore hnd
  obtain ⟨cut, kept, hpair, hcut, hkept⟩ := List.sublist_append_iff.mp hbefore
  cases cut with
  | nil =>
      rw [List.nil_append] at hpair
      rw [hpair]
      exact hkept
  | cons x cut =>
      obtain ⟨rfl, -⟩ := List.cons.inj hpair
      have htaken : first ∈ xs.take n := hcut.subset (by simp)
      exact absurd hleft (List.disjoint_of_nodup_append hnd htaken)

section Fifo

variable (rt : Runtime) (queue : String)

theorem fifo_exec
    (c : Call)
    {s : Store}
    {b : Board}
    (h : Reflects s b)
    {first second : String}
    (hbefore : [first, second].Sublist s.activeJobs)
    (hstays : first ∈ ((c.exec rt queue).run s).2.activeJobs) :
    [first, second].Sublist ((c.exec rt queue).run s).2.activeJobs := by
  rcases c.within_waiting rt with hwithin | ⟨now, batchSize, worker, rfl⟩
  · exact hbefore.trans (activeJobs_prefix_exec rt queue hwithin h).sublist
  · rcases activeJobs_fetch rt queue now batchSize worker s with hsame | ⟨n, hcut⟩
    · rw [hsame]
      exact hbefore
    · obtain ⟨b', hb'⟩ := reflects_promoted now h
      rw [hcut] at hstays ⊢
      refine pair_sublist_drop hb'.nodup ?_ hstays
      rw [activeJobs_promoted]
      exact hbefore.trans (List.sublist_append_left _ _)

/-- The order of two tasks lasts for as long as the first one waits. -/
theorem fifo_run
    {first second : String}
    (later : List Call) :
    ∀ {s : Store} {b : Board}, Reflects s b → [first, second].Sublist s.activeJobs →
      (∀ early, early <+: later → first ∈ (run rt queue early s).activeJobs) →
      [first, second].Sublist (run rt queue later s).activeJobs := by
  induction later with
  | nil => exact fun _ hbefore _ => hbefore
  | cons c later ih =>
      intro s b h hbefore hstays
      have hnext := fifo_exec rt queue c h hbefore (hstays [c] (by simp))
      obtain ⟨b', -, hb'⟩ := reflects_run rt queue [c] h
      refine ih hb' hnext fun early hearly => ?_
      exact hstays (c :: early) (List.cons_prefix_cons.mpr ⟨rfl, hearly⟩)

/-- **The active list is first-in first-out.**  While the first of two waiting
tasks waits, the second one waits behind it; a call that takes the second one out
is a fetch that takes the first one as well; and a call that is not a fetch only
appends to the list. -/
theorem active_fifo
    (calls later : List Call)
    {first second : String}
    (hbefore : [first, second].Sublist (run rt queue calls Store.empty).activeJobs) :
    ((∀ early, early <+: later →
        first ∈ (run rt queue (calls ++ early) Store.empty).activeJobs) →
      [first, second].Sublist (run rt queue (calls ++ later) Store.empty).activeJobs ∧
      ∀ c, second ∉ (run rt queue (calls ++ later ++ [c]) Store.empty).activeJobs →
        c.Fetches ∧ first ∉ (run rt queue (calls ++ later ++ [c]) Store.empty).activeJobs) ∧
    ∀ c, ¬c.Fetches →
      (run rt queue (calls ++ later) Store.empty).activeJobs <+:
        (run rt queue (calls ++ later ++ [c]) Store.empty).activeJobs := by
  obtain ⟨b, -, hb⟩ := reflects_run rt queue calls reflects_empty
  obtain ⟨b', -, hb'⟩ := reflects_run rt queue (calls ++ later) reflects_empty
  have happends : ∀ c, ¬c.Fetches →
      (run rt queue (calls ++ later) Store.empty).activeJobs <+:
        (run rt queue (calls ++ later ++ [c]) Store.empty).activeJobs := by
    intro c hc
    rw [run_append rt queue (calls ++ later)]
    exact activeJobs_prefix_exec rt queue (c.within_waiting_of_not_fetches rt hc) hb'
  refine ⟨fun hstays => ?_, happends⟩
  have hlater : [first, second].Sublist
      (run rt queue (calls ++ later) Store.empty).activeJobs := by
    rw [run_append]
    refine fifo_run rt queue later hb hbefore fun early hearly => ?_
    rw [← run_append]
    exact hstays early hearly
  refine ⟨hlater, fun c hgone => ⟨?_, fun hfirst => hgone ?_⟩⟩
  · by_contra hc
    exact hgone ((happends c hc).subset (hlater.subset (by simp)))
  · rw [run_append rt queue (calls ++ later)] at hfirst ⊢
    exact (fifo_exec rt queue c hb' hlater hfirst).subset (by simp)

end Fifo

/-- Two tasks are pushed, by a client whose clock stands at the epoch. -/
def twoActive : List Call :=
  [.pushTasks 0 true [⟨"b", .empty, 0, 25, ∅, 0, ""⟩, ⟨"a", .empty, 0, 25, ∅, 0, ""⟩]]

/-- They keep their order when orphans are recovered. -/
theorem active_fifo_two :
    ["b", "a"].Sublist (run (.ascending none) "q" (twoActive ++ [.reenqueueOrphaned 5 none])
      Store.empty).activeJobs := by
  refine ((active_fifo (.ascending none) "q" twoActive [.reenqueueOrphaned 5 none]
    (by decide +kernel)).1 fun early hearly => ?_).1
  rcases List.prefix_cons_iff.mp hearly with rfl | ⟨rest, rfl, hrest⟩
  · decide +kernel
  · rw [List.prefix_nil.mp hrest]
    decide +kernel

/-- The ids of the tasks that a fetch replies with. -/
def Lua.FetchReply.ids (reply : FetchReply) : List String :=
  reply.2.filterMap List.head?

section Schedule

variable (core : Core) (rt : Runtime) (queue : String)

/-- The call schedules the task for the instant: it accepts it with a later
`run_at` than the clock of its client, or records an outcome that is retried. -/
inductive Schedules : Call → Store → String → Nat → Prop
  | push {ttl : Nat} {emitEvents : Bool} {before after : List PushRecord} {s u : Store}
      {counts : Nat × Nat} {instant : Nat} (sub : Submission core)
      (hreached : (before.foldlM (pushTaskAt rt queue ttl emitEvents) (0, 0)).run s =
        (.ok counts, u))
      (haccepts : u.Accepts rt sub.record)
      (hrunAt : sub.request.runAt = some instant)
      (hlater : sub.current < instant) :
      Schedules (.pushTasks ttl emitEvents (before ++ sub.record :: after)) s
        sub.record.taskId instant
  | retry {worker : String} {emitEvents : Bool} {before after : List AckRecord} {s u : Store}
      {acked : Nat} (r : AckRecord)
      (hreached : (handleResultsScript queue worker emitEvents before).run s = (.ok acked, u))
      (hheld : r.taskId ∈ u.inflightJobs worker)
      (hretry : r.place = .scheduled) :
      Schedules (.handleResults worker emitEvents (before ++ r :: after)) s
        r.taskId (r.timestamp + r.attempt)

variable {core rt queue}

/-- A scheduled task stays scheduled until a fetch promotes it. -/
theorem lookup_scheduled_of_moves
    {s t : Store}
    (hmoves : Moves rt (waiting rt) s t)
    {b : Board}
    (h : Reflects s b)
    {id : String}
    {score : Nat}
    (hid : s.scheduledJobs.lookup id = some score) :
    t.scheduledJobs.lookup id = some score :=
  waiting_keeps rt (I := fun s => s.scheduledJobs.lookup id = some score)
    (fun _ _ _ hb hmove hu => hmove.lookup_scheduled (fun hd => hd) hb hu) hmoves h hid

/-- After it has recorded an outcome, a call moves no waiting task. -/
theorem moves_after_ack
    (worker : String)
    (emitEvents : Bool)
    (before after : List AckRecord)
    (r : AckRecord)
    {s u : Store}
    {acked : Nat}
    (hreached : (handleResultsScript queue worker emitEvents before).run s = (.ok acked, u))
    (hheld : r.taskId ∈ u.inflightJobs worker) :
    Moves rt (waiting rt) (u.ack worker r)
      (((Call.handleResults worker emitEvents (before ++ r :: after)).exec rt queue).run s).2 := by
  have hone := run_ackTask queue worker emitEvents acked r u
  rw [if_pos hheld] at hone
  have hsaid : Move rt (waiting rt) (u.ack worker r)
      ((u.ack worker r).say emitEvents (r.channel queue) r.taskId) :=
    .bookkeep (SameTasks.say ..)
  have hrest : MovesBy (Move rt (waiting rt)) _
      ((u.ack worker r).say emitEvents (r.channel queue) r.taskId) :=
    ackLoop_movesBy queue worker emitEvents after (fun _ _ => trivial) (acked + 1) _
  have hcall : (((Call.handleResults worker emitEvents (before ++ r :: after)).exec rt queue).run
      s).2 = ((after.foldlM (ackTask (Keys.inflightSetFor queue worker) (Keys.doneJobsSet queue)
        (Keys.deadJobsSet queue) (Keys.scheduledJobsSet queue) (Keys.jobMetaHash queue) emitEvents)
        (acked + 1)).run ((u.ack worker r).say emitEvents (r.channel queue) r.taskId)).2 := by
    rw [Call.exec, handleResultsScript, handleResults, List.foldlM_append]
    rw [handleResultsScript, handleResults] at hreached
    rw [run_bind_ok hreached, List.foldlM_cons, run_bind_ok hone]
  rw [hcall]
  exact (Relation.ReflTransGen.single hsaid).trans hrest

/-- What a push or a retry has scheduled has the instant as its score. -/
theorem Schedules.lookup
    {c : Call}
    {s : Store}
    {id : String}
    {instant : Nat}
    (hschedules : Schedules core rt queue c s id instant)
    {b : Board}
    (h : Reflects s b) :
    ((c.exec rt queue).run s).2.scheduledJobs.lookup id = some instant := by
  cases hschedules with
  | @push ttl emitEvents before after _ u counts _ sub hreached haccepts hrunAt hlater =>
      have hstash : ∀ n, ¬rt.Fits n → (waiting rt).stash := fun n hn => ⟨n, hn⟩
      have hloop := pushLoop_movesBy queue hstash ttl emitEvents before
        (fun _ _ => trivial) (0, 0) s
      have hinstant : sub.record.scheduleTime = instant := by
        simp [Submission.record, hrunAt, hlater]
      have hpos : 0 < sub.record.scheduleTime := by omega
      have hsubmit : Moves rt (waiting rt) u
          ((u.claimKey ttl sub.record).submit rt sub.record) := by
        have hclaim : Move rt (waiting rt) u (u.claimKey ttl sub.record) :=
          .bookkeep (by constructor <;> rfl)
        exact (Relation.ReflTransGen.single hclaim).tail (.submit _ haccepts.2.1 trivial)
      unfold MovesBy at hloop
      rw [hreached] at hloop
      obtain ⟨b', -, hb'⟩ := (move_simulates (fun hd => hd)).run (hloop.trans hsubmit) h
      refine lookup_scheduled_of_moves
        (moves_after_accepted rt queue ttl emitEvents before after sub.record hreached haccepts)
        hb' ?_
      change Finmap.lookup _ (ite _ _ _) = _
      rw [if_pos hpos, Finmap.lookup_insert, hinstant]
  | @retry worker emitEvents before after _ u acked r hreached hheld hretry =>
      have hloop : MovesBy (Move rt (waiting rt)) _ s :=
        handleResults_movesBy queue worker emitEvents before (fun _ _ => trivial) s
      have hack : Move rt (waiting rt) u (u.ack worker r) := .ack worker r hheld trivial
      unfold MovesBy at hloop
      rw [hreached] at hloop
      obtain ⟨b', -, hb'⟩ := (move_simulates (fun hd => hd)).run (hloop.tail hack) h
      refine lookup_scheduled_of_moves
        (moves_after_ack worker emitEvents before after r hreached hheld) hb' ?_
      change Finmap.lookup _ (ite _ _ _) = _
      rw [if_pos hretry, Finmap.lookup_insert]

/-- A fetch whose clock has not reached the instant leaves the task scheduled. -/
theorem lookup_scheduled_promoted
    {now : Nat}
    {s : Store}
    {id : String}
    {instant : Nat}
    (hid : s.scheduledJobs.lookup id = some instant)
    (hearly : now < instant) :
    (s.promoted now).scheduledJobs.lookup id = some instant := by
  have hdue : id ∉ s.due now := by
    intro hmem
    obtain ⟨score, hscore, -, hle⟩ := ZSet.mem_rangeByScore.mp hmem
    rw [hid] at hscore
    cases hscore
    omega
  unfold Store.promoted
  split
  · exact hid
  · change (Hash.eraseAll s.scheduledJobs (s.due now)).lookup id = _
    rw [Hash.lookup_eraseAll, if_neg hdue]
    exact hid

theorem lookup_scheduled_exec
    (c : Call)
    {s : Store}
    {b : Board}
    (h : Reflects s b)
    {id : String}
    {instant : Nat}
    (hid : s.scheduledJobs.lookup id = some instant)
    (hearly : ∀ now batchSize worker, c = .fetchNext now batchSize worker → now < instant) :
    ((c.exec rt queue).run s).2.scheduledJobs.lookup id = some instant := by
  rcases c.within_waiting rt with hwithin | ⟨now, batchSize, worker, rfl⟩
  · exact lookup_scheduled_of_moves (moves_waiting rt queue hwithin s) h hid
  · have hpromoted := lookup_scheduled_promoted hid (hearly now batchSize worker rfl)
    rw [Call.exec, run_map_snd]
    rcases fetchNext_cases rt queue worker now batchSize s with
      ⟨-, message, hrun⟩ | ⟨-, -, hrun⟩ | ⟨-, -, hrun⟩ <;> rw [fetchNextScript, hrun]
    · exact hid
    · exact hpromoted
    · exact hpromoted

theorem lookup_scheduled_run
    {id : String}
    {instant : Nat}
    (later : List Call) :
    ∀ {s : Store} {b : Board}, Reflects s b → s.scheduledJobs.lookup id = some instant →
      (∀ now batchSize worker, .fetchNext now batchSize worker ∈ later → now < instant) →
      (run rt queue later s).scheduledJobs.lookup id = some instant := by
  induction later with
  | nil => exact fun _ hid _ => hid
  | cons c later ih =>
      intro s b h hid hearly
      have hnext : ((c.exec rt queue).run s).2.scheduledJobs.lookup id = some instant :=
        lookup_scheduled_exec c h hid fun now batchSize worker hc =>
          hearly now batchSize worker (by simp [hc])
      obtain ⟨b', -, hb'⟩ := reflects_run rt queue [c] h
      exact ih hb' hnext fun now batchSize worker hmem =>
        hearly now batchSize worker (List.mem_cons_of_mem _ hmem)

/-- What a fetch replies with was active after its promotion. -/
theorem mem_activeJobs_of_replied
    {now batchSize : Nat}
    {worker id : String}
    {s t : Store}
    {reply : FetchReply}
    (hrun : (fetchNextScript rt queue now batchSize worker).run s = (.ok reply, t))
    (hid : id ∈ reply.ids) :
    id ∈ (s.promoted now).activeJobs := by
  rcases fetchNext_cases rt queue worker now batchSize s with
    ⟨-, message, hcase⟩ | ⟨-, -, hcase⟩ | ⟨-, -, hcase⟩ <;>
    rw [fetchNextScript, hcase] at hrun <;> cases hrun
  have hids : FetchReply.ids ((s.promoted now).reply rt ((s.promoted now).front batchSize)) =
      (s.promoted now).front batchSize := by
    simp [FetchReply.ids, Store.reply, List.filterMap_map, Function.comp_def]
  rw [hids] at hid
  exact (slice_zero_isPrefix _ _).subset hid

variable (core rt queue)

/-- **No task starts early.**  Until a fetch runs whose own clock has reached the
instant, a task that was scheduled for it is not active, nobody holds it, and no
fetch with an earlier clock replies with it. -/
theorem no_early_start
    (calls later : List Call)
    {c : Call}
    {id : String}
    {instant : Nat}
    (hscheduled : Schedules core rt queue c (run rt queue calls Store.empty) id instant)
    (hearly : ∀ now batchSize worker, .fetchNext now batchSize worker ∈ later → now < instant) :
    let s := run rt queue (calls ++ c :: later) Store.empty
    id ∉ s.activeJobs ∧ (∀ worker, id ∉ s.inflightJobs worker) ∧
      ∀ now batchSize worker reply t, now < instant →
        (fetchNextScript rt queue now batchSize worker).run s = (.ok reply, t) →
          id ∉ reply.ids := by
  intro s
  obtain ⟨b, -, hb⟩ := reflects_run rt queue calls reflects_empty
  obtain ⟨b', -, hb'⟩ := reflects_run rt queue [c] hb
  obtain ⟨b'', -, hs⟩ := reflects_run rt queue (calls ++ c :: later) reflects_empty
  have hid : s.scheduledJobs.lookup id = some instant := by
    change (run rt queue (calls ++ c :: later) Store.empty).scheduledJobs.lookup id = _
    rw [run_append]
    exact lookup_scheduled_run later hb' (hscheduled.lookup hb) hearly
  have hplace : b'' id = some .scheduled := hs.mem_scheduled.mp (Finmap.mem_of_lookup_eq_some hid)
  refine ⟨fun hactive => ?_, fun worker hheld => ?_, ?_⟩
  · rw [hs.mem_active, hplace] at hactive
    cases hactive
  · rw [hs.mem_inflight, hplace] at hheld
    cases hheld
  · intro now batchSize worker reply t hnow hrun hreplied
    have hactive := mem_activeJobs_of_replied hrun hreplied
    obtain ⟨b₁, hpromoted⟩ := reflects_promoted now hs
    have hwaits := Finmap.mem_of_lookup_eq_some (lookup_scheduled_promoted hid hnow)
    rw [hpromoted.mem_active] at hactive
    rw [hpromoted.mem_scheduled, hactive] at hwaits
    cases hwaits

end Schedule

/-- A push of a task that is to start at the instant 100. -/
def delayedPush : Submission Core.text :=
  { plainPush "t" ∅ with request := { (plainPush "t" ∅).request with runAt := some 100 } }

/-- A fetch at the instant 50 does not start it. -/
theorem no_early_start_delayed :
    "t" ∉ (run (.ascending none) "q"
      ([] ++ .submit 0 true [delayedPush] :: [registerW, .fetchNext 50 10 "w"])
      Store.empty).activeJobs := by
  have hscheduled : Schedules Core.text (.ascending none) "q" (.submit 0 true [delayedPush])
      (run (.ascending none) "q" [] Store.empty) "t" 100 := by
    change Schedules _ _ _ (.pushTasks 0 true ([] ++ delayedPush.record :: [])) _ _ _
    refine .push delayedPush rfl ?_ rfl (by decide)
    unfold Store.Accepts
    decide +kernel
  refine (no_early_start Core.text (.ascending none) "q" [] _ hscheduled ?_).1
  intro now batchSize worker hmem
  simp only [registerW, List.mem_cons, List.not_mem_nil, or_false, reduceCtorEq, false_or,
    Call.fetchNext.injEq] at hmem
  omega

end ApalisRedis
