import ApalisRedis.Commutation
import ApalisRedis.Redelivery
import ApalisRedis.Waiting

/-!
# How often a task is retried

A push stores the task's `max_attempts` in its metadata.  Where a failed task
goes is decided by `handle_results.lua`, which compares the attempt with 25.

**Results.**
* `unlive_runOps`: a task that is finished stays so until it is stored anew.
* `boundsRetries_iff`: when a failed acknowledgement follows the `max_attempts`
  of the task.
-/

namespace ApalisRedis

open Lua Redis Script

/-- The store without the record of which tasks are finished. -/
def Store.unfinished (s : Store) : Store :=
  { s with
    doneJobs := ∅
    deadJobs := ∅ }

section Unfinished

variable {rt : Runtime} {may : Powers}

/-- Every move can be made without that record. -/
theorem Move.unfinished
    {s t : Store}
    (hmove : Move rt may s t) :
    ∃ t', Move rt may s.unfinished t' ∧ t'.unfinished = t.unfinished := by
  cases hmove with
  | bookkeep hsame =>
      exact ⟨t.unfinished, .bookkeep ⟨hsame.jobData, hsame.jobMeta, hsame.activeJobs,
        hsame.scheduledJobs, hsame.inflightJobs, rfl, rfl, hsame.workers⟩, rfl⟩
  | stash r hmay hnew => exact ⟨_, .stash r hmay hnew, rfl⟩
  | submit r hnew hmay => exact ⟨_, .submit r hnew hmay, rfl⟩
  | promote taskIds hnd hids hmay => exact ⟨_, .promote taskIds hnd hids hmay, rfl⟩
  | deliver worker taskIds hworker hids hmay =>
      exact ⟨_, .deliver worker taskIds hworker hids hmay, rfl⟩
  | lock worker now taskId hheld => exact ⟨_, .lock worker now taskId hheld, rfl⟩
  | renew worker now taskId hheld => exact ⟨_, .renew worker now taskId hheld, rfl⟩
  | ack worker r hheld hmay => exact ⟨_, .ack worker r hheld hmay, rfl⟩
  | release worker taskIds hnd hheld => exact ⟨_, .release worker taskIds hnd hheld, rfl⟩
  | recover worker jobs hnd hjobs hmay => exact ⟨_, .recover worker jobs hnd hjobs hmay, rfl⟩
  | beat worker now hworker => exact ⟨_, .beat worker now hworker, rfl⟩
  | discard taskId hmay => exact ⟨_, .discard taskId hmay, rfl⟩

/-- A board without its finished tasks. -/
theorem Reflects.unfinished
    {s : Store}
    {b : Board}
    (h : Reflects s b) :
    ∃ b', Reflects s.unfinished b' := by
  refine ⟨fun id => (b id).filter fun p => p ≠ .done ∧ p ≠ .dead, fun id p => ?_, h.nodup,
    fun id hid => ?_⟩
  · have hplace := h.place id p
    rw [Option.filter_eq_some_iff]
    cases p with
    | done => simp [Store.At, Store.unfinished]
    | dead => simp [Store.At, Store.unfinished]
    | _ => simpa [Store.At, Store.unfinished] using hplace
  · refine h.stored id fun hnone => hid ?_
    rw [hnone]
    rfl

/-- Without deletions, the unfinished tasks stay at one place each. -/
theorem reflects_unfinished_of_moves
    {s t : Store}
    (hdiscard : ¬may.discard)
    (hmoves : Moves rt may s t)
    (hs : ∃ b, Reflects s.unfinished b) :
    ∃ b, Reflects t.unfinished b := by
  refine Systems.preserved (I := fun u => ∃ b, Reflects u.unfinished b) ?_ hmoves hs
  rintro u v hmove ⟨b, hb⟩
  obtain ⟨v', hmove', hv'⟩ := hmove.unfinished
  obtain ⟨b', -, hb'⟩ := move_simulates hdiscard _ _ b hmove' hb
  rw [← hv']
  exact hb'.unfinished

/-- A vacuum that spares them leaves them where they are. -/
theorem Vacuuming.reflects_unfinished
    {deletes : String → Prop}
    {s u : Store}
    (h : Vacuuming deletes s u)
    (hu : u.Intact)
    (hs : ∃ b, Reflects s.unfinished b) :
    ∃ b, Reflects u.unfinished b := by
  obtain ⟨b, hb⟩ := hs
  have hplace : ∀ id p, u.unfinished.At id p ↔ b id = some p := by
    intro id p
    rw [← hb.place id p]
    cases p <;>
      simp [Store.At, Store.unfinished, h.activeJobs, h.scheduledJobs, h.inflightJobs]
  refine ⟨b, hplace, ?_, fun id hid => ?_⟩
  · have hnd := hb.nodup
    change s.activeJobs.Nodup at hnd
    rw [← h.activeJobs] at hnd
    exact hnd
  · obtain ⟨p, hp⟩ := Option.ne_none_iff_exists'.mp hid
    have hat := (hplace id p).mpr hp
    cases p with
    | active => exact (hu id (.inl hat)).1
    | scheduled => exact (hu id (.inr (.inl hat))).1
    | inflight worker => exact (hu id (.inr (.inr ⟨worker, hat⟩))).1
    | done => exact absurd hat (Finset.notMem_empty id)
    | dead => exact absurd hat (Finset.notMem_empty id)

variable (rt) (queue : String)

/-- In a run whose vacuums spare the unfinished tasks, each of them is at one place. -/
theorem reflects_unfinished_runOps :
    ∀ (ops : List Op) (s : Store), SparingRun rt queue ops s → s.Intact →
      (∃ b, Reflects s.unfinished b) → ∃ b, Reflects (runOps rt queue ops s).unfinished b
  | [], _, _, _, hs => hs
  | op :: ops, s, hrun, hintact, hs => by
      have hnext := op.intact rt queue hrun.1 hintact
      refine reflects_unfinished_runOps ops _ hrun.2 hnext ?_
      cases op with
      | call c =>
          exact reflects_unfinished_of_moves (fun hd => hd)
            (moves_persistence rt queue [c] s) hs
      | vacuum => exact (vacuum_vacuuming rt queue s).reflects_unfinished hnext hs
      | vacuumBefore seconds =>
          exact (vacuumBefore_vacuuming rt queue seconds s).reflects_unfinished hnext hs

/-- No operation of the run stores the task anew. -/
def NeverStoredAnew (id : String) : List Op → Store → Prop
  | [], _ => True
  | op :: ops, s =>
      let t := ((op.exec rt queue).run s).2
      (id ∈ t.jobData → id ∈ s.jobData) ∧ NeverStoredAnew id ops t

variable {rt}

theorem unlive_of_moves
    {s t : Store}
    (hdiscard : ¬may.discard)
    (hmoves : Moves rt may s t)
    {id : String}
    (hid : ¬s.Live id)
    (hstored : id ∈ t.jobData → id ∈ s.jobData) :
    ¬t.Live id := by
  induction hmoves with
  | refl => exact hid
  | @tail u v hfirst hmove ih =>
      intro hlive
      have hkept : id ∈ s.jobData → id ∈ u.jobData :=
        Systems.preserved (I := fun u => id ∈ u.jobData)
          (fun _ _ hmove hu => hmove.stored hdiscard hu) hfirst
      rcases hmove.live hlive with hold | ⟨r, -, hnew, rfl, rfl⟩
      · exact ih (fun hu => hstored (hmove.stored hdiscard hu)) hold
      · exact hnew (hkept (hstored (Finmap.mem_insert.mpr (.inl rfl))))

theorem Vacuuming.unlive
    {deletes : String → Prop}
    {s u : Store}
    (h : Vacuuming deletes s u)
    {id : String}
    (hid : ¬s.Live id) :
    ¬u.Live id := by
  unfold Store.Live at *
  rwa [h.activeJobs, h.scheduledJobs, h.inflightJobs]

/-- **A finished task stays finished** until it is stored anew. -/
theorem unlive_runOps
    {id : String} :
    ∀ (ops : List Op) (s : Store), NeverStoredAnew rt queue id ops s → ¬s.Live id →
      ¬(runOps rt queue ops s).Live id
  | [], _, _, hs => hs
  | op :: ops, s, hrun, hs => by
      refine unlive_runOps ops _ hrun.2 ?_
      cases op with
      | call c => exact unlive_of_moves (fun hd => hd) (moves_persistence rt queue [c] s) hs hrun.1
      | vacuum => exact (vacuum_vacuuming rt queue s).unlive hs
      | vacuumBefore seconds => exact (vacuumBefore_vacuuming rt queue seconds s).unlive hs

/-- What a fetch replies with was waiting. -/
theorem live_of_replied
    {now batchSize : Nat}
    {worker id : String}
    {s t : Store}
    {reply : FetchReply}
    (hrun : (fetchNextScript rt queue now batchSize worker).run s = (.ok reply, t))
    (hid : id ∈ reply.ids) :
    s.Live id := by
  have hactive := mem_activeJobs_of_replied hrun hid
  rw [activeJobs_promoted, List.mem_append] at hactive
  rcases hactive with hactive | hdue
  · exact .inl hactive
  · exact .inr (.inl (ZSet.mem_of_mem_rangeByScore hdue))

end Unfinished

section Retries

variable (rt : Runtime) (queue : String)

/-- The run stored the task with this `max_attempts`, and no vacuum has deleted
it since. -/
inductive PushedWith : List Op → String → Nat → Prop
  | push {before between : List Op} {ttl : Nat} {emitEvents : Bool} {pre post : List PushRecord}
      {counts : Nat × Nat} {u : Store} (r : PushRecord)
      (hreached : (pre.foldlM (pushTaskAt rt queue ttl emitEvents) (0, 0)).run
        (runOps rt queue before Store.empty) = (.ok counts, u))
      (haccepts : u.Accepts rt r)
      (hleaves : LeavingRun rt queue r.taskId between
        (runOps rt queue (before ++ [.call (.pushTasks ttl emitEvents (pre ++ r :: post))])
          Store.empty)) :
      PushedWith (before ++ .call (.pushTasks ttl emitEvents (pre ++ r :: post)) :: between)
        r.taskId r.maxAttempts

/-- No later fetch replies with the task, as long as it is not stored anew. -/
def NeverDelivered (id : String) (s : Store) : Prop :=
  ∀ later, NeverStoredAnew rt queue id later s →
    ∀ now batchSize worker reply t,
      (fetchNextScript rt queue now batchSize worker).run (runOps rt queue later s) =
        (.ok reply, t) →
      id ∉ reply.ids

/-- After the call that records the outcome, the task is dead for good if its
attempts are used up, and scheduled again otherwise. -/
def BoundsRetries (ops : List Op) (c : Call) (r : AckRecord) : Prop :=
  let t := runOps rt queue (ops ++ [.call c]) Store.empty
  ∀ maxAttempts, PushedWith rt queue ops r.taskId maxAttempts →
    (maxAttempts ≤ r.attempt →
      r.taskId ∈ t.deadJobs ∧ ¬t.Live r.taskId ∧ NeverDelivered rt queue r.taskId t) ∧
    (r.attempt < maxAttempts → r.taskId ∈ t.scheduledJobs)

variable {rt queue}

/-- A record is written when it and those before it are about held tasks. -/
theorem mem_honoured
    {held : Finset String}
    {written : List AckRecord}
    {r : AckRecord}
    (hheld : ∀ r' ∈ written ++ [r], r'.taskId ∈ held)
    (hnd : ((written ++ [r]).map AckRecord.taskId).Nodup)
    (rest : List AckRecord) :
    r ∈ honoured held (written ++ r :: rest) := by
  rw [List.append_cons, honoured_append hheld hnd]
  exact List.mem_append_left _ (List.mem_append_right _ (List.mem_singleton_self r))

/-- Where the batch leaves the unfinished tasks does not depend on the finished ones. -/
theorem unfinished_ackAll
    (worker : String)
    (emitEvents : Bool)
    (batch : List AckRecord) :
    ∀ {s s' : Store}, s'.unfinished = s.unfinished →
      (s'.ackAll queue worker emitEvents batch).unfinished =
        (s.ackAll queue worker emitEvents batch).unfinished := by
  induction batch with
  | nil => exact fun h => h
  | cons r rest ih =>
      intro s s' h
      refine ih ?_
      have hacked : ∀ u : Store, ((u.ack worker r).say emitEvents (r.channel queue)
          r.taskId).unfinished = (((u.unfinished).ack worker r).say emitEvents (r.channel queue)
            r.taskId).unfinished := fun u => rfl
      rw [hacked s', hacked s, h]

theorem Reflects.unlive
    {s : Store}
    {b : Board}
    (h : Reflects s b)
    {id : String}
    {p : Place}
    (hp : p.Final)
    (hid : b id = some p) :
    ¬s.Live id := by
  rintro (hactive | hscheduled | ⟨worker, hheld⟩)
  · rw [h.mem_active, hid] at hactive
    cases hactive
    exact hp
  · rw [h.mem_scheduled, hid] at hscheduled
    cases hscheduled
    exact hp
  · rw [h.mem_inflight, hid] at hheld
    cases hheld
    exact hp

/-- A task that is recorded as dead is not unfinished any more. -/
theorem unlive_of_dead
    {s : Store}
    (hs : ∃ b, Reflects s.unfinished b)
    (worker : String)
    (emitEvents : Bool)
    (batch : List AckRecord)
    {r : AckRecord}
    (hr : r ∈ honoured (s.inflightJobs worker) batch)
    (hdead : r.place = .dead) :
    ¬(((Call.handleResults worker emitEvents batch).exec rt queue).run s).2.Live r.taskId := by
  obtain ⟨b, hb⟩ := hs
  obtain ⟨b', -, hb'⟩ := reflects_run rt queue [.handleResults worker emitEvents batch] hb
  have hrun : ∀ u : Store, (((Call.handleResults worker emitEvents batch).exec rt queue).run u).2 =
      u.ackAll queue worker emitEvents (honoured (u.inflightJobs worker) batch) := fun u =>
    congrArg Prod.snd (run_handleResults queue worker emitEvents batch u)
  change Reflects ((((Call.handleResults worker emitEvents batch).exec rt queue).run
    s.unfinished).2) b' at hb'
  rw [hrun] at hb' ⊢
  have hplace := (recorded_ackAll queue worker emitEvents _ s.unfinished
    (holdsOnce_honoured worker batch s.unfinished) r hr).2.1
  rw [hdead, hb'.place] at hplace
  intro hlive
  have hsame : (s.unfinished.ackAll queue worker emitEvents
      (honoured (s.inflightJobs worker) batch)).unfinished =
        (s.ackAll queue worker emitEvents (honoured (s.inflightJobs worker) batch)).unfinished :=
    unfinished_ackAll worker emitEvents _ rfl
  change Store.Live (Store.unfinished _) r.taskId at hlive
  rw [← hsame] at hlive
  have hfinal : Place.Final .dead := trivial
  exact hb'.unlive hfinal hplace hlive

/-- Where the script puts a task that failed. -/
theorem failed_placed
    {s : Store}
    (hs : ∃ b, Reflects s.unfinished b)
    (worker : String)
    (emitEvents : Bool)
    {batch : List AckRecord}
    {r : AckRecord}
    (hr : r ∈ honoured (s.inflightJobs worker) batch)
    (hfailed : r.status = "Failed") :
    let t := (((Call.handleResults worker emitEvents batch).exec rt queue).run s).2
    (25 ≤ r.attempt → r.taskId ∈ t.deadJobs ∧ ¬t.Live r.taskId) ∧
      (r.attempt < 25 → r.taskId ∈ t.scheduledJobs) := by
  intro t
  have hplace : t.At r.taskId r.place := by
    have hrun : t = s.ackAll queue worker emitEvents (honoured (s.inflightJobs worker) batch) :=
      congrArg Prod.snd (run_handleResults queue worker emitEvents batch s)
    rw [hrun]
    exact (recorded_ackAll queue worker emitEvents _ s (holdsOnce_honoured worker batch s) r hr).2.1
  refine ⟨fun hused => ?_, fun hleft => ?_⟩
  · have hdead : r.place = .dead := by
      simp [AckRecord.place, hfailed, hused]
    rw [hdead] at hplace
    exact ⟨hplace, unlive_of_dead hs worker emitEvents batch hr hdead⟩
  · have hscheduled : r.place = .scheduled := by
      simp [AckRecord.place, hfailed, hleft]
    rw [hscheduled] at hplace
    exact hplace

theorem neverDelivered_of_unlive
    {id : String}
    {s : Store}
    (hid : ¬s.Live id) :
    NeverDelivered rt queue id s := by
  intro later hlater now batchSize worker reply t hrun hreplied
  exact unlive_runOps queue later s hlater hid (live_of_replied queue hrun hreplied)

variable (rt queue)

/-- **When a failed acknowledgement follows `max_attempts`**: when the attempt is
on the same side of the task's limit as of 25. -/
theorem boundsRetries_iff
    (ops : List Op)
    (hspares : SparingRun rt queue ops Store.empty)
    (worker : String)
    (emitEvents : Bool)
    (written rest : List AckRecord)
    (r : AckRecord)
    (honce : (runOps rt queue ops Store.empty).HoldsOnce worker (written ++ [r]))
    (hfailed : r.status = "Failed") :
    BoundsRetries rt queue ops (.handleResults worker emitEvents (written ++ r :: rest)) r ↔
      ∀ maxAttempts, PushedWith rt queue ops r.taskId maxAttempts →
        (maxAttempts ≤ r.attempt ↔ 25 ≤ r.attempt) := by
  have hempty : ∃ b, Reflects Store.empty.unfinished b := reflects_empty.unfinished
  have hintact : Store.empty.Intact := fun id hlive => absurd hlive (Store.not_live_empty id)
  have hs := reflects_unfinished_runOps rt queue ops Store.empty hspares hintact hempty
  unfold BoundsRetries
  rw [runOps_append]
  generalize runOps rt queue ops Store.empty = s at honce hs ⊢
  obtain ⟨hburied, hretried⟩ := @failed_placed rt queue s hs worker emitEvents _ r
    (mem_honoured honce.1 honce.2 rest) hfailed
  refine forall₂_congr fun maxAttempts _ => ?_
  rcases Nat.lt_or_ge r.attempt 25 with hleft | hused
  · have hscheduled := hretried hleft
    constructor
    · rintro ⟨hexhausted, -⟩
      refine iff_of_false (fun hle => ?_) (Nat.not_le_of_lt hleft)
      exact (hexhausted hle).2.1 (.inr (.inl hscheduled))
    · intro h
      exact ⟨fun hle => absurd (h.mp hle) (Nat.not_le_of_lt hleft), fun _ => hscheduled⟩
  · obtain ⟨hdead, hunlive⟩ := hburied hused
    constructor
    · rintro ⟨-, hagain⟩
      exact iff_of_true (Nat.le_of_not_lt fun hlt => hunlive (.inr (.inl (hagain hlt)))) hused
    · intro h
      exact ⟨fun _ => ⟨hdead, hunlive, neverDelivered_of_unlive hunlive⟩,
        fun hlt => absurd (h.mpr hused) (Nat.not_le_of_lt hlt)⟩

variable {rt queue}

theorem PushedWith.mem
    {ops : List Op}
    {id : String}
    {maxAttempts : Nat}
    (h : PushedWith rt queue ops id maxAttempts) :
    ∃ ttl emitEvents batch, Op.call (.pushTasks ttl emitEvents batch) ∈ ops ∧
      ∃ r ∈ batch, r.taskId = id ∧ r.maxAttempts = maxAttempts := by
  cases h with
  | push r hreached haccepts hleaves =>
      exact ⟨_, _, _, List.mem_append_right _ List.mem_cons_self, r,
        List.mem_append_right _ List.mem_cons_self, rfl, rfl⟩

theorem sparingRun_calls :
    ∀ (calls : List Call) (s : Store), SparingRun rt queue (calls.map .call) s
  | [], _ => trivial
  | _ :: calls, _ => ⟨trivial, sparingRun_calls calls _⟩

end Retries

/-- A task is pushed, fails twice and is fetched for the third time. -/
def thirdTry (maxAttempts : Nat) : List Call :=
  [.pushTasks 0 true [⟨"t", .empty, 0, maxAttempts, ∅, 0, ""⟩], registerW,
    .fetchNext 12 10 "w", .handleResults "w" true [⟨"t", 13, "null", "Failed", 1⟩],
    .fetchNext 20 10 "w", .handleResults "w" true [⟨"t", 21, "null", "Failed", 2⟩],
    .fetchNext 30 10 "w"]

/-- It fails again. -/
def thirdFailure : AckRecord :=
  ⟨"t", 31, "null", "Failed", 3⟩

/-- With the default limit of 25 it is scheduled again. -/
theorem bounds_default_limit :
    BoundsRetries (.ascending none) "q" ((thirdTry 25).map .call)
      (.handleResults "w" true [thirdFailure]) thirdFailure := by
  have honce : (runOps (.ascending none) "q" ((thirdTry 25).map .call) Store.empty).HoldsOnce "w"
      [thirdFailure] := by
    unfold Store.HoldsOnce
    decide +kernel
  refine (boundsRetries_iff (.ascending none) "q" ((thirdTry 25).map .call)
    (sparingRun_calls _ _) "w" true [] [] thirdFailure honce rfl).mpr fun maxAttempts hpushed => ?_
  obtain ⟨ttl, emitEvents, batch, hmem, r, hr, -, hmax⟩ := hpushed.mem
  obtain ⟨-, -, hbatch⟩ : ttl = 0 ∧ emitEvents = true ∧
      batch = [⟨"t", .empty, 0, 25, ∅, 0, ""⟩] := by
    simpa [thirdTry, registerW] using hmem
  rw [hbatch, List.mem_singleton] at hr
  subst hr
  rw [← hmax]

/-- With a limit of three it is scheduled again as well. -/
theorem exceeds_small_limit :
    SparingRun (.ascending none) "q" ((thirdTry 3).map .call) Store.empty ∧
      (runOps (.ascending none) "q" ((thirdTry 3).map .call) Store.empty).HoldsOnce "w"
        [thirdFailure] ∧
      thirdFailure.status = "Failed" ∧
      ¬BoundsRetries (.ascending none) "q" ((thirdTry 3).map .call)
        (.handleResults "w" true [thirdFailure]) thirdFailure := by
  refine ⟨sparingRun_calls _ _, ?_, rfl, fun h => ?_⟩
  · unfold Store.HoldsOnce
    decide +kernel
  · have haccepts : Store.empty.Accepts (.ascending none) ⟨"t", .empty, 0, 3, ∅, 0, ""⟩ := by
      unfold Store.Accepts
      decide +kernel
    have hpushed : PushedWith (.ascending none) "q" ((thirdTry 3).map .call) "t" 3 :=
      @PushedWith.push (.ascending none) "q" [] (((thirdTry 3).drop 1).map .call) 0 true [] []
        (0, 0) Store.empty ⟨"t", .empty, 0, 3, ∅, 0, ""⟩ rfl haccepts (leavingRun_calls _ _ _ _)
    have hdead := ((h 3 hpushed).1 (Nat.le_refl 3)).1
    revert hdead
    decide +kernel

end ApalisRedis
