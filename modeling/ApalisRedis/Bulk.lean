import ApalisRedis.Enqueue

/-!
# Moves of whole collections

The promotion of the due tasks, the recovery of an expired worker and the release
of everything that a worker holds each hand a whole collection to `unpack`.  Lua
raises when that is more than its stack takes.

**Results.**
* `bulk_completes_iff`: when such a move is made in full.
* `backlog_not_promoted`: a backlog that no fetch of any size gets through.
-/

namespace ApalisRedis

open Lua Redis Script

/-- `LUAI_MAXCSTACK` of Lua 5.1, as the most values that `unpack` returns.  (The table
that it unpacks is on its stack, too, so that Lua gives up one value before that.) -/
def luaiMaxCStack : Nat := 8000

section Bulk

variable (rt : Runtime) (queue : String)

/-- The call moves a collection that its arguments do not bound. -/
def Call.Bulk : Call → Store → Prop
  | .fetchNext _ batchSize worker, s =>
      worker ∈ s.workers ∧ 0 < batchSize ∧ batchSize < luaiMaxCStack
  | .releaseLeases _ _ jobIds, _ => jobIds = []
  | .reenqueueOrphaned _ _, _ => True
  | _, _ => False

/-- The whole move, with the number of tasks that the script replies with. -/
def Call.MovesAll : Call → Store → Nat → Store → Prop
  | .fetchNext now batchSize worker, s, n, t =>
      let waiting := s.activeJobs ++ s.due now
      n = (waiting.take batchSize).length ∧
        t.activeJobs = waiting.drop batchSize ∧
        t.scheduledJobs = Hash.eraseAll s.scheduledJobs (s.due now) ∧
        t.inflightJobs = Function.update s.inflightJobs worker
          (s.inflightJobs worker ∪ (waiting.take batchSize).toFinset)
  | .releaseLeases worker _ _, s, n, t =>
      n = (s.held rt worker).length ∧
        t.activeJobs = s.activeJobs ++ s.held rt worker ∧
        t.inflightJobs = Function.update s.inflightJobs worker ∅
  | .reenqueueOrphaned cutoff only, s, n, t =>
      let workers := s.expired cutoff only
      n = (workers.flatMap (s.held rt)).length ∧
        t.activeJobs = s.activeJobs ++ workers.flatMap (s.held rt) ∧
        t.workers = Hash.eraseAll s.workers workers ∧
        t.inflightJobs = fun v => if v ∈ workers then ∅ else s.inflightJobs v
  | _, _, _, _ => True

/-- The script raises nothing and makes the whole move. -/
def Call.Completes (c : Call) (s : Store) : Prop :=
  ∃ n, ((c.exec rt queue).run s).1 = .ok n ∧
    c.MovesAll rt s n ((c.exec rt queue).run s).2

/-- Each collection that the call hands to `unpack` is within Lua's limit. -/
def Call.WithinLimit : Call → Store → Prop
  | .fetchNext now _ _, s => (s.due now).length ≤ luaiMaxCStack
  | .releaseLeases worker _ _, s => (s.inflightJobs worker).card ≤ luaiMaxCStack
  | .reenqueueOrphaned cutoff only, s =>
      ∀ v ∈ s.expired cutoff only, (s.inflightJobs v).card ≤ luaiMaxCStack
  | _, _ => True

variable {rt}

theorem fits_iff
    (hlimit : rt.unpackLimit = some luaiMaxCStack)
    (n : Nat) :
    rt.Fits n ↔ n ≤ luaiMaxCStack := by
  constructor
  · exact fun hfits => hfits _ hlimit
  · intro hle limit hl
    rw [hlimit] at hl
    cases hl
    exact hle

variable (rt)

theorem length_held
    (s : Store)
    (worker : String) :
    (s.held rt worker).length = (s.inflightJobs worker).card := by
  have hset : (s.held rt worker).toFinset = s.inflightJobs worker := by
    ext id
    rw [List.mem_toFinset]
    exact rt.mem_members
  rw [← hset]
  exact (List.toFinset_card_of_nodup (rt.nodup_members _)).symm

/-- A fetch takes the first tasks of the active list. -/
theorem front_eq_take
    {batchSize : Nat}
    (hbatch : 0 < batchSize)
    (s : Store) :
    s.front batchSize = s.activeJobs.take batchSize := by
  have hstop : (fromEnd s.activeJobs.length ((batchSize : Int) - 1) + 1).toNat = batchSize := by
    unfold fromEnd
    split <;> omega
  rw [Store.front, slice_zero, hstop]

theorem scheduledJobs_promoted
    (now : Nat)
    (s : Store) :
    (s.promoted now).scheduledJobs = Hash.eraseAll s.scheduledJobs (s.due now) := by
  unfold Store.promoted
  split
  · simp [*, Hash.eraseAll]
  · rfl

theorem completes_fetchNext_iff
    (hlimit : rt.unpackLimit = some luaiMaxCStack)
    (now batchSize : Nat)
    (worker : String)
    (s : Store)
    (hbulk : (Call.fetchNext now batchSize worker).Bulk s) :
    (Call.fetchNext now batchSize worker).Completes rt queue s ↔
      (s.due now).length ≤ luaiMaxCStack := by
  obtain ⟨hworker, hpos, hbatch⟩ := hbulk
  have hexec : ((Call.fetchNext now batchSize worker).exec rt queue).run s =
      (((fetchNextScript rt queue now batchSize worker).run s).1.map (·.1.length),
        ((fetchNextScript rt queue now batchSize worker).run s).2) := by
    rw [Call.exec, run_map]
    rcases (fetchNextScript rt queue now batchSize worker).run s with ⟨e | reply, t⟩ <;> rfl
  have hfront : (s.promoted now).front batchSize =
      (s.activeJobs ++ s.due now).take batchSize := by
    rw [front_eq_take hpos, activeJobs_promoted]
  have hfits : rt.Fits ((s.promoted now).front batchSize).length := by
    rw [fits_iff hlimit, hfront, List.length_take]
    omega
  unfold Call.Completes
  rw [hexec, fetchNextScript]
  rcases fetchNext_cases rt queue worker now batchSize s with
    ⟨hrefused, message, hrun⟩ | ⟨-, hstuck, -⟩ | ⟨⟨-, hdue⟩, -, hrun⟩
  · rw [hrun]
    refine iff_of_false ?_ fun hdue => hrefused ⟨hworker, (fits_iff hlimit _).mpr hdue⟩
    rintro ⟨n, hn, -⟩
    cases hn
  · exact absurd hfits hstuck
  · rw [hrun, hfront]
    refine iff_of_true ⟨_, rfl, ?_, ?_, ?_, ?_⟩ ((fits_iff hlimit _).mp hdue)
    · simp [Store.reply]
    · have hdrop : (s.promoted now).activeJobs.drop
          ((s.activeJobs ++ s.due now).take batchSize).length =
          (s.activeJobs ++ s.due now).drop batchSize := by
        rw [activeJobs_promoted, List.length_take]
        rcases Nat.le_total batchSize (s.activeJobs ++ s.due now).length with hle | hle
        · rw [min_eq_left hle]
        · rw [min_eq_right hle, List.drop_length, List.drop_eq_nil_of_le hle]
      exact hdrop
    · exact scheduledJobs_promoted now s
    · simp only [Store.quiet, Store.deliver, inflightJobs_promoted]

theorem completes_releaseLeases_iff
    (hlimit : rt.unpackLimit = some luaiMaxCStack)
    (worker : String)
    (emitEvents : Bool)
    (s : Store) :
    (Call.releaseLeases worker emitEvents []).Completes rt queue s ↔
      (s.inflightJobs worker).card ≤ luaiMaxCStack := by
  have hrun := run_releaseAll rt queue worker emitEvents s
  have hexec : (Call.releaseLeases worker emitEvents []).exec rt queue =
      releaseAll rt (Keys.inflightSetFor queue worker) (Keys.jobMetaHash queue)
        (Keys.activeJobsList queue) emitEvents >>= (fun reenqueued => do
          if 0 < reenqueued then
            setSignal (Keys.signalList queue)
          pure reenqueued) := rfl
  rw [← length_held rt, ← fits_iff hlimit]
  unfold Call.Completes
  rw [hexec]
  split at hrun
  · next hfits =>
      refine iff_of_true ?_ hfits
      have hall : s.inflightJobs worker \ (s.held rt worker).toFinset = ∅ := by
        rw [Finset.sdiff_eq_empty_iff_subset]
        exact fun id hid => List.mem_toFinset.mpr (rt.mem_members.mpr hid)
      rw [run_bind_ok hrun]
      have hmoved : ∀ t : Store,
          t.activeJobs = s.activeJobs ++ s.held rt worker →
          t.inflightJobs = Function.update s.inflightJobs worker
            (s.inflightJobs worker \ (s.held rt worker).toFinset) →
          (Call.releaseLeases worker emitEvents []).MovesAll rt s (s.held rt worker).length t :=
        fun t hactive hinflight => ⟨rfl, hactive, hall ▸ hinflight⟩
      split
      · rw [run_bind_ok (run_setSignal queue _)]
        exact ⟨_, rfl, hmoved _ rfl rfl⟩
      · exact ⟨_, rfl, hmoved _ rfl rfl⟩
  · next hstuck =>
      rw [run_bind_error hrun]
      refine iff_of_false ?_ hstuck
      rintro ⟨n, hn, -⟩
      cases hn

theorem completes_reenqueueOrphaned_iff
    (hlimit : rt.unpackLimit = some luaiMaxCStack)
    (cutoff : Nat)
    (only : Option String)
    (s : Store) :
    (Call.reenqueueOrphaned cutoff only).Completes rt queue s ↔
      ∀ v ∈ s.expired cutoff only, (s.inflightJobs v).card ≤ luaiMaxCStack := by
  have hcards : (∀ v ∈ s.expired cutoff only, (s.inflightJobs v).card ≤ luaiMaxCStack) ↔
      ∀ v ∈ s.expired cutoff only, rt.Fits (s.held rt v).length :=
    forall₂_congr fun v _ => by rw [fits_iff hlimit, length_held]
  rw [hcards]
  unfold Call.Completes
  rw [Call.exec, reenqueueOrphanedScript]
  rcases reenqueueOrphaned_cases rt queue cutoff only s with
    ⟨hall, hreached, hrun⟩ | ⟨hstuck, hrun⟩
  · have hrecovered := recoverAll_eq rt _ (nodup_expired cutoff only s) s
    rw [hrun, hreached, hrecovered]
    refine iff_of_true ⟨_, rfl, rfl, ?_⟩ hall
    dsimp only
    split <;> exact ⟨rfl, rfl, rfl⟩
  · rw [hrun]
    refine iff_of_false ?_ hstuck
    rintro ⟨n, hn, -⟩
    cases hn

/-- **When a bulk move is made in full**: in every state of a run, exactly when
each collection that it hands to `unpack` is within the limit of Lua's stack. -/
theorem bulk_completes_iff
    (hlimit : rt.unpackLimit = some luaiMaxCStack)
    (calls : List Call)
    (c : Call)
    (hbulk : c.Bulk (run rt queue calls Store.empty)) :
    c.Completes rt queue (run rt queue calls Store.empty) ↔
      c.WithinLimit (run rt queue calls Store.empty) := by
  generalize run rt queue calls Store.empty = s at hbulk ⊢
  cases c with
  | fetchNext now batchSize worker =>
      exact completes_fetchNext_iff rt queue hlimit now batchSize worker s hbulk
  | releaseLeases worker emitEvents jobIds =>
      obtain rfl : jobIds = [] := hbulk
      exact completes_releaseLeases_iff rt queue hlimit worker emitEvents s
  | reenqueueOrphaned cutoff only =>
      exact completes_reenqueueOrphaned_iff rt queue hlimit cutoff only s
  | _ => exact hbulk.elim

end Bulk

section Backlog

variable {core : Core}

/-- A batch of tasks with new ids and without idempotency keys is newly accepted. -/
theorem newlyAccepted_eq_self
    (ttl : Nat)
    (subs : List (Submission core)) :
    ∀ {s : Store}, (subs.map Submission.id).Nodup →
      (∀ sub ∈ subs, sub.record.idempotencyKey = "" ∧ sub.id ∉ s.jobData) →
      s.newlyAccepted ttl subs = subs := by
  induction subs with
  | nil => exact fun _ _ => rfl
  | cons sub subs ih =>
      intro s hnd hnew
      obtain ⟨hid, hids⟩ := List.nodup_cons.mp hnd
      obtain ⟨hkey, hfresh⟩ := hnew sub List.mem_cons_self
      have hfree : s.KeyFree sub.record := by
        intro hlen
        rw [hkey] at hlen
        cases hlen
      rw [Store.newlyAccepted, if_pos ⟨hfree, hfresh⟩]
      refine congrArg (sub :: ·) (ih hids fun sub' hsub' => ?_)
      obtain ⟨hkey', hfresh'⟩ := hnew sub' (List.mem_cons_of_mem _ hsub')
      refine ⟨hkey', fun hmem => ?_⟩
      rcases Finmap.mem_insert.mp hmem with heq | hmem
      · exact hid (List.mem_map.mpr ⟨sub', hsub', heq⟩)
      · exact hfresh' hmem

/-- Every task of such a batch that is due is promoted at once. -/
theorem length_le_due
    (rt : Runtime)
    (queue : String)
    (ttl : Nat)
    (emitEvents : Bool)
    (subs : List (Submission core))
    (hnd : (subs.map Submission.id).Nodup)
    (hnew : ∀ sub ∈ subs, sub.record.idempotencyKey = "")
    (hfits : ∀ sub ∈ subs, rt.Fits (2 * (pushMeta rt sub.record).length))
    (now : Nat)
    (hdue : ∀ sub ∈ subs, 0 < sub.record.scheduleTime ∧ sub.record.scheduleTime ≤ now) :
    subs.length ≤ ((run rt queue [.submit ttl emitEvents subs] Store.empty).due now).length := by
  have haccepted : Store.empty.newlyAccepted ttl subs = subs :=
    newlyAccepted_eq_self ttl subs hnd fun sub hsub => ⟨hnew sub hsub, Finmap.notMem_empty⟩
  have hscheduled : scheduled subs = subs :=
    List.filter_eq_self.mpr fun sub hsub => by simpa using (hdue sub hsub).1
  have hpush := run_pushBatch rt queue ttl emitEvents subs Store.empty
  rw [haccepted] at hpush
  rcases hpush with ⟨-, t, hplaced, hrun⟩ | ⟨hstuck, -⟩
  · have hentries := hplaced.scheduledJobs
    rw [hscheduled] at hentries
    have hjobs : (run rt queue [.submit ttl emitEvents subs] Store.empty).scheduledJobs =
        Hash.setAll ∅ (subs.map fun sub => (sub.id, sub.record.scheduleTime)) := by
      refine Eq.trans ?_ hentries
      change ((Call.submit ttl emitEvents subs).exec rt queue |>.run Store.empty).2.scheduledJobs
        = _
      rw [Call.submit, Call.exec, run_map_snd, hrun]
      dsimp only
      split <;> rfl
    have hsub : subs.map Submission.id ⊆
        (run rt queue [.submit ttl emitEvents subs] Store.empty).due now := by
      intro id hid
      obtain ⟨sub, hsub, rfl⟩ := List.mem_map.mp hid
      rw [Store.due, ZSet.mem_rangeByScore, hjobs]
      have hentry : (sub.id, sub.record.scheduleTime) ∈
          subs.map fun sub => (sub.id, sub.record.scheduleTime) :=
        List.mem_map_of_mem hsub
      refine ⟨sub.record.scheduleTime, ?_, Nat.zero_le _, (hdue sub hsub).2⟩
      exact Hash.lookup_setAll_of_mem _ (by rwa [List.map_map]) hentry ∅
    rw [← List.length_map Submission.id]
    exact (List.subperm_of_subset hnd hsub).length_le
  · exact absurd hfits hstuck

end Backlog

/-- Registering enters the worker and leaves the scheduled tasks. -/
theorem registered_after
    (rt : Runtime)
    (queue : String)
    (now : Nat)
    (worker : String)
    (threshold : Nat)
    (backendName service : String)
    (s : Store) :
    let t := run rt queue [.registerWorker now worker threshold backendName service] s
    worker ∈ t.workers ∧ t.scheduledJobs = s.scheduledJobs := by
  intro t
  have ht : t = ((registerWorkerScript queue now worker threshold backendName service).run
      s).2 := run_map_snd _ _ _
  rw [ht, registerWorkerScript, run_registerWorker]
  split
  · next hactive =>
      obtain ⟨lastSeen, hseen, -⟩ := hactive
      exact ⟨Finmap.mem_of_lookup_eq_some hseen, rfl⟩
  · exact ⟨Finmap.mem_insert.mpr (.inl rfl), rfl⟩

/-- Tasks with different ids, all pushed at the instant 11. -/
def backlog (n : Nat) : List (Submission Core.text) :=
  (List.range n).map fun i => plainPush i.repr ∅

theorem nodup_backlog (n : Nat) : ((backlog n).map Submission.id).Nodup := by
  rw [backlog, List.map_map]
  exact List.nodup_range.map Rust.repr_injective

/-- The queue after a backlog was pushed and a worker registered. -/
def backlogged (n : Nat) : Store :=
  run (.ascending (some luaiMaxCStack)) Config.default.queue
    [.submit 0 true (backlog n), registerW] Store.empty

/-- The worker is registered, and the whole backlog is due. -/
theorem due_backlogged (n : Nat) :
    "w" ∈ (backlogged n).workers ∧ n ≤ ((backlogged n).due 12).length := by
  have hsplit : backlogged n = run (.ascending (some luaiMaxCStack)) Config.default.queue
      [registerW] (run (.ascending (some luaiMaxCStack)) Config.default.queue
        [.submit 0 true (backlog n)] Store.empty) := rfl
  obtain ⟨hworker, hjobs⟩ := registered_after (.ascending (some luaiMaxCStack))
    Config.default.queue 10 "w" 300 "RedisStorage" ""
    (run (.ascending (some luaiMaxCStack)) Config.default.queue
      [.submit 0 true (backlog n)] Store.empty)
  have hplain : ∀ sub ∈ backlog n, ∃ i : Nat, plainPush i.repr ∅ = sub := by
    intro sub hsub
    obtain ⟨i, -, hi⟩ := List.mem_map.mp hsub
    exact ⟨i, hi⟩
  have hle := length_le_due (.ascending (some luaiMaxCStack)) Config.default.queue 0 true
    (backlog n) (nodup_backlog n) ?_ ?_ 12 ?_
  · rw [hsplit]
    refine ⟨hworker, ?_⟩
    rw [backlog, List.length_map, List.length_range] at hle
    exact hle.trans (congrArg (fun jobs => (jobs.rangeByScore 0 12).length) hjobs).ge
  · intro sub hsub
    obtain ⟨i, rfl⟩ := hplain sub hsub
    rfl
  · intro sub hsub
    obtain ⟨i, rfl⟩ := hplain sub hsub
    have hlength : (pushMeta (.ascending (some luaiMaxCStack))
        (plainPush i.repr ∅).record).length = 4 := rfl
    rw [hlength, fits_iff rfl]
    decide
  · intro sub hsub
    obtain ⟨i, rfl⟩ := hplain sub hsub
    change 0 < 11 ∧ 11 ≤ 12
    decide

theorem bulk_backlogged (n : Nat) :
    (Call.fetchNext 12 10 "w").Bulk (backlogged n) :=
  ⟨(due_backlogged n).1, by decide, by decide⟩

/-- A small backlog is promoted. -/
theorem small_backlog_promoted :
    (Call.fetchNext 12 10 "w").Completes (.ascending (some luaiMaxCStack)) Config.default.queue
      (backlogged 3) := by
  refine (bulk_completes_iff _ _ rfl _ _ (bulk_backlogged 3)).mpr ?_
  change ((backlogged 3).due 12).length ≤ luaiMaxCStack
  decide +kernel

/-- A larger backlog than Lua's stack takes is not. -/
theorem not_completes_backlogged
    (n : Nat)
    (hlarge : luaiMaxCStack < n) :
    ¬(Call.fetchNext 12 10 "w").Completes (.ascending (some luaiMaxCStack))
      Config.default.queue (backlogged n) := by
  intro hcompletes
  have hwithin := (completes_fetchNext_iff _ _ rfl 12 10 "w" _ (bulk_backlogged n)).mp hcompletes
  have hdue := (due_backlogged n).2
  omega

/-- One task more than Lua's stack takes, and the fetch raises. -/
theorem backlog_not_promoted :
    (Call.fetchNext 12 10 "w").Bulk (backlogged 8001) ∧
      ¬(Call.fetchNext 12 10 "w").Completes (.ascending (some luaiMaxCStack))
        Config.default.queue (backlogged 8001) :=
  ⟨bulk_backlogged 8001, not_completes_backlogged 8001 (by decide)⟩

end ApalisRedis
