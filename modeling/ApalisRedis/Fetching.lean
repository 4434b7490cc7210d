import ApalisRedis.Bulk

/-!
# What a fetch is to do

A fetch joins the due tasks, in the order of their times, to the tasks that wait,
and hands the first ones of them all to its worker.

**Results.**
* `fetchMeetsSpec_iff`: when `fetch_next.lua` does that.
-/

namespace ApalisRedis

open Lua Redis Script

/-- The scheduled tasks whose time has come, by time and then by id. -/
structure Store.DueInOrder (s : Store) (now : Nat) (due : List String) : Prop where
  mem_iff : ∀ id, id ∈ due ↔
    ∃ score, s.scheduledJobs.lookup id = some score ∧ 0 ≤ score ∧ score ≤ now
  ordered : due.Pairwise fun id id' => ∃ score score',
    s.scheduledJobs.lookup id = some score ∧ s.scheduledJobs.lookup id' = some score' ∧
      (score < score' ∨ score = score' ∧ id < id')

/-- The worker is handed these tasks; the due ones are not scheduled any more, and
the active list is `rest`. -/
structure Store.HandsOut (s t : Store) (worker : String) (due handed rest : List String) :
    Prop where
  activeJobs : t.activeJobs = rest
  inflightJobs : t.inflightJobs worker = s.inflightJobs worker ∪ handed.toFinset
  others : ∀ v, v ≠ worker → t.inflightJobs v = s.inflightJobs v
  scheduledJobs : ∀ id, t.scheduledJobs.lookup id =
    if id ∈ due then none else s.scheduledJobs.lookup id
  doneJobs : t.doneJobs = s.doneJobs
  deadJobs : t.deadJobs = s.deadJobs
  jobData : t.jobData = s.jobData
  jobMeta : t.jobMeta = s.jobMeta

section Fetching

variable (rt : Runtime) (queue : String)

/-- **What `fetch_next.lua` is to do.** -/
structure FetchMeetsSpec (now batchSize : Nat) (worker : String) (s : Store)
    (outcome : Except String FetchReply × Store) : Prop where
  refused : worker ∉ s.workers → (∃ e, outcome.1 = .error e) ∧ outcome.2 = s
  served : worker ∈ s.workers → ∀ due, s.DueInOrder now due →
    let waiting := s.activeJobs ++ due
    let handed := waiting.take (min batchSize waiting.length)
    s.HandsOut outcome.2 worker due handed (waiting.drop (min batchSize waiting.length)) ∧
      outcome.1 = .ok (handed.map s.jobData.lookup,
        handed.map fun id => id :: flatten (rt.fields (s.jobMeta id)))

theorem dueInOrder_due
    (now : Nat)
    (s : Store) :
    s.DueInOrder now (s.due now) := by
  refine ⟨fun id => ZSet.mem_rangeByScore, ?_⟩
  refine (ZSet.pairwise_rangeByScore s.scheduledJobs 0 now).imp ?_
  rintro id id' ⟨score, score', hscore, hscore', hlt⟩
  exact ⟨score, score', hscore, hscore', Prod.Lex.toLex_lt_toLex.mp hlt⟩

/-- There is one such order. -/
theorem Store.DueInOrder.eq_due
    {now : Nat}
    {s : Store}
    {due : List String}
    (h : s.DueInOrder now due) :
    due = s.due now := by
  have hdue := dueInOrder_due now s
  have hasymm : ∀ id id', (∃ score score', s.scheduledJobs.lookup id = some score ∧
      s.scheduledJobs.lookup id' = some score' ∧ (score < score' ∨ score = score' ∧ id < id')) →
      ¬∃ score score', s.scheduledJobs.lookup id' = some score ∧
        s.scheduledJobs.lookup id = some score' ∧
          (score < score' ∨ score = score' ∧ id' < id) := by
    rintro id id' ⟨score, score', hscore, hscore', hlt⟩ ⟨n', n, hn', hn, hgt⟩
    obtain rfl : score = n := Option.some.inj (hscore.symm.trans hn)
    obtain rfl : score' = n' := Option.some.inj (hscore'.symm.trans hn')
    rcases hlt with hlt | ⟨heq, hlt⟩ <;> rcases hgt with hgt | ⟨heq', hgt⟩
    · omega
    · omega
    · omega
    · exact lt_asymm hlt hgt
  have hnd : due.Nodup := h.ordered.imp fun {id id'} hlt heq => by
    subst heq
    exact hasymm id id hlt hlt
  have hperm : due.Perm (s.due now) :=
    (List.perm_ext_iff_of_nodup hnd (ZSet.nodup_rangeByScore _ _ _)).mpr fun id =>
      (h.mem_iff id).trans (hdue.mem_iff id).symm
  exact hperm.eq_of_pairwise (fun id id' _ _ hlt hgt => absurd hgt (hasymm id id' hlt))
    h.ordered hdue.ordered

/-- A fetch that is served hands out the front of what waits after the promotion. -/
theorem handsOut_deliver
    (now batchSize : Nat)
    (worker : String)
    (s : Store)
    {n : Nat}
    (hn : ((s.promoted now).front batchSize).length = n) :
    let handed := (s.promoted now).front batchSize
    s.HandsOut (((s.promoted now).deliver worker handed).quiet
        (decide (handed.length < batchSize)))
      worker (s.due now) handed ((s.activeJobs ++ s.due now).drop n) := by
  intro handed
  subst hn
  obtain ⟨hdone, hdead, hdata, hmeta⟩ := kept_promoted now s
  have hinflight := inflightJobs_promoted now s
  refine ⟨?_, ?_, fun v hv => ?_, fun id => ?_, hdone, hdead, hdata, hmeta⟩
  · change (s.promoted now).activeJobs.drop _ = _
    rw [activeJobs_promoted]
  · change Function.update (s.promoted now).inflightJobs worker _ worker = _
    rw [Function.update_self, hinflight]
  · change Function.update (s.promoted now).inflightJobs worker _ v = _
    rw [Function.update_of_ne hv, hinflight]
  · change (s.promoted now).scheduledJobs.lookup id = _
    rw [scheduledJobs_promoted, Hash.lookup_eraseAll]

end Fetching

/-- No task of a backlog is both active and scheduled. -/
theorem disjoint_backlogged
    (n : Nat) :
    ∀ id ∈ (backlogged n).activeJobs, id ∉ (backlogged n).scheduledJobs := by
  intro id hactive hscheduled
  obtain ⟨b, -, hb⟩ := reflects_run (.ascending (some luaiMaxCStack)) Config.default.queue
    [.submit 0 true (backlog n), registerW] reflects_empty
  change Reflects (backlogged n) b at hb
  rw [hb.mem_active] at hactive
  rw [hb.mem_scheduled, hactive] at hscheduled
  cases hscheduled

/-- With more due tasks than Lua's stack takes, the worker is handed nothing. -/
theorem not_meetsSpec_backlogged
    (n : Nat)
    (hlarge : luaiMaxCStack < n) :
    "w" ∈ (backlogged n).workers ∧
      (∀ id ∈ (backlogged n).activeJobs, id ∉ (backlogged n).scheduledJobs) ∧
      ¬FetchMeetsSpec (.ascending (some luaiMaxCStack)) 12 10 "w" (backlogged n)
        ((fetchNextScript (.ascending (some luaiMaxCStack)) Config.default.queue 12 10 "w").run
          (backlogged n)) := by
  obtain ⟨hworker, hdue⟩ := due_backlogged n
  refine ⟨hworker, disjoint_backlogged n, fun h => ?_⟩
  have hstuck : ¬(Runtime.ascending (some luaiMaxCStack)).Fits ((backlogged n).due 12).length := by
    rw [fits_iff rfl]
    omega
  obtain ⟨-, hreply⟩ := h.served hworker _ (dueInOrder_due 12 (backlogged n))
  rw [fetchNextScript, run_fetchNext, if_neg (not_not.mpr hworker), if_pos hstuck] at hreply
  cases hreply

end ApalisRedis
