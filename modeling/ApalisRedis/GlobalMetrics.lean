import ApalisRedis.Lua.Overview
import ApalisRedis.Metrics
import Mathlib.Data.Finset.Preimage

/-!
# The statistics of all queues

`global` reads the names of the queues at `core:apalis:queues`, while workers
announce their queues at `core:apalis:queues:list`, and it passes the names as
keys, while the script reads its arguments.

**Results.**
* `registered_of_registers`: a registration enters its queue in the registry.
* `run_global`: whatever queues there are, all statistics are zero.
* `globalSums_iff`: they are the sums over the registered queues when these have
  no tasks.
-/

namespace ApalisRedis

open Lua Redis Script

/-- The key that `global` reads. -/
def globalQueues : String :=
  "core:apalis:queues"

/-- `global` -/
def RedisStorage.global (format2f : ℚ → String) (nan : String) (now : Nat) :
    Script Keyspace (List Statistic) := do
  let queues ← readAt .sortedSet globalQueues fun z => z.sorted.map fun e => (ofLex e).2
  overview format2f nan now queues []

/-- The registry has the queue. -/
def Keyspace.Registered (k : Keyspace) (queue : String) : Prop :=
  (Keys.workersSet queue).name ∈ (k.keys queuesList.name).asSortedSet

/-- The registered queues. -/
noncomputable def registeredQueues (k : Keyspace) : Finset String :=
  (k.keys queuesList.name).asSortedSet.keys.preimage (fun queue => (Keys.workersSet queue).name)
    workersSet_injective.injOn

theorem mem_registeredQueues
    {k : Keyspace}
    {queue : String} :
    queue ∈ registeredQueues k ↔ k.Registered queue := by
  rw [registeredQueues, Finset.mem_preimage, Finmap.mem_keys]
  rfl

/-- **A queue on which a worker has registered is in the registry.** -/
theorem registered_of_registers
    (k : Keyspace)
    (rt : Runtime)
    (queue : String)
    (now : Nat)
    (worker : String)
    (threshold : Nat)
    (backendName service : String)
    (hok : (((Call.registerWorker now worker threshold backendName service).exec rt queue).run
      (k.view queue)).1.isOk) :
    (k.exec rt queue (.call (.registerWorker now worker threshold backendName service))).Registered
      queue := by
  change _ ∈ ((k.exec rt queue _).view queue).queues
  rw [k.view_exec]
  change Except.isOk (((fun _ => 1) <$> registerWorkerScript queue now worker threshold backendName
    service).run (k.view queue)).1 = true at hok
  change _ ∈ (((fun _ => 1) <$> registerWorkerScript queue now worker threshold backendName
    service).run (k.view queue)).2.queues
  rw [run_map, registerWorkerScript, run_registerWorker] at hok
  rw [run_map_snd, registerWorkerScript, run_registerWorker]
  by_cases hactive : (k.view queue).StillActive now threshold worker
  · rw [if_pos hactive] at hok
    cases hok
  · rw [if_neg hactive]
    exact Finmap.mem_insert.mpr (.inl rfl)

/-- The statistics are the sums over the queues. -/
structure SumsQueues (k : Keyspace) (queues : Finset String) (stats : List Statistic) : Prop where
  running : ∃ n : String → Nat, (∀ queue ∈ queues, (k.view queue).RunningTotal (n queue)) ∧
    reported "RUNNING_JOBS" stats = some (toString (∑ queue ∈ queues, n queue)) ∧
    reported "TOTAL_JOBS" stats = some (toString (∑ queue ∈ queues,
      (n queue + (k.view queue).activeJobs.length + (k.view queue).doneJobs.card +
        (k.view queue).deadJobs.card)))
  pending : reported "PENDING_JOBS" stats =
    some (toString (∑ queue ∈ queues, (k.view queue).activeJobs.length))
  done : reported "DONE_JOBS" stats =
    some (toString (∑ queue ∈ queues, (k.view queue).doneJobs.card))
  failed : reported "FAILED_JOBS" stats =
    some (toString (∑ queue ∈ queues, (k.view queue).deadJobs.card))

/-- `global` succeeds, with the sums over exactly the registered queues. -/
def GlobalSums (format2f : ℚ → String) (nan : String) (now : Nat) (k : Keyspace) : Prop :=
  ∃ stats, ((RedisStorage.global format2f nan now).run k).1 = .ok stats ∧
    SumsQueues k (registeredQueues k) stats

/-- Nothing is to be counted. -/
structure Store.Taskless (s : Store) : Prop where
  active : s.activeJobs = []
  inflight : ∀ worker, s.inflightJobs worker = ∅
  done : s.doneJobs = ∅
  dead : s.deadJobs = ∅

/-- No queue has a key where `global` looks for the queues. -/
theorem Cell.name_ne_globalQueues
    (queue : String)
    (c : Cell) :
    c.name queue ≠ globalQueues := by
  intro h
  obtain ⟨word, hmem, hnew⟩ := c.exists_word
  have hwords : ∀ word ∈ globalQueues.toList.splitOn ':',
      word ∈ queuesList.name.toList.splitOn ':' := by
    decide +kernel
  refine hnew (hwords word ?_)
  rw [← h, c.toList_name, List.splitOn_append_cons_self]
  exact List.mem_append_right _ hmem

/-- Nor does any operation write there. -/
theorem execAll_globalQueues
    (rt : Runtime)
    (queue : String)
    (ops : List Op)
    (k : Keyspace) :
    (k.execAll rt queue ops).keys globalQueues = k.keys globalQueues :=
  execAll_foreign rt (Cell.name_ne_globalQueues queue) (by decide) ops k

/-- **Whatever is at the key that `global` reads, the statistics are those of no queue.** -/
theorem run_global
    {k : Keyspace}
    {z : ZSet}
    (hkey : Kind.sortedSet.unwrap (k.keys globalQueues) = some z)
    (format2f : ℚ → String)
    (nan : String)
    (now : Nat) :
    ∃ rate24h, (RedisStorage.global format2f nan now).run k =
      (.ok (Totals.zero.statistics format2f rate24h), k) := by
  have hnone : ∀ q ∈ ([] : List String), (⟨[], ∅, ∅, ∅⟩ : Contents).At k q := by simp
  obtain ⟨rate24h, hrun⟩ := @run_overview k now _ _ hnone format2f nan
    (z.sorted.map fun e => (ofLex e).2)
  refine ⟨rate24h, ?_⟩
  rw [RedisStorage.global, run_bind_ok (run_readAt_ok hkey _)]
  exact hrun

/-- Zeros are the sums when every term is zero. -/
theorem sumsQueues_zero_iff
    {k : Keyspace}
    {queues : Finset String}
    (format2f : ℚ → String)
    (rate24h : String) :
    SumsQueues k queues (Totals.zero.statistics format2f rate24h) ↔
      ∀ queue ∈ queues, (k.view queue).Taskless := by
  constructor
  · rintro ⟨⟨n, hn, hrunning, -⟩, hpending, hdone, hfailed⟩ queue hqueue
    have hzero : ∀ {f : String → Nat},
        some (toString 0) = some (toString (∑ queue ∈ queues, f queue)) → f queue = 0 :=
      fun h => Finset.sum_eq_zero_iff.mp (Rust.repr_injective (Option.some.inj h)).symm _ hqueue
    refine ⟨List.length_eq_zero_iff.mp (hzero hpending), fun worker => ?_,
      Finset.card_eq_zero.mp (hzero hdone), Finset.card_eq_zero.mp (hzero hfailed)⟩
    obtain ⟨workers, hcover, htotal⟩ := hn queue hqueue
    by_cases hworker : worker ∈ workers
    · rw [hzero hrunning] at htotal
      exact Finset.card_eq_zero.mp (Finset.sum_eq_zero_iff.mp htotal.symm _ hworker)
    · exact hcover worker hworker
  · intro hidle
    have hzero : ∀ {f : String → Nat}, (∀ queue ∈ queues, f queue = 0) →
        some (toString 0) = some (toString (∑ queue ∈ queues, f queue)) :=
      fun h => by rw [Finset.sum_eq_zero h]
    refine ⟨⟨fun _ => 0, fun queue hqueue => ?_, hzero fun _ _ => rfl,
        hzero fun queue hqueue => ?_⟩,
      hzero fun queue hqueue => ?_, hzero fun queue hqueue => ?_, hzero fun queue hqueue => ?_⟩
    · exact ⟨∅, fun worker _ => (hidle queue hqueue).inflight worker, rfl⟩
    · simp [(hidle queue hqueue).active, (hidle queue hqueue).done, (hidle queue hqueue).dead]
    · simp [(hidle queue hqueue).active]
    · simp [(hidle queue hqueue).done]
    · simp [(hidle queue hqueue).dead]

/-- **When `global` reports the sums over the registered queues**, in every state of
Redis: when none of them has an active, inflight, done or dead task, and where it looks
for the queues there is nothing but a sorted set. -/
theorem globalSums_iff
    (format2f : ℚ → String)
    (nan : String)
    (now : Nat)
    (k : Keyspace) :
    GlobalSums format2f nan now k ↔
      (Kind.sortedSet.unwrap (k.keys globalQueues)).isSome ∧
        ∀ queue, k.Registered queue → (k.view queue).Taskless := by
  simp only [← mem_registeredQueues]
  cases hkey : Kind.sortedSet.unwrap (k.keys globalQueues) with
  | none =>
      have hfails : ((RedisStorage.global format2f nan now).run k).1 = .error wrongType :=
        congrArg Prod.fst (run_bind_error (run_readAt_error hkey _) _)
      refine iff_of_false ?_ fun h => absurd h.1 (by simp)
      rintro ⟨stats, hok, -⟩
      cases hok.symm.trans hfails
  | some z =>
      obtain ⟨rate24h, hrun⟩ := run_global hkey format2f nan now
      rw [← sumsQueues_zero_iff format2f rate24h]
      constructor
      · rintro ⟨stats, hok, hsums⟩
        rw [hrun] at hok
        cases hok
        exact ⟨rfl, hsums⟩
      · rintro ⟨-, hsums⟩
        exact ⟨_, congrArg Prod.fst hrun, hsums⟩

/-- A worker registers and a task is pushed. -/
def registeredThenPushed : List Op :=
  [.call (.registerWorker 100 "w" 30 "RedisStorage" "tower"),
    .call (.pushTasks 60 false [⟨"t", "{}".toUTF8, 0, 3, ∅, 0, ""⟩])]

/-- The task is not counted. -/
theorem registeredThenPushed_not_summed :
    ¬GlobalSums (fun _ => "0.00") "-nan" 200
      (Keyspace.empty.execAll (.ascending none) "default" registeredThenPushed) := by
  rintro ⟨stats, hok, -, hpending, -, -⟩
  have hview : (Keyspace.empty.execAll (.ascending none) "default" registeredThenPushed).view
      "default" = runOps (.ascending none) "default" registeredThenPushed Store.empty :=
    view_execAll _ "default" registeredThenPushed Keyspace.empty
  have hregistered : (Keyspace.empty.execAll (.ascending none) "default"
      registeredThenPushed).Registered "default" := by
    change _ ∈ ((Keyspace.empty.execAll (.ascending none) "default" registeredThenPushed).view
      "default").queues
    rw [hview]
    decide +kernel
  have hlength : ((Keyspace.empty.execAll (.ascending none) "default" registeredThenPushed).view
      "default").activeJobs.length = 1 := by
    rw [hview]
    decide +kernel
  have habsent : Kind.sortedSet.unwrap ((Keyspace.empty.execAll (.ascending none) "default"
      registeredThenPushed).keys globalQueues) = some ∅ := by
    rw [execAll_globalQueues]
    rfl
  obtain ⟨rate24h, hrun⟩ := run_global habsent (fun _ => "0.00") "-nan" 200
  rw [hrun] at hok
  cases hok
  have hzero := Finset.sum_eq_zero_iff.mp (Rust.repr_injective (Option.some.inj hpending)).symm _
    (mem_registeredQueues.mpr hregistered)
  rw [hlength] at hzero
  cases hzero

end ApalisRedis
