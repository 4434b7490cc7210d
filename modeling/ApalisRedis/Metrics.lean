import ApalisRedis.Lua.OverviewByQueue
import Mathlib.Algebra.BigOperators.Group.Finset.Basic
import Mathlib.Algebra.Order.BigOperators.Group.Finset

/-!
# The statistics of a queue

`fetch_by_queue` names four keys to its script and passes no argument, though
the script reads the time from one.  Two of the keys hold sets where the script
expects sorted sets, and the inflight sets of the workers are at other keys.

**Results.**
* `counts_never_fetched`: in no state are the statistics fetched.
* `countsTasks_iff`: with a time, after any operations of the queue, the script
  counts the tasks when none is inflight, done or dead.
-/

namespace ApalisRedis

open Lua Redis Script

/-- The script at the keys that the client names. -/
def overviewOf (format2f : ℚ → String) (queue : String) (argv : Option Nat) :
    Script Keyspace (List Statistic) :=
  overviewByQueue format2f (queue ++ ":active") (queue ++ ":done") (queue ++ ":dead")
    (queue ++ ":inflight") argv

/-- `fetch_by_queue` -/
def RedisStorage.fetchByQueue (format2f : ℚ → String) (queue : String) :
    Script Keyspace (List Statistic) :=
  overviewOf format2f queue none

/-- `n` tasks are in the inflight sets of all workers. -/
def Store.RunningTotal (s : Store) (n : Nat) : Prop :=
  ∃ workers : Finset String, (∀ worker ∉ workers, s.inflightJobs worker = ∅) ∧
    n = ∑ worker ∈ workers, (s.inflightJobs worker).card

/-- The value under a title. -/
def reported (title : String) (stats : List Statistic) : Option String :=
  (stats.find? fun stat => stat.title = title).map Statistic.value

/-- The statistics are the sizes of the queue's list and sets. -/
structure CountsTasks (s : Store) (stats : List Statistic) : Prop where
  running : ∃ n, s.RunningTotal n ∧ reported "RUNNING_JOBS" stats = some (toString n) ∧
    reported "TOTAL_JOBS" stats = some (toString
      (n + s.activeJobs.length + s.doneJobs.card + s.deadJobs.card))
  pending : reported "PENDING_JOBS" stats = some (toString s.activeJobs.length)
  done : reported "DONE_JOBS" stats = some (toString s.doneJobs.card)
  failed : reported "FAILED_JOBS" stats = some (toString s.deadJobs.card)

/-- The script replies with the sizes. -/
def FetchesCounts (script : Script Keyspace (List Statistic)) (queue : String) (k : Keyspace) :
    Prop :=
  ∃ stats, (script.run k).1 = .ok stats ∧ CountsTasks (k.view queue) stats

/-- **In no state are the statistics fetched.** -/
theorem counts_never_fetched
    (format2f : ℚ → String)
    (queue : String)
    (k : Keyspace) :
    ¬FetchesCounts (RedisStorage.fetchByQueue format2f queue) queue k := by
  rintro ⟨stats, hrun, -⟩
  have hraises : ∃ e, (RedisStorage.fetchByQueue format2f queue).run k = (.error e, k) :=
    run_overviewByQueue_nil format2f k
  obtain ⟨e, herror⟩ := hraises
  rw [herror] at hrun
  cases hrun

/-- Not for the queue that nothing was pushed to either. -/
theorem empty_not_counted :
    ¬FetchesCounts (RedisStorage.fetchByQueue (fun _ => "0.00") Config.default.queue)
      Config.default.queue Keyspace.empty := by
  rintro ⟨stats, hrun, -⟩
  have herror : ((RedisStorage.fetchByQueue (fun _ => "0.00") Config.default.queue).run
      Keyspace.empty).1.isOk = false := by
    decide +kernel
  rw [hrun] at herror
  cases herror

section Timed

variable {queue : String}

/-- The prefix of the inflight sets' keys is no key of the queue. -/
theorem Cell.name_ne_inflight
    (queue : String)
    (c : Cell) :
    c.name queue ≠ queue ++ ":inflight" := by
  intro h
  have hchars := congrArg String.toList h
  rw [c.toList_name, String.toList_append, List.append_cancel_left_eq] at hchars
  have htail : c.tail = "inflight".toList := (List.cons.inj hchars).2
  cases c with
  | plain role => cases role <;> exact absurd htail (by decide)
  | indexed role suffix =>
      have hcolon : ':' ∈ Cell.tail (.indexed role suffix) := by simp [Cell.tail]
      rw [htail] at hcolon
      exact absurd hcolon (by decide)

theorem inflight_ne_queuesList
    (queue : String) :
    queue ++ ":inflight" ≠ queuesList.name := by
  intro h
  have hend := congrArg (fun name : String => name.toList.reverse.take 2) h
  simp [String.toList_append] at hend

/-- What the script finds at the keys that it is given. -/
structure OverviewKeys (queue : String) (s : Store) (k : Keyspace) : Prop where
  active : Kind.list.unwrap (k.keys (queue ++ ":active")) = some s.activeJobs
  done : Kind.sortedSet.unwrap (k.keys (queue ++ ":done")) =
    if s.doneJobs = ∅ then some ∅ else none
  dead : Kind.sortedSet.unwrap (k.keys (queue ++ ":dead")) =
    if s.deadJobs = ∅ then some ∅ else none
  inflight : Kind.set.unwrap (k.keys (queue ++ ":inflight")) = some ∅

/-- What a sorted-set command finds at a key of a plain set. -/
theorem unwrap_setCell
    {v : Value}
    {xs : Finset String}
    (htyped : v = .string none ∨ v = .set xs)
    (hxs : xs = v.asSet) :
    Kind.sortedSet.unwrap v = if xs = ∅ then some ∅ else none := by
  rcases htyped with rfl | rfl
  · rw [hxs]
    rfl
  · simp [Kind.sortedSet, Value.absent]

/-- Operations of the queue write plain sets, and nothing at the prefix. -/
theorem overviewKeys_execAll
    (rt : Runtime)
    (queue : String)
    (ops : List Op) :
    OverviewKeys queue (runOps rt queue ops Store.empty) (Keyspace.empty.execAll rt queue ops) := by
  have hinflight : Kind.set.unwrap ((Keyspace.empty.execAll rt queue ops).keys
      (queue ++ ":inflight")) = some ∅ := by
    rw [execAll_foreign rt (Cell.name_ne_inflight queue) (inflight_ne_queuesList queue)]
    rfl
  have hview : (Keyspace.empty.execAll rt queue ops).view queue =
      runOps rt queue ops Store.empty :=
    view_execAll rt queue ops Keyspace.empty
  have htyped := typedFor_execAll rt queue ops
  rw [← hview]
  generalize Keyspace.empty.execAll rt queue ops = k at htyped hinflight ⊢
  refine ⟨?_, unwrap_setCell (htyped (.plain .done)) rfl,
    unwrap_setCell (htyped (.plain .dead)) rfl, hinflight⟩
  change Kind.list.unwrap (k.keys ((Cell.plain .active).name queue)) =
    some (k.keys ((Cell.plain .active).name queue)).asList
  rcases htyped (.plain .active) with hkey | hkey <;> rw [hkey] <;> rfl

/-- With keys of other types the script raises; else it counts no task but the active ones. -/
theorem run_overviewOf
    {s : Store}
    {k : Keyspace}
    (hkeys : OverviewKeys queue s k)
    (format2f : ℚ → String)
    (now : Nat) :
    (overviewOf format2f queue (some now)).run k =
      (if s.doneJobs = ∅ ∧ s.deadJobs = ∅ then
        .ok ((Counts.at now s.activeJobs ∅ ∅ ∅).statistics format2f)
      else .error wrongType, k) := by
  obtain ⟨hactive, hdone, hdead, hinflight⟩ := hkeys
  by_cases hempty : s.doneJobs = ∅ ∧ s.deadJobs = ∅
  · rw [if_pos hempty]
    rw [if_pos hempty.1] at hdone
    rw [if_pos hempty.2] at hdead
    exact run_overviewByQueue format2f hactive hdone hdead hinflight now
  · rw [if_neg hempty]
    refine run_overviewByQueue_wrongType format2f (some now) hactive ?_
    rcases not_and_or.mp hempty with h | h
    · exact .inl (by rw [hdone, if_neg h])
    · exact .inr (by rw [hdead, if_neg h])

/-- **When the script counts the tasks, given a time**: when none is inflight, done or dead. -/
theorem countsTasks_iff
    (rt : Runtime)
    (format2f : ℚ → String)
    (queue : String)
    (now : Nat)
    (ops : List Op) :
    FetchesCounts (overviewOf format2f queue (some now)) queue
        (Keyspace.empty.execAll rt queue ops) ↔
      (∀ worker, (runOps rt queue ops Store.empty).inflightJobs worker = ∅) ∧
        (runOps rt queue ops Store.empty).doneJobs = ∅ ∧
        (runOps rt queue ops Store.empty).deadJobs = ∅ := by
  let s := runOps rt queue ops Store.empty
  have hview : (Keyspace.empty.execAll rt queue ops).view queue = s :=
    view_execAll rt queue ops Keyspace.empty
  have hrun := run_overviewOf (overviewKeys_execAll rt queue ops) format2f now
  unfold FetchesCounts
  rw [hview, hrun]
  change _ ↔ (∀ worker, s.inflightJobs worker = ∅) ∧ s.doneJobs = ∅ ∧ s.deadJobs = ∅
  constructor
  · rintro ⟨stats, hok, ⟨n, ⟨workers, hcover, htotal⟩, hrunning, -⟩, -⟩
    by_cases hempty : s.doneJobs = ∅ ∧ s.deadJobs = ∅
    · refine ⟨fun worker => ?_, hempty⟩
      rw [if_pos hempty] at hok
      cases hok
      have hzero : 0 = n := Rust.repr_injective (Option.some.inj hrunning)
      by_cases hworker : worker ∈ workers
      · have hcards := Finset.sum_eq_zero_iff.mp (htotal.symm.trans hzero.symm)
        exact Finset.card_eq_zero.mp (hcards worker hworker)
      · exact hcover worker hworker
    · rw [if_neg hempty] at hok
      cases hok
  · rintro ⟨hinflight, hdone, hdead⟩
    refine ⟨_, if_pos ⟨hdone, hdead⟩, ⟨0, ⟨∅, fun worker _ => hinflight worker, rfl⟩, rfl, ?_⟩,
      rfl, ?_, ?_⟩
    · rw [hdone, hdead, Nat.zero_add]
      rfl
    · rw [hdone]
      rfl
    · rw [hdead]
      rfl

end Timed

end ApalisRedis
