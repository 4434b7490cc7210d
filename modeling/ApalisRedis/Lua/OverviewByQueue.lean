import ApalisRedis.RawKeys
import Mathlib.Data.Rat.Defs

/-!
# `overview_by_queue.lua`

The statistics of a queue.  The script is given four keys, counts what is at
them, and looks back from the time that it is given.

**Results.**
* `run_overviewByQueue_nil`: without a time the script raises.
* `run_overviewByQueue`: with a time, and keys of the types that it expects.
-/

namespace ApalisRedis
namespace Lua

open Redis Script

/-- `StatType` of `apalis_core`. -/
inductive StatType where
  | number
  | percentage
  | timestamp
  | decimal
deriving DecidableEq

/-- `Statistic` of `apalis_core`. -/
structure Statistic where
  title : String
  statType : StatType
  value : String
  priority : Nat
deriving DecidableEq

/-- `ZCOUNT key lo hi` -/
def zcount (lo hi : Int) (z : ZSet) : Nat :=
  z.sorted.countP fun p => decide (lo ≤ (ofLex p).1 ∧ ((ofLex p).1 : Int) ≤ hi)

/-- The score that `ZREVRANGE key 0 0 WITHSCORES` replies with. -/
def recent (z : ZSet) : Option Nat :=
  z.sorted.getLast?.map fun p => (ofLex p).1

/-- The replies that the statistics are made of. -/
structure Counts where
  active : Nat
  done : Nat
  failed : Nat
  inflight : Nat
  done1h : Nat
  failed1h : Nat
  done24h : Nat
  failed24h : Nat
  failed7d : Nat
  recentDone : Option Nat
  recentFailed : Option Nat

/-- `(part / whole) * 100`, if there is anything to divide by. -/
def rate (part whole : Nat) : ℚ :=
  if whole > 0 then part / whole * 100 else 0

namespace Counts

variable (c : Counts)

def totalJobs : Nat :=
  c.active + c.done + c.failed + c.inflight

/-- The later one of the two most recent tasks. -/
def mostRecentTs : Nat :=
  let ts := c.recentDone.getD 0
  match c.recentFailed with
  | some failed => if failed > ts then failed else ts
  | none => ts

/-- The rows that are pushed; `format2f` is `string.format("%.2f", x)`.  Lua
prints a whole number below `10^14` with all its digits. -/
def statistics (format2f : ℚ → String) : List Statistic :=
  let total24h := c.done24h + c.failed24h
  [⟨"RUNNING_JOBS", .number, toString c.inflight, 1⟩,
    ⟨"PENDING_JOBS", .number, toString c.active, 2⟩,
    ⟨"FAILED_JOBS", .number, toString c.failed, 3⟩,
    ⟨"DONE_JOBS", .number, toString c.done, 4⟩,
    ⟨"TOTAL_JOBS", .number, toString c.totalJobs, 5⟩,
    ⟨"SUCCESS_RATE", .percentage, format2f (rate c.done (c.done + c.failed)), 6⟩,
    ⟨"FAILURE_RATE", .percentage, format2f (rate c.failed (c.done + c.failed)), 7⟩,
    ⟨"MOST_RECENT_JOB", .timestamp, toString c.mostRecentTs, 8⟩,
    ⟨"JOBS_PAST_HOUR", .number, toString (c.done1h + c.failed1h), 9⟩,
    ⟨"JOBS_PAST_24_HOURS", .number, toString total24h, 10⟩,
    ⟨"FAILED_JOBS_PAST_7_DAYS", .number, toString c.failed7d, 11⟩,
    ⟨"SUCCESS_RATE_PAST_24H", .percentage, format2f (rate c.done24h total24h), 12⟩,
    ⟨"AVG_JOBS_PER_HOUR_PAST_24H", .decimal, format2f (total24h / 24), 13⟩]

end Counts

/-- The first subtraction from a local that may be nil. -/
def arithmeticOn : Option Nat → Script Keyspace Nat
  | some now => pure now
  | none => raise "attempt to perform arithmetic on local 'now' (a nil value)"

section Overview

variable (format2f : ℚ → String) (active done dead inflight : String) (argv : Option Nat)

/-- `overview_by_queue.lua`: `argv` is `tonumber(ARGV[1])`. -/
def overviewByQueue : Script Keyspace (List Statistic) := do
  let activeCount ← readAt .list active List.length
  let doneCount ← readAt .sortedSet done fun z => z.keys.card
  let failedCount ← readAt .sortedSet dead fun z => z.keys.card
  let inflightCount ← readAt .set inflight Finset.card
  let now ← arithmeticOn argv
  let oneHourAgo : Int := now - 3600
  let dayAgo : Int := now - 86400
  let sevenDaysAgo : Int := now - 7 * 86400
  let done1h ← readAt .sortedSet done (zcount oneHourAgo now)
  let failed1h ← readAt .sortedSet dead (zcount oneHourAgo now)
  let done24h ← readAt .sortedSet done (zcount dayAgo now)
  let failed24h ← readAt .sortedSet dead (zcount dayAgo now)
  let failed7d ← readAt .sortedSet dead (zcount sevenDaysAgo now)
  let recentDone ← readAt .sortedSet done recent
  let recentFailed ← readAt .sortedSet dead recent
  let counts : Counts := ⟨activeCount, doneCount, failedCount, inflightCount, done1h, failed1h,
    done24h, failed24h, failed7d, recentDone, recentFailed⟩
  pure (counts.statistics format2f)

/-- The counts at a time of what is at the four keys. -/
def Counts.at (now : Nat) (jobs : List String) (doneJobs deadJobs : ZSet)
    (running : Finset String) : Counts where
  active := jobs.length
  done := doneJobs.keys.card
  failed := deadJobs.keys.card
  inflight := running.card
  done1h := zcount (now - 3600) now doneJobs
  failed1h := zcount (now - 3600) now deadJobs
  done24h := zcount (now - 86400) now doneJobs
  failed24h := zcount (now - 86400) now deadJobs
  failed7d := zcount (now - 7 * 86400) now deadJobs
  recentDone := recent doneJobs
  recentFailed := recent deadJobs

variable {active done dead inflight} {k : Keyspace}

/-- With a time, the script reports the counts. -/
theorem run_overviewByQueue
    {jobs : List String}
    {doneJobs deadJobs : ZSet}
    {running : Finset String}
    (hactive : Kind.list.unwrap (k.keys active) = some jobs)
    (hdone : Kind.sortedSet.unwrap (k.keys done) = some doneJobs)
    (hdead : Kind.sortedSet.unwrap (k.keys dead) = some deadJobs)
    (hinflight : Kind.set.unwrap (k.keys inflight) = some running)
    (now : Nat) :
    (overviewByQueue format2f active done dead inflight (some now)).run k =
      (.ok ((Counts.at now jobs doneJobs deadJobs running).statistics format2f), k) := by
  rw [overviewByQueue, run_bind_ok (run_readAt_ok hactive _),
    run_bind_ok (run_readAt_ok hdone _), run_bind_ok (run_readAt_ok hdead _),
    run_bind_ok (run_readAt_ok hinflight _), arithmeticOn, run_pure_bind,
    run_bind_ok (run_readAt_ok hdone _), run_bind_ok (run_readAt_ok hdead _),
    run_bind_ok (run_readAt_ok hdone _), run_bind_ok (run_readAt_ok hdead _),
    run_bind_ok (run_readAt_ok hdead _), run_bind_ok (run_readAt_ok hdone _),
    run_bind_ok (run_readAt_ok hdead _)]
  rfl

/-- The script refuses a sorted set's key that holds a set. -/
theorem run_overviewByQueue_wrongType
    {jobs : List String}
    (hactive : Kind.list.unwrap (k.keys active) = some jobs)
    (hset : Kind.sortedSet.unwrap (k.keys done) = none ∨
      Kind.sortedSet.unwrap (k.keys dead) = none) :
    (overviewByQueue format2f active done dead inflight argv).run k = (.error wrongType, k) := by
  rw [overviewByQueue, run_bind_ok (run_readAt_ok hactive _)]
  cases hdone : Kind.sortedSet.unwrap (k.keys done) with
  | none => rw [run_bind_error (run_readAt_error hdone _)]
  | some doneJobs =>
      have hdead := hset.resolve_left (by simp [hdone])
      rw [run_bind_ok (run_readAt_ok hdone _), run_bind_error (run_readAt_error hdead _)]

/-- Without a time, the script raises. -/
theorem run_overviewByQueue_nil
    (k : Keyspace) :
    ∃ e, (overviewByQueue format2f active done dead inflight none).run k = (.error e, k) := by
  rw [overviewByQueue]
  refine run_readAt_bind_raises fun activeCount => ?_
  refine run_readAt_bind_raises fun doneCount => ?_
  refine run_readAt_bind_raises fun failedCount => ?_
  refine run_readAt_bind_raises fun inflightCount => ?_
  exact ⟨_, run_raise_bind _ _ k⟩

end Overview

end Lua

end ApalisRedis
