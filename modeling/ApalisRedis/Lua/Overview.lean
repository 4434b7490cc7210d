import ApalisRedis.Lua.OverviewByQueue
import Mathlib.Algebra.Ring.Nat

/-!
# `overview.lua`

The statistics of several queues.  The script takes no keys: the queues are its
arguments after the time, and it builds their keys from the names.

**Results.**
* `run_overview`: with names whose keys have the types that it expects, the
  script adds up what is at them.
* `totals_eq_sum`: the sums, one count at a time.
-/

namespace ApalisRedis
namespace Lua

open Redis Script

/-- The locals that the loop over the queues adds to. -/
structure Totals where
  active : Nat
  done : Nat
  failed : Nat
  inflight : Nat
  jobs1h : Nat
  jobs24h : Nat
  failed7d : Nat
  mostRecentTs : Nat

namespace Totals

def zero : Totals where
  active := 0
  done := 0
  failed := 0
  inflight := 0
  jobs1h := 0
  jobs24h := 0
  failed7d := 0
  mostRecentTs := 0

/-- `if #recent > 0 and tonumber(recent[2]) > most_recent_ts` -/
def later (mostRecentTs : Nat) : Option Nat → Nat
  | some score => if score > mostRecentTs then score else mostRecentTs
  | none => mostRecentTs

/-- The replies for one more queue. -/
def add (t : Totals) (c : Counts) : Totals where
  active := t.active + c.active
  done := t.done + c.done
  failed := t.failed + c.failed
  inflight := t.inflight + c.inflight
  jobs1h := t.jobs1h + c.done1h + c.failed1h
  jobs24h := t.jobs24h + c.done24h + c.failed24h
  failed7d := t.failed7d + c.failed7d
  mostRecentTs := later (later t.mostRecentTs c.recentDone) c.recentFailed

variable (t : Totals)

def totalJobs : Nat :=
  t.active + t.done + t.failed + t.inflight

/-- The rows that are pushed; `successRate24h` is formatted already. -/
def statistics (format2f : ℚ → String) (successRate24h : String) : List Statistic :=
  [⟨"RUNNING_JOBS", .number, toString t.inflight, 1⟩,
    ⟨"PENDING_JOBS", .number, toString t.active, 2⟩,
    ⟨"FAILED_JOBS", .number, toString t.failed, 3⟩,
    ⟨"DONE_JOBS", .number, toString t.done, 4⟩,
    ⟨"TOTAL_JOBS", .number, toString t.totalJobs, 5⟩,
    ⟨"SUCCESS_RATE", .percentage, format2f (rate t.done (t.done + t.failed)), 6⟩,
    ⟨"FAILURE_RATE", .percentage, format2f (rate t.failed (t.done + t.failed)), 7⟩,
    ⟨"MOST_RECENT_JOB", .timestamp, toString t.mostRecentTs, 8⟩,
    ⟨"JOBS_PAST_HOUR", .number, toString t.jobs1h, 9⟩,
    ⟨"JOBS_PAST_24_HOURS", .number, toString t.jobs24h, 10⟩,
    ⟨"FAILED_JOBS_PAST_7_DAYS", .number, toString t.failed7d, 11⟩,
    ⟨"SUCCESS_RATE_PAST_24H", .percentage, successRate24h, 12⟩,
    ⟨"AVG_JOBS_PER_HOUR_PAST_24H", .decimal, format2f (t.jobs24h / 24), 13⟩]

end Totals

section Overview

variable (format2f : ℚ → String) (nan : String) (now : Nat)

/-- The replies that the body of the loop asks for. -/
def countsOf (q : String) : Script Keyspace Counts := do
  let oneHourAgo : Int := now - 3600
  let dayAgo : Int := now - 86400
  let sevenDaysAgo : Int := now - 7 * 86400
  let activeCount ← readAt .list (q ++ ":active") List.length
  let doneCount ← readAt .sortedSet (q ++ ":done") fun z => z.keys.card
  let failedCount ← readAt .sortedSet (q ++ ":dead") fun z => z.keys.card
  let inflightCount ← readAt .set (q ++ ":inflight") Finset.card
  let done1h ← readAt .sortedSet (q ++ ":done") (zcount oneHourAgo now)
  let failed1h ← readAt .sortedSet (q ++ ":dead") (zcount oneHourAgo now)
  let done24h ← readAt .sortedSet (q ++ ":done") (zcount dayAgo now)
  let failed24h ← readAt .sortedSet (q ++ ":dead") (zcount dayAgo now)
  let failed7d ← readAt .sortedSet (q ++ ":dead") (zcount sevenDaysAgo now)
  let recentDone ← readAt .sortedSet (q ++ ":done") recent
  let recentFailed ← readAt .sortedSet (q ++ ":dead") recent
  pure ⟨activeCount, doneCount, failedCount, inflightCount, done1h, failed1h, done24h, failed24h,
    failed7d, recentDone, recentFailed⟩

/-- `success_rate_24h`, which looks at the first queue only; `nan` is what Lua
prints for `0 / 0`. -/
def successRate24h (queues : List String) (total24h : Nat) : Script Keyspace String :=
  if total24h > 0 then
    match queues with
    | [] => raise "attempt to concatenate field '?' (a nil value)"
    | q :: _ => do
        let done24h ← readAt .sortedSet (q ++ ":done") (zcount (now - 86400) now)
        let failed24h ← readAt .sortedSet (q ++ ":dead") (zcount (now - 86400) now)
        pure (if done24h + failed24h = 0 then nan
          else format2f (done24h / (done24h + failed24h : Nat) * 100))
  else
    pure (format2f 0)

/-- The body of the loop. -/
def addQueue (totals : Totals) (q : String) : Script Keyspace Totals := do
  let counts ← countsOf now q
  pure (totals.add counts)

/-- `overview.lua`: `queues` are the arguments after the time. -/
def overview (_keys queues : List String) : Script Keyspace (List Statistic) := do
  let totals ← queues.foldlM (addQueue now) .zero
  let rate24h ← successRate24h format2f nan now queues totals.jobs24h
  pure (totals.statistics format2f rate24h)

end Overview

/-- What the script finds at the keys of a queue. -/
structure Contents where
  jobs : List String
  doneJobs : ZSet
  deadJobs : ZSet
  running : Finset String

namespace Contents

/-- The replies of the loop's body. -/
def counts (now : Nat) (c : Contents) : Counts :=
  .at now c.jobs c.doneJobs c.deadJobs c.running

/-- The keys of the queue have the types that the script expects. -/
structure At (k : Keyspace) (q : String) (c : Contents) : Prop where
  active : Kind.list.unwrap (k.keys (q ++ ":active")) = some c.jobs
  done : Kind.sortedSet.unwrap (k.keys (q ++ ":done")) = some c.doneJobs
  dead : Kind.sortedSet.unwrap (k.keys (q ++ ":dead")) = some c.deadJobs
  inflight : Kind.set.unwrap (k.keys (q ++ ":inflight")) = some c.running

end Contents

section Sums

variable {k : Keyspace} {now : Nat} {queues : List String} {contents : String → Contents}

theorem run_countsOf
    {q : String}
    {c : Contents}
    (h : c.At k q) :
    (countsOf now q).run k = (.ok (c.counts now), k) := by
  obtain ⟨hactive, hdone, hdead, hinflight⟩ := h
  rw [countsOf, run_bind_ok (run_readAt_ok hactive _), run_bind_ok (run_readAt_ok hdone _),
    run_bind_ok (run_readAt_ok hdead _), run_bind_ok (run_readAt_ok hinflight _),
    run_bind_ok (run_readAt_ok hdone _), run_bind_ok (run_readAt_ok hdead _),
    run_bind_ok (run_readAt_ok hdone _), run_bind_ok (run_readAt_ok hdead _),
    run_bind_ok (run_readAt_ok hdead _), run_bind_ok (run_readAt_ok hdone _),
    run_bind_ok (run_readAt_ok hdead _)]
  rfl

/-- What the loop over the queues adds up. -/
def totalsOf (now : Nat) (contents : String → Contents) (queues : List String) : Totals :=
  queues.foldl (fun totals q => totals.add ((contents q).counts now)) .zero

theorem run_totals
    (h : ∀ q ∈ queues, (contents q).At k q)
    (totals : Totals) :
    (queues.foldlM (addQueue now) totals).run k =
      (.ok (queues.foldl (fun totals q => totals.add ((contents q).counts now)) totals), k) := by
  induction queues generalizing totals with
  | nil => rfl
  | cons q queues ih =>
      have hbody : (addQueue now totals q).run k =
          (.ok (totals.add ((contents q).counts now)), k) := by
        rw [addQueue, run_bind_ok (run_countsOf (h q List.mem_cons_self)), run_pure]
      rw [List.foldlM_cons, run_bind_ok hbody, ih fun q hq => h q (List.mem_cons_of_mem _ hq)]
      rfl

theorem run_successRate24h
    (h : ∀ q ∈ queues, (contents q).At k q)
    (format2f : ℚ → String)
    (nan : String)
    {total24h : Nat}
    (hsome : 0 < total24h → queues ≠ []) :
    ∃ rate24h, (successRate24h format2f nan now queues total24h).run k = (.ok rate24h, k) := by
  unfold successRate24h
  split
  · next hpos =>
      cases queues with
      | nil => exact absurd rfl (hsome hpos)
      | cons q queues =>
          obtain ⟨-, hdone, hdead, -⟩ := h q List.mem_cons_self
          exact ⟨_, (run_bind_ok (run_readAt_ok hdone _) _).trans
            ((run_bind_ok (run_readAt_ok hdead _) _).trans (run_pure _ k))⟩
  · exact ⟨_, run_pure _ k⟩

/-- **With names of queues, the script adds up what is at their keys.** -/
theorem run_overview
    (h : ∀ q ∈ queues, (contents q).At k q)
    (format2f : ℚ → String)
    (nan : String)
    (keys : List String) :
    ∃ rate24h, (overview format2f nan now keys queues).run k =
      (.ok ((totalsOf now contents queues).statistics format2f rate24h), k) := by
  have hsome : 0 < (totalsOf now contents queues).jobs24h → queues ≠ [] := by
    rintro hpos rfl
    exact absurd hpos (Nat.lt_irrefl 0)
  obtain ⟨rate24h, hrate⟩ := @run_successRate24h k now _ _ h format2f nan _ hsome
  have hloop : (queues.foldlM (addQueue now) .zero).run k =
      (.ok (totalsOf now contents queues), k) := run_totals h .zero
  refine ⟨rate24h, ?_⟩
  rw [overview, run_bind_ok hloop, run_bind_ok hrate, run_pure]

/-- A local that the loop adds one count to is the sum of the counts. -/
theorem foldl_add
    {field : Totals → Nat}
    {count : Counts → Nat}
    (hadd : ∀ t c, field (t.add c) = field t + count c)
    (queues : List String)
    (t : Totals) :
    field (queues.foldl (fun totals q => totals.add ((contents q).counts now)) t) =
      field t + (queues.map fun q => count ((contents q).counts now)).sum := by
  induction queues generalizing t with
  | nil => rfl
  | cons q queues ih =>
      rw [List.foldl_cons, ih, hadd, List.map_cons, List.sum_cons, Nat.add_assoc]

/-- **The sums are those of the lists and sets at the queues' keys.** -/
theorem totals_eq_sum
    (now : Nat)
    (contents : String → Contents)
    (queues : List String) :
    let totals := totalsOf now contents queues
    totals.active = (queues.map fun q => (contents q).jobs.length).sum ∧
      totals.done = (queues.map fun q => (contents q).doneJobs.keys.card).sum ∧
      totals.failed = (queues.map fun q => (contents q).deadJobs.keys.card).sum ∧
      totals.inflight = (queues.map fun q => (contents q).running.card).sum := by
  refine ⟨?_, ?_, ?_, ?_⟩
  · exact (foldl_add (fun _ _ => rfl) queues .zero).trans (Nat.zero_add _)
  · exact (foldl_add (fun _ _ => rfl) queues .zero).trans (Nat.zero_add _)
  · exact (foldl_add (fun _ _ => rfl) queues .zero).trans (Nat.zero_add _)
  · exact (foldl_add (fun _ _ => rfl) queues .zero).trans (Nat.zero_add _)

end Sums

end Lua

end ApalisRedis
