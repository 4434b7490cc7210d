import ApalisRedis.Bulk
import ApalisRedis.Systems.Lines
import ApalisRedis.Waiting

/-!
# No task starves

The active list is a line: calls append to it, and fetches cut pieces off its
front.  Every fetch that is served is a turn, in which somebody leaves unless
nobody waits.  So the place of a task in the line bounds how many of the fetches
to come can pass it over.

**Results.**
* `serves_exec`: what a call does to the line.
* `no_starvation`: whoever waits is handed out in its turn.
-/

namespace ApalisRedis

open Lua Redis Script Systems

section Fairness

variable (rt : Runtime) (queue : String)

/-- The tasks that a fetch with this outcome hands out. -/
def Lua.FetchReply.handed : Except String FetchReply → List String
  | .ok reply => reply.ids
  | .error _ => []

/-- The tasks that the call hands out, in the order of its reply. -/
def Call.handsOut (s : Store) : Call → List String
  | .fetchNext now batchSize worker =>
      FetchReply.handed ((fetchNextScript rt queue now batchSize worker).run s).1
  | _ => []

/-- The call is a fetch of at least one task, and it does not fail. -/
def Call.served (s : Store) : Call → Bool
  | .fetchNext now batchSize worker =>
      decide (0 < batchSize) && ((fetchNextScript rt queue now batchSize worker).run s).1.isOk
  | _ => false

/-- The tasks that a run hands out, in order. -/
def handedOut : List Call → Store → List String
  | [], _ => []
  | c :: calls, s => c.handsOut rt queue s ++ handedOut calls ((c.exec rt queue).run s).2

/-- The number of fetches of a run that are served. -/
def servedFetches : List Call → Store → Nat
  | [], _ => 0
  | c :: calls, s =>
      servedFetches calls ((c.exec rt queue).run s).2 + (c.served rt queue s).toNat

variable {rt queue}

theorem ids_reply
    (s : Store)
    (taskIds : List String) :
    FetchReply.ids (s.reply rt taskIds) = taskIds := by
  simp [FetchReply.ids, Store.reply, List.filterMap_map, Function.comp_def]

/-- A fetch: due tasks join the line, and the ones at its front are handed out. -/
theorem serves_fetch
    (now batchSize : Nat)
    (worker : String)
    (s : Store) :
    let outcome := (fetchNextScript rt queue now batchSize worker).run s
    Serves (FetchReply.handed outcome.1) s.activeJobs outcome.2.activeJobs ∧
      (0 < batchSize → outcome.1.isOk = true → s.activeJobs ≠ [] →
        FetchReply.handed outcome.1 ≠ []) := by
  intro outcome
  have hdue := activeJobs_promoted now s
  rcases fetchNext_cases rt queue worker now batchSize s with
    ⟨-, message, hrun⟩ | ⟨-, -, hrun⟩ | ⟨-, -, hrun⟩
  · have houtcome : outcome = (.error message, s) := hrun
    rw [houtcome]
    exact ⟨serves_of_isPrefix List.prefix_rfl, fun _ hok => by cases hok⟩
  · have houtcome : outcome = (.error _, s.promoted now) := hrun
    rw [houtcome]
    refine ⟨serves_of_isPrefix ?_, fun _ hok => by cases hok⟩
    rw [hdue]
    exact List.prefix_append _ _
  · have houtcome : outcome = (.ok _, _) := hrun
    rw [houtcome]
    dsimp only [FetchReply.handed]
    rw [ids_reply]
    refine ⟨?_, fun hbatch _ hsome => ?_⟩
    · have hprefix : (s.promoted now).front batchSize <+: (s.promoted now).activeJobs :=
        slice_zero_isPrefix _ _
      have hserves := serves_take s.activeJobs (s.due now) ((s.promoted now).front batchSize).length
      rw [← hdue, ← List.prefix_iff_eq_take.mp hprefix] at hserves
      exact hserves
    · rw [front_eq_take hbatch, hdue]
      simp [hsome, hbatch.ne']

/-- **What a call does to the line.** -/
theorem serves_exec
    (c : Call)
    {s : Store}
    {b : Board}
    (h : Reflects s b) :
    Serves (c.handsOut rt queue s) s.activeJobs ((c.exec rt queue).run s).2.activeJobs ∧
      (c.served rt queue s = true → s.activeJobs ≠ [] → c.handsOut rt queue s ≠ []) := by
  by_cases hfetches : c.Fetches
  · cases c with
    | fetchNext now batchSize worker =>
        obtain ⟨hserves, hsome⟩ := @serves_fetch rt queue now batchSize worker s
        rw [Call.exec, run_map_snd]
        refine ⟨hserves, fun hserved => ?_⟩
        obtain ⟨hbatch, hok⟩ := (Bool.and_eq_true _ _).mp hserved
        exact hsome (of_decide_eq_true hbatch) hok
    | _ => exact absurd hfetches id
  · have hnone : c.handsOut rt queue s = [] ∧ c.served rt queue s = false := by
      cases c with
      | fetchNext now batchSize worker => exact absurd trivial hfetches
      | _ => exact ⟨rfl, rfl⟩
    rw [hnone.1, hnone.2]
    have hwithin := c.within_waiting_of_not_fetches rt hfetches
    exact ⟨serves_of_isPrefix (activeJobs_prefix_exec rt queue hwithin h), fun hf => by cases hf⟩

/-- The line over a whole run. -/
theorem turns_run
    (calls : List Call)
    {s : Store}
    {b : Board}
    (h : Reflects s b) :
    Turns (servedFetches rt queue calls s) (handedOut rt queue calls s) s.activeJobs
      (run rt queue calls s).activeJobs := by
  induction calls generalizing s b with
  | nil => exact .idle _
  | cons c calls ih =>
      obtain ⟨b', -, hb'⟩ := reflects_run rt queue [c] h
      have hrest := ih hb'
      obtain ⟨hserves, hsome⟩ := @serves_exec rt queue c _ _ h
      unfold servedFetches handedOut
      cases hserved : c.served rt queue s with
      | true => exact .turn hserves (hsome hserved) hrest
      | false => exact .wait hserves hrest

variable (rt queue)

/-- **No task starves.**  What is handed out in a run, and then what still waits, is
what waited before, and then what has joined; and who waited at place `k` is
handed out as number `k` by the time that `k + 1` fetches have been served. -/
theorem no_starvation
    (calls later : List Call)
    {k : Nat}
    {id : String}
    (hwaits : (run rt queue calls Store.empty).activeJobs[k]? = some id) :
    let s := run rt queue calls Store.empty
    (∃ arrivals, s.activeJobs ++ arrivals =
        handedOut rt queue later s ++ (run rt queue later s).activeJobs) ∧
      (k < servedFetches rt queue later s → (handedOut rt queue later s)[k]? = some id) := by
  obtain ⟨b, -, hb⟩ := reflects_run rt queue calls reflects_empty
  have hturns := @turns_run rt queue later _ _ hb
  exact ⟨hturns.serves, fun hserved => hturns.served_within hwaits hserved⟩

end Fairness

/-- Of two waiting tasks the second one is handed out by the second fetch. -/
theorem second_handed_out :
    (handedOut (.ascending none) "q" [registerW, .fetchNext 11 1 "w", .fetchNext 12 1 "w"]
      (run (.ascending none) "q" twoActive Store.empty))[1]? = some "a" :=
  (no_starvation (.ascending none) "q" twoActive _ (by decide +kernel)).2 (by decide +kernel)

end ApalisRedis
