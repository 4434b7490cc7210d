import ApalisRedis.Lua.BatchPush
import Mathlib.Data.List.TakeWhile

/-!
# `register_worker.lua`, `keep_alive.lua`, `reenqueue_orphaned.lua`

The workers sorted set scores every registered worker with its last heartbeat.
Orphan recovery gives back the tasks of the workers whose score is at most a
cutoff and removes them from the set.
-/

namespace ApalisRedis
namespace Lua

open Redis Script

section Workers

variable (rt : Runtime)
variable (workersSet : Key Store ZSet)

def registerWorker (metadataKey : Key Store (Hash String)) (now : Nat) (worker : String)
    (threshold : Nat) (backendName service : String) : Script Store Unit := do
  let lastSeen ← zscore workersSet worker
  match lastSeen with
  | some t =>
      if (now : Int) - t < threshold then
        raise "worker is still active within threshold"
  | none => pure ()
  zadd workersSet now worker
  zaddGT queuesList now workersSet.name
  hset metadataKey [("backend_name", backendName), ("service", service)]

def keepAlive (now : Nat) (worker : String) : Script Store Unit := do
  let lastSeen ← zscore workersSet worker
  if lastSeen.isNone then
    raise "Heartbeat failed: worker not registered"
  zadd workersSet now worker

variable (activeList signalList : Key Store (List String))
variable (workerKeyPrefix : String → Key Store (Finset String))

/-- The workers to recover: the named one if it is expired, or all expired ones. -/
def expiredWorkers (cutoff : Nat) (only : Option String) : Script Store (List String) :=
  match only with
  | some worker => do
      let score ← zscore workersSet worker
      pure (if score.any (· ≤ cutoff) then [worker] else [])
  | none => zrangebyscore workersSet 0 cutoff

/-- The body of the loop over the expired workers. -/
def recoverWorker (processed : Nat) (worker : String) : Script Store Nat := do
  let jobs ← smembers rt.members (workerKeyPrefix worker)
  if 0 < jobs.length then
    rt.unpack jobs.length
    let _ ← rpush activeList jobs
    delSet (workerKeyPrefix worker)
  zrem workersSet [worker]
  pure (processed + jobs.length)

def reenqueueOrphaned (cutoff : Nat) (only : Option String) : Script Store Nat := do
  let workers ← expiredWorkers workersSet cutoff only
  let processed ← workers.foldlM
    (recoverWorker rt workersSet activeList workerKeyPrefix) 0
  if 0 < processed then
    setSignal signalList
  pure processed

end Workers

end Lua

open Lua Redis Script

namespace Store

/-- The worker's last heartbeat is `now`. -/
def beat (s : Store) (now : Nat) (worker : String) : Store :=
  { s with workers := s.workers.insert worker now }

/-- What registering records besides the heartbeat. -/
def enroll (s : Store) (queue : String) (now : Nat) (worker backendName service : String) :
    Store :=
  { s with
    queues := s.queues.insert (queue ++ ":workers")
      (max now ((s.queues.lookup (queue ++ ":workers")).getD now))
    workerMetadata := Function.update s.workerMetadata worker
      (Hash.setAll (s.workerMetadata worker)
        [("backend_name", backendName), ("service", service)]) }

/-- An expired worker's tasks become active and its registration ends. -/
def recover (s : Store) (worker : String) (jobs : List String) : Store :=
  { s with
    activeJobs := s.activeJobs ++ jobs
    inflightJobs := Function.update s.inflightJobs worker ∅
    workers := s.workers.erase worker }

/-- The expired workers, in the order in which orphan recovery goes through them. -/
def expired (s : Store) (cutoff : Nat) (only : Option String) : List String :=
  match only with
  | some worker => if (s.workers.lookup worker).any (· ≤ cutoff) then [worker] else []
  | none => s.workers.rangeByScore 0 cutoff

/-- The tasks of a worker, in the order in which they are enumerated. -/
def held (s : Store) (rt : Runtime) (worker : String) : List String :=
  rt.members (s.inflightJobs worker)

/-- The expired workers that orphan recovery gets to: it raises at the first one
whose tasks do not unpack. -/
def reached (s : Store) (rt : Runtime) (cutoff : Nat) (only : Option String) : List String :=
  (s.expired cutoff only).takeWhile fun worker => rt.Fits (s.held rt worker).length

/-- Several workers are recovered, one after another. -/
def recoverAll (s : Store) (rt : Runtime) (workers : List String) : Store :=
  workers.foldl (fun s worker => s.recover worker (s.held rt worker)) s

/-- Whether `register_worker.lua` refuses the name. -/
def StillActive (s : Store) (now threshold : Nat) (worker : String) : Prop :=
  ∃ t, s.workers.lookup worker = some t ∧ (now : Int) - t < threshold

instance (s : Store) (now threshold : Nat) (worker : String) :
    Decidable (s.StillActive now threshold worker) :=
  match h : s.workers.lookup worker with
  | none => isFalse fun ⟨t, ht, _⟩ => by rw [h] at ht; cases ht
  | some t =>
      decidable_of_iff ((now : Int) - t < threshold)
        ⟨fun hlt => ⟨t, h, hlt⟩, fun ⟨t', ht, hlt⟩ => by rw [h] at ht; cases ht; exact hlt⟩

end Store

namespace Lua

section Specs

variable (rt : Runtime) (queue : String)

theorem run_registerWorker
    (now : Nat)
    (worker : String)
    (threshold : Nat)
    (backendName service : String)
    (s : Store) :
    (registerWorker (Keys.workersSet queue) (Keys.workerMetadataKey queue worker) now worker
        threshold backendName service).run s =
      if s.StillActive now threshold worker then
        (.error "worker is still active within threshold", s)
      else
        (.ok (), (s.beat now worker).enroll queue now worker backendName service) := by
  cases hseen : s.workers.lookup worker with
  | none =>
      have hfree : ¬s.StillActive now threshold worker := by
        rintro ⟨t, ht, -⟩
        rw [hseen] at ht
        cases ht
      simp [registerWorker, hseen, hfree, Store.beat, Store.enroll]
      rfl
  | some t =>
      have hactive : s.StillActive now threshold worker ↔ (now : Int) - t < threshold := by
        simp [Store.StillActive, hseen]
      by_cases hlt : (now : Int) - t < threshold
      · simp [registerWorker, hseen, hactive, hlt]
      · simp [registerWorker, hseen, hactive, hlt, Store.beat, Store.enroll]
        rfl

theorem run_keepAlive
    (now : Nat)
    (worker : String)
    (s : Store) :
    (keepAlive (Keys.workersSet queue) now worker).run s =
      if worker ∈ s.workers then (.ok (), s.beat now worker)
      else (.error "Heartbeat failed: worker not registered", s) := by
  by_cases hworker : worker ∈ s.workers
  · simp [keepAlive, Finmap.lookup_eq_none, hworker, Store.beat]
  · simp [keepAlive, Finmap.lookup_eq_none, hworker]

/-- The workers that orphan recovery goes through. -/
theorem run_expiredWorkers
    (cutoff : Nat)
    (only : Option String)
    (s : Store) :
    (expiredWorkers (Keys.workersSet queue) cutoff only).run s =
      (.ok (match only with
        | some worker =>
            if (s.workers.lookup worker).any (· ≤ cutoff) then [worker] else []
        | none => s.workers.rangeByScore 0 cutoff), s) := by
  cases only <;> simp [expiredWorkers]

theorem run_recoverWorker
    (processed : Nat)
    (worker : String)
    (s : Store) :
    (recoverWorker rt (Keys.workersSet queue) (Keys.activeJobsList queue)
        (Keys.inflightJobsSet queue) processed worker).run s =
      if rt.Fits (rt.members (s.inflightJobs worker)).length then
        (.ok (processed + (rt.members (s.inflightJobs worker)).length),
          s.recover worker (rt.members (s.inflightJobs worker)))
      else
        (.error "too many results to unpack", s) := by
  by_cases hjobs : s.inflightJobs worker = ∅
  · have hnil : rt.members (s.inflightJobs worker) = [] := rt.members_eq_nil.mpr hjobs
    have hsame : Function.update s.inflightJobs worker ∅ = s.inflightJobs := by
      rw [← hjobs, Function.update_eq_self]
    simp [recoverWorker, hnil, rt.fits_zero, Store.recover, Hash.eraseAll, hsame]
  · have hlen : 0 < (rt.members (s.inflightJobs worker)).length := by
      rw [List.length_pos_iff]
      exact fun h => hjobs (rt.members_eq_nil.mp h)
    by_cases hfits : rt.Fits (rt.members (s.inflightJobs worker)).length
    · simp [recoverWorker, hlen, hfits, Store.recover, Hash.eraseAll]
    · simp [recoverWorker, hlen, hfits]

theorem nodup_expired
    (cutoff : Nat)
    (only : Option String)
    (s : Store) :
    (s.expired cutoff only).Nodup := by
  unfold Store.expired
  split
  · split
    · exact List.nodup_singleton _
    · exact List.nodup_nil
  · exact ZSet.nodup_rangeByScore _ _ _

/-- Recovering a worker leaves the tasks of the others. -/
theorem held_recover
    (s : Store)
    {u v : String}
    (hne : u ≠ v)
    (jobs : List String) :
    (s.recover v jobs).held rt u = s.held rt u := by
  simp [Store.held, Store.recover, hne]

/-- What recovering several workers leaves. -/
theorem recoverAll_eq
    (workers : List String)
    (hnd : workers.Nodup)
    (s : Store) :
    s.recoverAll rt workers =
      { s with
        activeJobs := s.activeJobs ++ workers.flatMap (s.held rt)
        inflightJobs := fun v => if v ∈ workers then ∅ else s.inflightJobs v
        workers := Hash.eraseAll s.workers workers } := by
  induction workers generalizing s with
  | nil => simp [Store.recoverAll, Hash.eraseAll]
  | cons v vs ih =>
      obtain ⟨hv, hvs⟩ := List.nodup_cons.mp hnd
      have hheld : ∀ u ∈ vs, (s.recover v (s.held rt v)).held rt u = s.held rt u :=
        fun u hu => held_recover rt s (ne_of_mem_of_not_mem hu hv) _
      have hinflight : (fun u => if u ∈ vs then ∅ else
          (s.recover v (s.held rt v)).inflightJobs u) =
          fun u => if u ∈ v :: vs then ∅ else s.inflightJobs u := by
        funext u
        rcases eq_or_ne u v with rfl | hne
        · simp [Store.recover]
        · simp [Store.recover, hne]
      change (s.recover v (s.held rt v)).recoverAll rt vs = _
      rw [ih hvs, hinflight, List.flatMap_congr hheld]
      simp [Store.recover, Hash.eraseAll]

theorem takeWhile_congr
    {xs : List String}
    {p q : String → Bool}
    (hpq : ∀ x ∈ xs, p x = q x) :
    xs.takeWhile p = xs.takeWhile q := by
  induction xs with
  | nil => rfl
  | cons x xs ih =>
      rw [List.takeWhile_cons, List.takeWhile_cons, hpq x List.mem_cons_self,
        ih fun y hy => hpq y (List.mem_cons_of_mem _ hy)]

/-- The loop recovers the workers up to the first one whose tasks do not unpack. -/
theorem run_recoverAll
    (workers : List String)
    (hnd : workers.Nodup)
    (processed : Nat)
    (s : Store) :
    (workers.foldlM (recoverWorker rt (Keys.workersSet queue)
        (Keys.activeJobsList queue) (Keys.inflightJobsSet queue)) processed).run s =
      (if ∀ v ∈ workers, rt.Fits (s.held rt v).length then
          .ok (processed + (workers.flatMap (s.held rt)).length)
        else .error "too many results to unpack",
        s.recoverAll rt (workers.takeWhile fun v => rt.Fits (s.held rt v).length)) := by
  induction workers generalizing processed s with
  | nil => simp [Store.recoverAll]
  | cons v vs ih =>
      obtain ⟨hv, hvs⟩ := List.nodup_cons.mp hnd
      have hrun : (recoverWorker rt (Keys.workersSet queue) (Keys.activeJobsList queue)
          (Keys.inflightJobsSet queue) processed v).run s =
            if rt.Fits (s.held rt v).length then
              (.ok (processed + (s.held rt v).length), s.recover v (s.held rt v))
            else (.error "too many results to unpack", s) :=
        run_recoverWorker rt queue processed v s
      have hheld : ∀ u ∈ vs, (s.recover v (s.held rt v)).held rt u = s.held rt u :=
        fun u hu => held_recover rt s (ne_of_mem_of_not_mem hu hv) _
      rcases em (rt.Fits (s.held rt v).length) with hfits | hfits
      · have hall : (∀ u ∈ vs, rt.Fits ((s.recover v (s.held rt v)).held rt u).length) ↔
            ∀ u ∈ v :: vs, rt.Fits (s.held rt u).length := by
          rw [List.forall_mem_cons, and_iff_right hfits]
          exact forall₂_congr fun u hu => by rw [hheld u hu]
        have hreached : (vs.takeWhile fun u =>
            rt.Fits ((s.recover v (s.held rt v)).held rt u).length) =
            vs.takeWhile fun u => rt.Fits (s.held rt u).length :=
          takeWhile_congr fun u hu => by rw [hheld u hu]
        rw [if_pos hfits] at hrun
        rw [List.foldlM_cons, run_bind_ok hrun, ih hvs, hreached, List.flatMap_congr hheld,
          List.takeWhile_cons_of_pos (by simpa using hfits), List.flatMap_cons,
          List.length_append, ← Nat.add_assoc]
        exact congrArg (·, _) (if_congr hall rfl rfl)
      · rw [if_neg hfits] at hrun
        rw [List.foldlM_cons, run_bind_error hrun,
          List.takeWhile_cons_of_neg (by simpa using hfits),
          if_neg fun hall => hfits (hall v List.mem_cons_self)]
        rfl

/-- **What `reenqueue_orphaned.lua` does**: it recovers the expired workers that
it gets to, and raises unless these are all of them. -/
theorem reenqueueOrphaned_cases
    (cutoff : Nat)
    (only : Option String)
    (s : Store) :
    let outcome := (reenqueueOrphaned rt (Keys.workersSet queue) (Keys.activeJobsList queue)
      (Keys.signalList queue) (Keys.inflightJobsSet queue) cutoff only).run s
    let workers := s.expired cutoff only
    let t := s.recoverAll rt (s.reached rt cutoff only)
    ((∀ v ∈ workers, rt.Fits (s.held rt v).length) ∧ s.reached rt cutoff only = workers ∧
      outcome = (.ok (workers.flatMap (s.held rt)).length,
        if 0 < (workers.flatMap (s.held rt)).length then t.wake else t)) ∨
    ((¬∀ v ∈ workers, rt.Fits (s.held rt v).length) ∧
      outcome = (.error "too many results to unpack", t)) := by
  intro outcome workers t
  have hexpired : (expiredWorkers (Keys.workersSet queue) cutoff only).run s =
      (.ok workers, s) := run_expiredWorkers queue cutoff only s
  have hloop := run_recoverAll rt queue workers (nodup_expired cutoff only s) 0 s
  have houtcome : outcome = (expiredWorkers (Keys.workersSet queue) cutoff only >>=
      fun workers => workers.foldlM (recoverWorker rt (Keys.workersSet queue)
        (Keys.activeJobsList queue) (Keys.inflightJobsSet queue)) 0 >>= fun processed => do
          if 0 < processed then
            setSignal (Keys.signalList queue)
          pure processed).run s := rfl
  rw [run_bind_ok hexpired] at houtcome
  rcases em (∀ v ∈ workers, rt.Fits (s.held rt v).length) with hall | hstuck
  · rw [if_pos hall, Nat.zero_add] at hloop
    refine .inl ⟨hall, List.takeWhile_eq_self_iff.mpr (by simpa using hall), ?_⟩
    rw [houtcome, run_bind_ok hloop]
    dsimp only
    split
    · rw [run_bind_ok (run_setSignal queue _), run_pure]
      rfl
    · rfl
  · rw [if_neg hstuck] at hloop
    refine .inr ⟨hstuck, ?_⟩
    rw [houtcome, run_bind_error hloop]
    rfl

end Specs
end Lua
end ApalisRedis
