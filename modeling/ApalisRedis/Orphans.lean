import ApalisRedis.Bulk

/-!
# What orphan recovery moves

`reenqueue_orphaned.lua` goes over all expired workers, or over the one that it
is asked about when that one is expired.  Both ways come to the same recovery of
a set of workers.

**Results.**
* `orphans_recovered`: exactly the tasks of the expired workers become active,
  each of them once, and a second call has nothing to do.
-/

namespace ApalisRedis

open Lua Redis Script

/-- The worker is one to recover: expired, and the one asked about if there is one. -/
def Store.Expired (s : Store) (cutoff : Nat) (only : Option String) (v : String) : Prop :=
  (∃ last, s.workers.lookup v = some last ∧ last ≤ cutoff) ∧ ∀ w ∈ only, v = w

/-- The recovery of the expired workers, by which a number of tasks moved. -/
structure Store.Recovered (s t : Store) (expired : String → Prop) (moved : Nat) : Prop where
  removed : ∀ v, expired v → v ∉ t.workers
  remaining : ∀ v, ¬expired v → t.workers.lookup v = s.workers.lookup v
  emptied : ∀ v, expired v → t.inflightJobs v = ∅
  untouched : ∀ v, ¬expired v → t.inflightJobs v = s.inflightJobs v
  appended : ∃ ids, t.activeJobs = s.activeJobs ++ ids ∧ ids.Nodup ∧ ids.length = moved ∧
    ∀ id, id ∈ ids ↔ ∃ v, expired v ∧ id ∈ s.inflightJobs v
  signal : t.signal = if 0 < moved then ["1"] else s.signal
  kept : { t with
    activeJobs := s.activeJobs
    inflightJobs := s.inflightJobs
    workers := s.workers
    signal := s.signal } = s

section Orphans

variable (rt : Runtime) (queue : String)

/-- Both ways of selecting find the workers to recover. -/
theorem mem_expired
    {s : Store}
    {cutoff : Nat}
    {only : Option String}
    {v : String} :
    v ∈ s.expired cutoff only ↔ s.Expired cutoff only v := by
  cases only with
  | none =>
      rw [Store.expired, ZSet.mem_rangeByScore]
      constructor
      · rintro ⟨last, hlast, -, hle⟩
        exact ⟨⟨last, hlast, hle⟩, by simp⟩
      · rintro ⟨⟨last, hlast, hle⟩, -⟩
        exact ⟨last, hlast, Nat.zero_le _, hle⟩
  | some w =>
      rw [Store.expired]
      constructor
      · intro hv
        split at hv
        · next hany =>
            obtain rfl := List.mem_singleton.mp hv
            obtain ⟨last, hlast, hle⟩ := (Option.any_eq_true _ _).mp hany
            exact ⟨⟨last, hlast, of_decide_eq_true hle⟩, by simp⟩
        · cases hv
      · rintro ⟨⟨last, hlast, hle⟩, honly⟩
        obtain rfl := honly w rfl
        rw [if_pos (by simp [hlast, hle])]
        exact List.mem_singleton_self v

/-- The tasks of different workers are enumerated once each. -/
theorem nodup_recovered
    {s : Store}
    (hdisjoint : ∀ v w, v ≠ w → Disjoint (s.inflightJobs v) (s.inflightJobs w))
    {workers : List String}
    (hnd : workers.Nodup) :
    (workers.flatMap (s.held rt)).Nodup := by
  rw [List.nodup_flatMap]
  refine ⟨fun v _ => rt.nodup_members _, hnd.imp fun {v w} hne => ?_⟩
  intro id hv hw
  have hboth := Finset.disjoint_left.mp (hdisjoint v w hne) (rt.mem_members.mp hv)
  exact hboth (rt.mem_members.mp hw)

/-- The one state that a successful call leaves. -/
theorem wake_recoverAll
    (workers : List String)
    (hnd : workers.Nodup)
    (s : Store) :
    let ids := workers.flatMap (s.held rt)
    (if 0 < ids.length then (s.recoverAll rt workers).wake else s.recoverAll rt workers) =
      { s with
        activeJobs := s.activeJobs ++ ids
        inflightJobs := fun v => if v ∈ workers then ∅ else s.inflightJobs v
        workers := Hash.eraseAll s.workers workers
        signal := if 0 < ids.length then ["1"] else s.signal } := by
  intro ids
  rw [recoverAll_eq rt workers hnd]
  split <;> rfl

/-- That state is the recovery of the expired workers. -/
theorem recovered_all
    {s : Store}
    (hdisjoint : ∀ v w, v ≠ w → Disjoint (s.inflightJobs v) (s.inflightJobs w))
    (cutoff : Nat)
    (only : Option String) :
    let ids := (s.expired cutoff only).flatMap (s.held rt)
    let t := s.recoverAll rt (s.expired cutoff only)
    s.Recovered (if 0 < ids.length then t.wake else t) (s.Expired cutoff only) ids.length := by
  intro ids t
  have hnd := nodup_expired cutoff only s
  have hids : ∀ id, id ∈ ids ↔ ∃ v, s.Expired cutoff only v ∧ id ∈ s.inflightJobs v := by
    intro id
    rw [List.mem_flatMap]
    exact exists_congr fun v => and_congr mem_expired rt.mem_members
  have hout : ∀ v, ¬s.Expired cutoff only v → v ∉ s.expired cutoff only :=
    fun v hv hmem => hv (mem_expired.mp hmem)
  rw [wake_recoverAll rt _ hnd s]
  refine ⟨fun v hv => ?_, fun v hv => ?_, fun v hv => ?_, fun v hv => ?_,
    ⟨ids, rfl, nodup_recovered rt hdisjoint hnd, rfl, hids⟩, rfl, rfl⟩
  · rw [Hash.mem_eraseAll, not_and_or, not_not]
    exact .inl (mem_expired.mpr hv)
  · rw [Hash.lookup_eraseAll, if_neg (hout v hv)]
  · exact if_pos (mem_expired.mpr hv)
  · exact if_neg (hout v hv)

/-- With nobody to recover the call does nothing. -/
theorem run_reenqueue_of_unexpired
    {cutoff : Nat}
    {only : Option String}
    {s : Store}
    (hnone : ∀ v, ¬s.Expired cutoff only v) :
    (reenqueueOrphanedScript rt queue cutoff only).run s = (.ok 0, s) := by
  have hexpired : s.expired cutoff only = [] :=
    List.eq_nil_iff_forall_not_mem.mpr fun v hv => hnone v (mem_expired.mp hv)
  have hreached : s.reached rt cutoff only = [] := by
    rw [Store.reached, hexpired, List.takeWhile_nil]
  rw [reenqueueOrphanedScript]
  rcases reenqueueOrphaned_cases rt queue cutoff only s with ⟨-, -, hrun⟩ | ⟨hstuck, -⟩
  · rw [hrun, hreached, hexpired]
    rfl
  · refine absurd (fun v hv => ?_) hstuck
    rw [hexpired] at hv
    cases hv

/-- After a recovery nobody is left to recover. -/
theorem Store.Recovered.unexpired
    {s t : Store}
    {cutoff : Nat}
    {only : Option String}
    {moved : Nat}
    (h : s.Recovered t (s.Expired cutoff only) moved)
    (v : String) :
    ¬t.Expired cutoff only v := by
  rintro ⟨⟨last, hlast, hle⟩, honly⟩
  by_cases hv : s.Expired cutoff only v
  · exact h.removed v hv (Finmap.mem_of_lookup_eq_some hlast)
  · rw [h.remaining v hv] at hlast
    exact hv ⟨⟨last, hlast, hle⟩, honly⟩

/-- **Orphan recovery moves exactly the expired workers' tasks**: each of them
once, behind the tasks that were active; everything else stays, the call replies
with their number, and does nothing when it is made again. -/
theorem orphans_recovered
    (cutoff : Nat)
    (only : Option String)
    (s : Store)
    (hdisjoint : ∀ v w, v ≠ w → Disjoint (s.inflightJobs v) (s.inflightJobs w))
    (hfits : ∀ v, s.Expired cutoff only v → rt.Fits (s.inflightJobs v).card) :
    ∃ moved t,
      (reenqueueOrphanedScript rt queue cutoff only).run s = (.ok moved, t) ∧
      s.Recovered t (s.Expired cutoff only) moved ∧
      ((∀ v, ¬s.Expired cutoff only v) → moved = 0 ∧ t = s) ∧
      (reenqueueOrphanedScript rt queue cutoff only).run t = (.ok 0, t) := by
  have hall : ∀ v ∈ s.expired cutoff only, rt.Fits (s.held rt v).length := by
    intro v hv
    rw [length_held]
    exact hfits v (mem_expired.mp hv)
  have hrecovered := recovered_all rt hdisjoint cutoff only
  have hidentity := @run_reenqueue_of_unexpired rt queue cutoff only s
  rw [reenqueueOrphanedScript] at hidentity ⊢
  rcases reenqueueOrphaned_cases rt queue cutoff only s with ⟨-, hreached, hrun⟩ | ⟨hstuck, -⟩
  · rw [hreached] at hrun
    refine ⟨_, _, hrun, hrecovered, fun hnone => ?_, ?_⟩
    · have hsame := hrun.symm.trans (hidentity hnone)
      injection hsame with hmoved hstate
      injection hmoved with hmoved
      exact ⟨hmoved, hstate⟩
    · exact run_reenqueue_of_unexpired rt queue hrecovered.unexpired
  · exact absurd hall hstuck

/-- In every state of a run, different workers hold different tasks. -/
theorem disjoint_inflight_run
    (calls : List Call)
    {v w : String}
    (hne : v ≠ w) :
    Disjoint ((run rt queue calls Store.empty).inflightJobs v)
      ((run rt queue calls Store.empty).inflightJobs w) := by
  obtain ⟨b, -, hb⟩ := reflects_run rt queue calls reflects_empty
  refine Finset.disjoint_left.mpr fun id hv hw => ?_
  rw [hb.mem_inflight] at hv hw
  rw [hv] at hw
  cases hw
  exact hne rfl

end Orphans

/-- Two workers hold a task each; the first one registered five seconds before
the other. -/
def twoHolders : List Call :=
  [registerW, .registerWorker 15 "v" 60 "RedisStorage" "apalis",
    .submit 0 true [plainPush "a" ∅, plainPush "b" ∅], .fetchNext 16 1 "w",
    .fetchNext 17 1 "v"]

/-- Only the first one is expired at the cutoff. -/
theorem twoHolders_recovered :
    let s := run (.ascending none) Config.default.queue twoHolders Store.empty
    ∃ moved t,
      (reenqueueOrphanedScript (.ascending none) Config.default.queue 14 none).run s =
        (.ok moved, t) ∧
      s.Recovered t (s.Expired 14 none) moved ∧
      ((∀ v, ¬s.Expired 14 none v) → moved = 0 ∧ t = s) ∧
      (reenqueueOrphanedScript (.ascending none) Config.default.queue 14 none).run t =
        (.ok 0, t) := by
  refine orphans_recovered (.ascending none) Config.default.queue 14 none _ ?_ ?_
  · intro v w hne
    exact disjoint_inflight_run _ _ _ hne
  · intro v hv limit hlimit
    cases hlimit

end ApalisRedis
