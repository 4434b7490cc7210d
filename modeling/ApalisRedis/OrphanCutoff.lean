import ApalisRedis.Persist

/-!
# The cutoff of orphan recovery

`reenqueue_orphaned` subtracts a number of seconds from the time: those of the
orphan timeout, a product that `orphaned_duration` computes with a factor cast to
`u32`, or those of one heartbeat interval when it asks for a single worker.

**Results.**
* `reenqueue_sends`: the cutoff is all that the client computes.
* `cutoffExact_iff`: when it is the time less the orphan timeout, or less the
  timeout of the filter.
* `expired_antitone`: then longer timeouts expire fewer workers.
-/

namespace ApalisRedis

open Lua Redis Script Rust

/-- The worker that the script is to recover, if it is a single one. -/
def WorkerFilter.single : WorkerFilter → Option String
  | only worker => some worker
  | allExcept _ => none

section Cutoff

variable (checks : Bool) (cfg : Config) (now : Nat)

/-- `expired_before`, unless its computation panics. -/
def cutoffSent : WorkerFilter → Option Nat
  | .only _ => u64Sub checks now cfg.heartbeatInterval.asSecs
  | .allExcept _ => cfg.orphanedDuration.bind fun deadFor => u64Sub checks now deadFor.asSecs

/-- The heartbeat interval times the missed heartbeats, up to the largest duration. -/
def Config.orphanTimeout : Duration :=
  cfg.heartbeatInterval.saturatingMul cfg.missedHeartbeats

/-- The timeout that the branch of each filter is about. -/
def Config.timeoutOf : WorkerFilter → Duration
  | .only _ => cfg.heartbeatInterval
  | .allExcept _ => cfg.orphanTimeout

/-- The orphan timeout is computed without a panic, and the cutoff that is sent is
the time less the seconds of the filter's timeout, or zero. -/
structure CutoffExact (timeout : WorkerFilter → Duration) : Prop where
  duration : cfg.orphanedDuration = some cfg.orphanTimeout
  sent : ∀ filter, cutoffSent checks cfg now filter = some (now - (timeout filter).asSecs)

/-- The product is computed as it is meant: the miss count fits the cast and the product
a duration, or the interval is zero, or the count that is cut gives the largest duration. -/
def Config.TimeoutComputed : Prop :=
  (cfg.missedHeartbeats < 2 ^ 32 ∧
      cfg.heartbeatInterval.nanos * cfg.missedHeartbeats ≤ Duration.largest.nanos) ∨
    cfg.heartbeatInterval.nanos = 0 ∨
    cfg.heartbeatInterval.nanos * asU32 cfg.missedHeartbeats = Duration.largest.nanos

/-- **The cutoff is all that the client computes**: it passes it to the script, or panics. -/
theorem reenqueue_sends
    (rt : Runtime)
    (filter : WorkerFilter) :
    (∃ cutoff, cutoffSent checks cfg now filter = some cutoff ∧
        reenqueue rt checks cfg now filter =
          reenqueueOrphanedScript rt cfg.queue cutoff filter.single) ∨
      (cutoffSent checks cfg now filter = none ∧
        ∃ message, reenqueue rt checks cfg now filter = raise message) := by
  cases filter with
  | only worker =>
      unfold reenqueue expiredBefore cutoffSent
      cases u64Sub checks now cfg.heartbeatInterval.asSecs with
      | none => exact .inr ⟨rfl, _, rfl⟩
      | some cutoff => exact .inl ⟨cutoff, rfl, rfl⟩
  | allExcept worker =>
      unfold reenqueue orphanedAfter expiredBefore cutoffSent
      cases cfg.orphanedDuration with
      | none => exact .inr ⟨rfl, _, rfl⟩
      | some deadFor =>
          cases hcutoff : u64Sub checks now deadFor.asSecs with
          | none =>
              refine .inr ⟨hcutoff, "attempt to subtract with overflow", ?_⟩
              simp only [pure_bind, hcutoff]
              rfl
          | some cutoff =>
              refine .inl ⟨cutoff, hcutoff, ?_⟩
              simp only [pure_bind, hcutoff]
              rfl

variable {checks cfg now}

theorem orphanedDuration_iff :
    cfg.orphanedDuration = some cfg.orphanTimeout ↔ cfg.TimeoutComputed :=
  Duration.mul_eq_saturatingMul_iff

/-- What is sent about all workers, when the timeout is computed. -/
theorem sent_allExcept_iff
    (hduration : cfg.orphanedDuration = some cfg.orphanTimeout)
    (worker : String) :
    cutoffSent checks cfg now (.allExcept worker) = some (now - cfg.orphanTimeout.asSecs) ↔
      cfg.orphanTimeout.asSecs ≤ now := by
  rw [cutoffSent, hduration, Option.bind_some]
  exact u64Sub_eq_clamped_iff cfg.orphanTimeout.asSecs_lt

/-- The cutoff for all workers is exact or not before a single worker is looked at. -/
theorem cutoffExact_iff_only
    {timeout : WorkerFilter → Duration}
    (hall : ∀ worker, timeout (.allExcept worker) = cfg.orphanTimeout) :
    CutoffExact checks cfg now timeout ↔
      cfg.TimeoutComputed ∧ cfg.orphanTimeout.asSecs ≤ now ∧
        ∀ worker, cutoffSent checks cfg now (.only worker) =
          some (now - (timeout (.only worker)).asSecs) := by
  constructor
  · rintro ⟨hduration, hsent⟩
    have hnow : cfg.orphanTimeout.asSecs ≤ now := by
      have hdefault := hsent (.allExcept "")
      rw [hall] at hdefault
      exact (sent_allExcept_iff hduration "").mp hdefault
    exact ⟨orphanedDuration_iff.mp hduration, hnow, fun worker => hsent (.only worker)⟩
  · rintro ⟨hcomputed, hnow, honly⟩
    have hduration := orphanedDuration_iff.mpr hcomputed
    refine ⟨hduration, fun filter => ?_⟩
    cases filter with
    | only worker => exact honly worker
    | allExcept worker =>
        rw [hall]
        exact (sent_allExcept_iff hduration worker).mpr hnow

/-- Less the orphan timeout for both filters. -/
theorem cutoffExact_orphanTimeout_iff :
    CutoffExact checks cfg now (fun _ => cfg.orphanTimeout) ↔
      cfg.TimeoutComputed ∧ cfg.orphanTimeout.asSecs ≤ now ∧
        cfg.heartbeatInterval.asSecs = cfg.orphanTimeout.asSecs := by
  rw [cutoffExact_iff_only fun _ => rfl]
  refine and_congr_right fun _ => and_congr_right fun hnow => ?_
  have hsent := @u64Sub_eq_some_sub_iff checks now _ _ cfg.heartbeatInterval.asSecs_lt hnow
  exact ⟨fun honly => hsent.mp (honly ""), fun hsecs _ => hsent.mpr hsecs⟩

/-- Less the timeout of each filter. -/
theorem cutoffExact_timeoutOf_iff :
    CutoffExact checks cfg now cfg.timeoutOf ↔
      cfg.TimeoutComputed ∧ cfg.orphanTimeout.asSecs ≤ now ∧
        cfg.heartbeatInterval.asSecs ≤ now := by
  rw [cutoffExact_iff_only fun _ => rfl]
  refine and_congr_right fun _ => and_congr_right fun _ => ?_
  have hsent := @u64Sub_eq_clamped_iff checks now _ cfg.heartbeatInterval.asSecs_lt
  exact ⟨fun honly => hsent.mp (honly ""), fun hsecs _ => hsent.mpr hsecs⟩

/-- A later cutoff expires all workers that an earlier one does. -/
theorem expired_subset
    {cutoff cutoff' : Nat}
    (hle : cutoff ≤ cutoff')
    (only : Option String)
    (s : Store) :
    s.expired cutoff only ⊆ s.expired cutoff' only := by
  intro v hv
  cases only with
  | none =>
      obtain ⟨score, hscore, hlo, hhi⟩ := ZSet.mem_rangeByScore.mp hv
      exact ZSet.mem_rangeByScore.mpr ⟨score, hscore, hlo, Nat.le_trans hhi hle⟩
  | some worker =>
      unfold Store.expired at hv ⊢
      dsimp only at hv ⊢
      split at hv
      · next hexpired =>
          obtain ⟨score, hscore, hhi⟩ := (Option.any_eq_true _ _).mp hexpired
          have hlater : (s.workers.lookup worker).any (· ≤ cutoff') = true := by
            rw [hscore, Option.any_some, decide_eq_true_eq]
            exact Nat.le_trans (of_decide_eq_true hhi) hle
          rwa [if_pos hlater]
      · cases hv

/-- **Longer timeouts expire fewer workers**, when the cutoffs are exact. -/
theorem expired_antitone
    {cfg' : Config}
    {timeout timeout' : WorkerFilter → Duration}
    (h : CutoffExact checks cfg now timeout)
    (h' : CutoffExact checks cfg' now timeout')
    {filter : WorkerFilter}
    (hle : (timeout filter).nanos ≤ (timeout' filter).nanos) :
    ∃ cutoff cutoff', cutoffSent checks cfg now filter = some cutoff ∧
      cutoffSent checks cfg' now filter = some cutoff' ∧
      ∀ s : Store, s.expired cutoff' filter.single ⊆ s.expired cutoff filter.single :=
  ⟨_, _, h.sent filter, h'.sent filter, fun s =>
    expired_subset (Nat.sub_le_sub_left (Duration.asSecs_le hle) now) filter.single s⟩

theorem timeoutOf_le
    {cfg' : Config}
    (hinterval : cfg.heartbeatInterval.nanos ≤ cfg'.heartbeatInterval.nanos)
    (hmissed : cfg.missedHeartbeats ≤ cfg'.missedHeartbeats)
    (filter : WorkerFilter) :
    (cfg.timeoutOf filter).nanos ≤ (cfg'.timeoutOf filter).nanos := by
  cases filter with
  | only worker => exact hinterval
  | allExcept worker => exact Duration.saturatingMul_le hinterval hmissed

end Cutoff

/-- **When the cutoff is exact**, for the orphan timeout and for the timeout of each
filter; and then raising the interval or the miss count expires no more workers. -/
theorem cutoffExact_iff
    (checks : Bool)
    (cfg : Config)
    (now : Nat) :
    (CutoffExact checks cfg now (fun _ => cfg.orphanTimeout) ↔
      cfg.TimeoutComputed ∧ cfg.orphanTimeout.asSecs ≤ now ∧
        cfg.heartbeatInterval.asSecs = cfg.orphanTimeout.asSecs) ∧
    (CutoffExact checks cfg now cfg.timeoutOf ↔
      cfg.TimeoutComputed ∧ cfg.orphanTimeout.asSecs ≤ now ∧
        cfg.heartbeatInterval.asSecs ≤ now) ∧
    ∀ cfg' : Config, cfg.heartbeatInterval.nanos ≤ cfg'.heartbeatInterval.nanos →
      cfg.missedHeartbeats ≤ cfg'.missedHeartbeats →
      CutoffExact checks cfg now cfg.timeoutOf → CutoffExact checks cfg' now cfg'.timeoutOf →
        ∀ filter, ∃ cutoff cutoff', cutoffSent checks cfg now filter = some cutoff ∧
          cutoffSent checks cfg' now filter = some cutoff' ∧
          ∀ s : Store, s.expired cutoff' filter.single ⊆ s.expired cutoff filter.single :=
  ⟨cutoffExact_orphanTimeout_iff, cutoffExact_timeoutOf_iff,
    fun _ hinterval hmissed h h' filter =>
      expired_antitone h h' (timeoutOf_le hinterval hmissed filter)⟩

/-- By default the cutoff is exact for the timeout of each filter, and not for the
orphan timeout. -/
theorem default_cutoffExact :
    CutoffExact true Config.default 1700000000 Config.default.timeoutOf ∧
      ¬CutoffExact true Config.default 1700000000 (fun _ => Config.default.orphanTimeout) := by
  obtain ⟨horphan, hown, -⟩ := cutoffExact_iff true Config.default 1700000000
  refine ⟨hown.mpr ⟨.inl (by decide), by decide, by decide⟩, fun h => ?_⟩
  exact absurd (horphan.mp h).2.2 (by decide)

/-- Workers are to be given up after 2^32 missed heartbeats. -/
def neverExpire : Config :=
  { Config.default with missedHeartbeats := 2 ^ 32 }

/-- The orphan timeout is zero, and every worker expires. -/
theorem neverExpire_not_exact :
    ¬∀ (checks : Bool) (cfg : Config) (now : Nat),
      cfg.orphanedDuration = some cfg.orphanTimeout ∧
        ∀ filter, cutoffSent checks cfg now filter = some (now - cfg.orphanTimeout.asSecs) := by
  intro hall
  have hduration := (hall true neverExpire 1700000000).1
  exact absurd hduration (by decide)

end ApalisRedis
