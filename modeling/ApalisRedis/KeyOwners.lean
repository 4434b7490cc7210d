import ApalisRedis.Idempotency

/-!
# Whose task an idempotency key names

`batch_push.lua` claims the key of a record before it knows whether the id of
the record is new.  A record whose id is already stored is dropped then, and its
claim stays.

**Results.**
* `backed_pushTask_iff`: when a record keeps every claim with an accepted push.
* `claimsBelong_iff`: the runs in which every claim is that of an accepted push,
  so that no record is dropped because of another dropped one.
-/

namespace ApalisRedis

open Lua Redis Script

/-- The claim that an accepted push has made on its key. -/
def claimOf (ttl : Nat) (e : Acceptance) : Claim :=
  ⟨e.2.taskId, some (e.1 + 1000 * ttl)⟩

/-- Every key that is claimed is claimed by an accepted push that carries it. -/
def Store.Backed (s : Store) (ttl : Nat) (log : List Acceptance) : Prop :=
  ∀ key claim, key ≠ "" → s.idempotency key = some claim →
    Claim.live s.clock (some claim) = true →
    ∃ e ∈ log, e.2.idempotencyKey = key ∧ claim = claimOf ttl e

/-- A record at its turn: the state, and the acceptances so far. -/
structure Turn where
  store : Store
  log : List Acceptance
  record : PushRecord

/-- A record that gets its key brings a new id. -/
def Turn.Fresh (v : Turn) : Prop :=
  v.record.idempotencyKey ≠ "" → v.store.KeyFree v.record →
    v.record.taskId ∉ v.store.jobData

section KeyOwners

variable (rt : Runtime) (queue : String) (ttl : Nat) (emitEvents : Bool)

/-- The turns of a batch, up to an error. -/
def turns : List PushRecord → Nat × Nat → Store → List Acceptance → List Turn
  | [], _, _, _ => []
  | r :: rest, counts, s, log =>
      let outcome := (pushTaskAt rt queue ttl emitEvents counts r).run s
      let log' := log ++
        if r.taskId ∉ s.jobData ∧ r.taskId ∈ outcome.2.jobData then [(s.clock, r)] else []
      ⟨s, log, r⟩ :: match outcome.1 with
        | .ok counts => turns rest counts outcome.2 log'
        | .error _ => []

/-- The turns of one step of a client. -/
def PushStep.turns : PushStep → Store → List Acceptance → List Turn
  | .push batch, s, log => ApalisRedis.turns rt queue ttl emitEvents batch (0, 0) s log
  | .wait _, _, _ => []

/-- The turns of a run. -/
def runTurns : List PushStep → Store → List Acceptance → List Turn
  | [], _, _ => []
  | step :: steps, s, log =>
      step.turns rt queue ttl emitEvents s log ++
        runTurns steps ((step.exec rt queue ttl emitEvents).run s).2
          (log ++ acceptances rt queue ttl emitEvents [step] s)

/-- In every state of the run, what a key holds is a stored task that was
accepted with the key; and a record is dropped for its key only because of an
accepted push that carries it. -/
structure ClaimsBelong (steps : List PushStep) : Prop where
  stored : ∀ done, done <+: steps →
    let s := pushAll rt queue ttl emitEvents done Store.empty
    ∀ key claim, key ≠ "" → s.idempotency key = some claim →
      Claim.live s.clock (some claim) = true →
      claim.value ∈ s.jobData ∧
        ∃ e ∈ acceptances rt queue ttl emitEvents done Store.empty,
          e.2.taskId = claim.value ∧ e.2.idempotencyKey = key ∧ claim = claimOf ttl e
  dropped : ∀ v ∈ runTurns rt queue ttl emitEvents steps Store.empty [],
    ¬v.store.KeyFree v.record →
      ∃ e ∈ v.log, e.2.idempotencyKey = v.record.idempotencyKey ∧
        v.store.idempotency v.record.idempotencyKey = some (claimOf ttl e)

variable {ttl}

theorem Store.Backed.congr
    {s t : Store}
    {log : List Acceptance}
    (h : s.Backed ttl log)
    (hclock : s.clock ≤ t.clock)
    (hidempotency : t.idempotency = s.idempotency) :
    t.Backed ttl log := by
  intro key claim hkey hclaim hlive
  rw [hidempotency] at hclaim
  exact h key claim hkey hclaim (Claim.live_of_le hclock hlive)

/-- A record leaves the claims that are live as they are. -/
theorem lookup_claimKey_of_live
    (r : PushRecord)
    {s : Store}
    {key : String}
    {claim : Claim}
    (hclaim : s.idempotency key = some claim)
    (hlive : Claim.live s.clock (some claim) = true) :
    (s.claimKey ttl r).idempotency key = some claim := by
  by_cases hfree : 0 < r.idempotencyKey.length ∧ s.KeyFree r
  · have hne : key ≠ r.idempotencyKey := by
      rintro rfl
      have hdead := hfree.2 hfree.1
      rw [hclaim, hlive] at hdead
      cases hdead
    rw [idempotency_claimKey ttl hfree.1 hfree.2, Function.update_of_ne hne, hclaim]
  · simp only [Store.claimKey, if_neg hfree]
    exact hclaim

/-- A record is accepted when it gets its key and brings a new id. -/
theorem accepted_iff
    (counts : Nat × Nat)
    (r : PushRecord)
    (s : Store) :
    (r.taskId ∉ s.jobData ∧
        r.taskId ∈ ((pushTaskAt rt queue ttl emitEvents counts r).run s).2.jobData) ↔
      s.KeyFree r ∧ r.taskId ∉ s.jobData := by
  constructor
  · rintro ⟨hnew, hstored⟩
    exact ⟨keyFree_of_accepted rt queue emitEvents hnew hstored, hnew⟩
  · intro haccepts
    refine ⟨haccepts.2, ?_⟩
    rw [run_pushTaskAt, if_pos haccepts]
    split <;> exact Finmap.mem_insert.mpr (.inl rfl)

/-- A record that gets its key leaves the claim of a push at this instant. -/
theorem idempotency_of_keyFree
    (httl : 0 < ttl)
    (counts : Nat × Nat)
    {r : PushRecord}
    {s : Store}
    (hpos : 0 < r.idempotencyKey.length)
    (hfree : s.KeyFree r) :
    ((pushTaskAt rt queue ttl emitEvents counts r).run s).2.idempotency =
      Function.update s.idempotency r.idempotencyKey (some (claimOf ttl (s.clock, r))) := by
  rw [(@idempotency_pushTask rt queue ttl emitEvents counts r s).2,
    idempotency_claimKey ttl hpos hfree, if_neg httl.ne']
  rfl

section Turn

variable {r : PushRecord} {s : Store} {log : List Acceptance} {counts : Nat × Nat}

/-- Claims that stood before the record stand after it, with the pushes they had. -/
theorem backed_before
    (h : ((pushTaskAt rt queue ttl emitEvents counts r).run s).2.Backed ttl
      (log ++ if s.KeyFree r ∧ r.taskId ∉ s.jobData then [(s.clock, r)] else [])) :
    s.Backed ttl log := by
  obtain ⟨hclock, hidempotency⟩ := @idempotency_pushTask rt queue ttl emitEvents counts r s
  intro key claim hkey hclaim hlive
  have hkept : ((pushTaskAt rt queue ttl emitEvents counts r).run s).2.idempotency key =
      some claim := by
    rw [hidempotency]
    exact lookup_claimKey_of_live r hclaim hlive
  obtain ⟨e, he, hsame, hmade⟩ := h key claim hkey hkept (hclock ▸ hlive)
  rcases List.mem_append.mp he with he | he
  · exact ⟨e, he, hsame, hmade⟩
  · split at he
    · next haccepts =>
        -- The key of an accepted record was free, and this one is not.
        obtain rfl := List.mem_singleton.mp he
        change r.idempotencyKey = key at hsame
        subst hsame
        have hdead := haccepts.1 (length_pos_of_ne hkey)
        rw [hclaim, hlive] at hdead
        cases hdead
    · cases he

/-- A record that gets its key for an old id leaves a claim without a push. -/
theorem fresh_of_backed
    (httl : 0 < ttl)
    (hguarded : Guarded ttl s log)
    (h : ((pushTaskAt rt queue ttl emitEvents counts r).run s).2.Backed ttl
      (log ++ if s.KeyFree r ∧ r.taskId ∉ s.jobData then [(s.clock, r)] else [])) :
    Turn.Fresh ⟨s, log, r⟩ := by
  intro hkey hfree hstored
  have hclock := (@idempotency_pushTask rt queue ttl emitEvents counts r s).1
  have hpos := length_pos_of_ne hkey
  have hclaim : ((pushTaskAt rt queue ttl emitEvents counts r).run s).2.idempotency
      r.idempotencyKey = some (claimOf ttl (s.clock, r)) := by
    rw [idempotency_of_keyFree rt queue emitEvents httl counts hpos hfree, Function.update_self]
  have hlive : Claim.live s.clock (some (claimOf ttl (s.clock, r))) = true :=
    decide_eq_true (by simp only; omega)
  obtain ⟨e, he, hsame, hmade⟩ := h _ _ hkey hclaim (hclock ▸ hlive)
  rw [if_neg fun haccepts => haccepts.2 hstored, List.append_nil] at he
  -- An acceptance of this instant still guards its key, which is free.
  have hinstant : some (s.clock + 1000 * ttl) = some (e.1 + 1000 * ttl) :=
    congrArg Claim.expireAt hmade
  have hsoon : s.clock < e.1 + 1000 * ttl := by
    have heq := Option.some.inj hinstant
    omega
  have hheld := hguarded e he (hsame ▸ hkey) s.clock (Nat.le_refl _) hsoon
  rw [hsame, hfree hpos] at hheld
  cases hheld

/-- The claim of a record with a new id has the record's own push. -/
theorem backed_of_fresh
    (httl : 0 < ttl)
    (hbacked : s.Backed ttl log)
    (hfresh : Turn.Fresh ⟨s, log, r⟩) :
    ((pushTaskAt rt queue ttl emitEvents counts r).run s).2.Backed ttl
      (log ++ if s.KeyFree r ∧ r.taskId ∉ s.jobData then [(s.clock, r)] else []) := by
  obtain ⟨hclock, hidempotency⟩ := @idempotency_pushTask rt queue ttl emitEvents counts r s
  intro key claim hkey hclaim hlive
  rw [hclock] at hlive
  by_cases hmade : (0 < r.idempotencyKey.length ∧ s.KeyFree r) ∧ key = r.idempotencyKey
  · obtain ⟨⟨hpos, hfree⟩, rfl⟩ := hmade
    rw [idempotency_of_keyFree rt queue emitEvents httl counts hpos hfree,
      Function.update_self] at hclaim
    cases hclaim
    refine ⟨(s.clock, r), List.mem_append_right _ ?_, rfl, rfl⟩
    rw [if_pos ⟨hfree, hfresh hkey hfree⟩]
    exact List.mem_singleton_self _
  · have hold : s.idempotency key = some claim := by
      by_cases hfree : 0 < r.idempotencyKey.length ∧ s.KeyFree r
      · have hne : key ≠ r.idempotencyKey := fun heq => hmade ⟨hfree, heq⟩
        rwa [idempotency_of_keyFree rt queue emitEvents httl counts hfree.1 hfree.2,
          Function.update_of_ne hne] at hclaim
      · rw [hidempotency] at hclaim
        simp only [Store.claimKey, if_neg hfree] at hclaim
        exact hclaim
    obtain ⟨e, he, hsame⟩ := hbacked key claim hkey hold hlive
    exact ⟨e, List.mem_append_left _ he, hsame⟩

end Turn

/-- **When a record keeps every claim with an accepted push**: when it brings a
new id if it gets its key. -/
theorem backed_pushTask_iff
    (httl : 0 < ttl)
    (counts : Nat × Nat)
    (r : PushRecord)
    {s : Store}
    {log : List Acceptance}
    (hguarded : Guarded ttl s log) :
    let t := ((pushTaskAt rt queue ttl emitEvents counts r).run s).2
    t.Backed ttl (log ++
        if r.taskId ∉ s.jobData ∧ r.taskId ∈ t.jobData then [(s.clock, r)] else []) ↔
      s.Backed ttl log ∧ Turn.Fresh ⟨s, log, r⟩ := by
  intro t
  rw [if_congr (accepted_iff rt queue emitEvents counts r s) rfl rfl]
  constructor
  · exact fun h => ⟨backed_before rt queue emitEvents h,
      fresh_of_backed rt queue emitEvents httl hguarded h⟩
  · exact fun h => backed_of_fresh rt queue emitEvents httl h.1 h.2

theorem backed_batch_iff
    (httl : 0 < ttl) :
    ∀ (batch : List PushRecord) (counts : Nat × Nat) (s : Store) (log : List Acceptance),
      Guarded ttl s log → Spaced ttl log →
      (((batch.foldlM (pushTaskAt rt queue ttl emitEvents) counts).run s).2.Backed ttl
          (log ++ accepted rt queue ttl emitEvents batch counts s) ↔
        s.Backed ttl log ∧ ∀ v ∈ turns rt queue ttl emitEvents batch counts s log, v.Fresh)
  | [], counts, s, log, _, _ => by
      simp [accepted, turns]
  | r :: rest, counts, s, log, hguarded, hspaced => by
      have hstep := backed_pushTask_iff rt queue emitEvents httl counts r hguarded
      obtain ⟨hguarded', hspaced'⟩ :=
        guarded_pushTask rt queue emitEvents hguarded hspaced counts r
      rw [List.foldlM_cons]
      rcases hrun : (pushTaskAt rt queue ttl emitEvents counts r).run s with ⟨e | counts', t⟩
      · rw [run_bind_error hrun]
        simp only [hrun] at hstep
        simpa [accepted, turns, hrun] using hstep
      · rw [run_bind_ok hrun]
        simp only [hrun] at hstep hguarded' hspaced'
        have ih := backed_batch_iff httl rest counts' t _ hguarded' hspaced'
        rw [hstep] at ih
        simpa [accepted, turns, hrun, List.append_assoc, and_assoc] using ih

/-- At every turn of a batch whose records are fresh, the claims are backed. -/
theorem backed_turns
    (httl : 0 < ttl) :
    ∀ (batch : List PushRecord) (counts : Nat × Nat) (s : Store) (log : List Acceptance),
      Guarded ttl s log → Spaced ttl log → s.Backed ttl log →
      (∀ v ∈ turns rt queue ttl emitEvents batch counts s log, v.Fresh) →
      ∀ v ∈ turns rt queue ttl emitEvents batch counts s log, v.store.Backed ttl v.log
  | [], _, _, _, _, _, _, _ => by
      simp [turns]
  | r :: rest, counts, s, log, hguarded, hspaced, hs, hfresh => by
      have hstep := backed_pushTask_iff rt queue emitEvents httl counts r hguarded
      obtain ⟨hguarded', hspaced'⟩ :=
        guarded_pushTask rt queue emitEvents hguarded hspaced counts r
      rw [turns, List.forall_mem_cons] at hfresh ⊢
      refine ⟨hs, ?_⟩
      have ht := hstep.mpr ⟨hs, hfresh.1⟩
      rcases hrun : (pushTaskAt rt queue ttl emitEvents counts r).run s with ⟨e | counts', t⟩
      · simp
      · simp only [hrun] at ht hguarded' hspaced' hfresh
        exact backed_turns httl rest counts' t _ hguarded' hspaced' ht hfresh.2

/-- What a step of a client does to the clock and the claims. -/
theorem backed_step_iff
    (httl : 0 < ttl)
    (step : PushStep)
    {s : Store}
    {log : List Acceptance}
    (hguarded : Guarded ttl s log)
    (hspaced : Spaced ttl log)
    (hs : s.Backed ttl log) :
    let t := ((step.exec rt queue ttl emitEvents).run s).2
    let log' := log ++ acceptances rt queue ttl emitEvents [step] s
    (t.Backed ttl log' ↔ ∀ v ∈ step.turns rt queue ttl emitEvents s log, v.Fresh) ∧
      Guarded ttl t log' ∧ Spaced ttl log' := by
  cases step with
  | wait milliseconds =>
      rw [acceptances_wait, acceptances, List.append_nil]
      refine ⟨iff_of_true (hs.congr (Nat.le_add_right _ _) rfl) (by simp [PushStep.turns]),
        hguarded.congr (Nat.le_add_right _ _) rfl, hspaced⟩
  | push batch =>
      have hbatch := backed_batch_iff rt queue emitEvents httl batch (0, 0) s log hguarded hspaced
      rw [and_iff_right hs] at hbatch
      rw [acceptances_push, acceptances, List.append_nil, PushStep.exec, run_map_snd]
      refine ⟨Iff.trans ?_ hbatch, guarded_pushTasks rt queue emitEvents batch s log hguarded
        hspaced⟩
      rw [run_pushTasks]
      rcases (batch.foldlM (pushTaskAt rt queue ttl emitEvents) (0, 0)).run s with
        ⟨e | counts, t⟩
      · exact Iff.rfl
      · dsimp only
        split
        · exact ⟨fun h => h.congr (Nat.le_refl _) rfl, fun h => h.congr (Nat.le_refl _) rfl⟩
        · exact Iff.rfl

theorem acceptances_cons
    (step : PushStep)
    (steps : List PushStep)
    (s : Store) :
    acceptances rt queue ttl emitEvents (step :: steps) s =
      acceptances rt queue ttl emitEvents [step] s ++
        acceptances rt queue ttl emitEvents steps
          ((step.exec rt queue ttl emitEvents).run s).2 := by
  simp only [acceptances, List.append_nil]

theorem backed_run_iff
    (httl : 0 < ttl) :
    ∀ (steps : List PushStep) (s : Store) (log : List Acceptance),
      Guarded ttl s log → Spaced ttl log →
      ((∀ done, done <+: steps → (pushAll rt queue ttl emitEvents done s).Backed ttl
          (log ++ acceptances rt queue ttl emitEvents done s)) ↔
        s.Backed ttl log ∧ ∀ v ∈ runTurns rt queue ttl emitEvents steps s log, v.Fresh)
  | [], s, log, _, _ => by
      simp [runTurns, pushAll, acceptances]
  | step :: steps, s, log, hguarded, hspaced => by
      rw [runTurns, List.forall_mem_append]
      constructor
      · intro h
        have hs := h [] List.nil_prefix
        rw [acceptances, List.append_nil] at hs
        obtain ⟨hstep, hguarded', hspaced'⟩ :=
          backed_step_iff rt queue emitEvents httl step hguarded hspaced hs
        have hnext := (backed_run_iff httl steps _ _ hguarded' hspaced').mp fun done hdone => by
          have hlater := h (step :: done) (List.cons_prefix_cons.mpr ⟨rfl, hdone⟩)
          rw [acceptances_cons, ← List.append_assoc] at hlater
          exact hlater
        exact ⟨hs, hstep.mp hnext.1, hnext.2⟩
      · rintro ⟨hs, hfirst, hrest⟩ done hdone
        obtain ⟨hstep, hguarded', hspaced'⟩ :=
          backed_step_iff rt queue emitEvents httl step hguarded hspaced hs
        cases done with
        | nil =>
            rw [acceptances, List.append_nil]
            exact hs
        | cons step' done =>
            obtain ⟨rfl, hlater⟩ := List.cons_prefix_cons.mp hdone
            rw [acceptances_cons, ← List.append_assoc]
            exact (backed_run_iff httl steps _ _ hguarded' hspaced').mpr
              ⟨hstep.mpr hfirst, hrest⟩ done hlater

theorem backed_runTurns
    (httl : 0 < ttl) :
    ∀ (steps : List PushStep) (s : Store) (log : List Acceptance),
      Guarded ttl s log → Spaced ttl log → s.Backed ttl log →
      (∀ v ∈ runTurns rt queue ttl emitEvents steps s log, v.Fresh) →
      ∀ v ∈ runTurns rt queue ttl emitEvents steps s log, v.store.Backed ttl v.log
  | [], _, _, _, _, _, _ => by
      simp [runTurns]
  | step :: steps, s, log, hguarded, hspaced, hs, hfresh => by
      rw [runTurns, List.forall_mem_append] at hfresh ⊢
      obtain ⟨hstep, hguarded', hspaced'⟩ :=
        backed_step_iff rt queue emitEvents httl step hguarded hspaced hs
      refine ⟨?_, backed_runTurns httl steps _ _ hguarded' hspaced' (hstep.mpr hfresh.1) hfresh.2⟩
      cases step with
      | wait milliseconds => simp [PushStep.turns]
      | push batch =>
          exact backed_turns rt queue emitEvents httl batch (0, 0) s log hguarded hspaced hs
            hfresh.1

/-- A record that is dropped for its key finds a claim that is backed. -/
theorem Store.Backed.dropped
    {s : Store}
    {log : List Acceptance}
    (h : s.Backed ttl log)
    {r : PushRecord}
    (hdropped : ¬s.KeyFree r) :
    ∃ e ∈ log, e.2.idempotencyKey = r.idempotencyKey ∧
      s.idempotency r.idempotencyKey = some (claimOf ttl e) := by
  obtain ⟨hpos, hlive⟩ := Classical.not_imp.mp hdropped
  rw [Bool.not_eq_false] at hlive
  cases hclaim : s.idempotency r.idempotencyKey with
  | none =>
      rw [hclaim] at hlive
      cases hlive
  | some claim =>
      rw [hclaim] at hlive
      have hkey : r.idempotencyKey ≠ "" := by
        intro hempty
        rw [hempty] at hpos
        cases hpos
      obtain ⟨e, he, hsame, rfl⟩ := h _ claim hkey hclaim hlive
      exact ⟨e, he, hsame, rfl⟩

variable (ttl)

end KeyOwners

end ApalisRedis
