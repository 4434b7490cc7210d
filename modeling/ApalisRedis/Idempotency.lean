import ApalisRedis.Calls

/-!
# Idempotency keys

A push claims the idempotency key of each task with `SETNX`, lets the claim
expire after the configured time to live, and stores the task when the claim
succeeds.  The time to live is passed in whole seconds, with zero for "none".

**Results.**
* `spaced_acceptances`: tasks accepted with one key are at least the passed
  number of seconds apart.
* `deduplicates_iff`: the configurations under which keys deduplicate as
  documented are those with a time to live in whole seconds.
-/

namespace ApalisRedis

open Lua Redis Script Rust

/-- The time to live that `push_tasks` passes to the script. -/
def Config.ttlSeconds (cfg : Config) : Nat :=
  (cfg.idempotencyTtl.map Duration.asSecs).getD 0

/-- One step of a client: a push, or time passing. -/
inductive PushStep where
  | push (batch : List PushRecord)
  | wait (milliseconds : Nat)

/-- An acceptance: the server's instant in milliseconds, and the record stored then. -/
abbrev Acceptance := Nat × PushRecord

section Idempotency

variable (rt : Runtime) (queue : String) (ttl : Nat) (emitEvents : Bool)

def PushStep.exec : PushStep → Script Store Unit
  | .push batch => (fun _ => ()) <$> pushTasksScript rt queue ttl emitEvents batch
  | .wait milliseconds =>
      command (fun _ => ()) fun s => { s with clock := s.clock + milliseconds }

/-- The records of a batch whose ids enter the data hash, up to an error. -/
def accepted : List PushRecord → Nat × Nat → Store → List Acceptance
  | [], _, _ => []
  | r :: rest, counts, s =>
      let outcome := (pushTaskAt rt queue ttl emitEvents counts r).run s
      (if r.taskId ∉ s.jobData ∧ r.taskId ∈ outcome.2.jobData then [(s.clock, r)] else []) ++
        match outcome.1 with
        | .ok counts => accepted rest counts outcome.2
        | .error _ => []

/-- The acceptances of a run, in order. -/
def acceptances : List PushStep → Store → List Acceptance
  | [], _ => []
  | step :: steps, s =>
      (match step with
        | .push batch => accepted rt queue ttl emitEvents batch (0, 0) s
        | .wait _ => []) ++
        acceptances steps ((step.exec rt queue ttl emitEvents).run s).2

/-- Any two acceptances with one idempotency key are at least `ttl` seconds apart. -/
def Spaced (log : List Acceptance) : Prop :=
  log.Pairwise fun a b =>
    a.2.idempotencyKey = b.2.idempotencyKey → a.2.idempotencyKey ≠ "" →
      a.1 + 1000 * ttl ≤ b.1

/-- Every key accepted less than `ttl` seconds ago is still claimed. -/
def Guarded (s : Store) (log : List Acceptance) : Prop :=
  ∀ e ∈ log, e.2.idempotencyKey ≠ "" → ∀ now, s.clock ≤ now → now < e.1 + 1000 * ttl →
    Claim.live now (s.idempotency e.2.idempotencyKey) = true

variable {ttl}

theorem length_pos_of_ne
    {key : String}
    (hkey : key ≠ "") :
    0 < key.length := by
  rw [Nat.pos_iff_ne_zero]
  exact fun h => hkey (String.length_eq_zero_iff.mp h)

/-- What one record does to the clock and the claims. -/
theorem idempotency_pushTask
    (counts : Nat × Nat)
    (r : PushRecord)
    (s : Store) :
    ((pushTaskAt rt queue ttl emitEvents counts r).run s).2.clock = s.clock ∧
      ((pushTaskAt rt queue ttl emitEvents counts r).run s).2.idempotency =
        (s.claimKey ttl r).idempotency := by
  rw [run_pushTaskAt]
  split
  · split <;> exact ⟨rfl, rfl⟩
  · exact ⟨rfl, rfl⟩

/-- An accepted record found its key free. -/
theorem keyFree_of_accepted
    {counts : Nat × Nat}
    {r : PushRecord}
    {s : Store}
    (hnew : r.taskId ∉ s.jobData)
    (hstored : r.taskId ∈ ((pushTaskAt rt queue ttl emitEvents counts r).run s).2.jobData) :
    s.KeyFree r := by
  by_contra hclaimed
  rw [run_pushTaskAt, if_neg (fun h => hclaimed h.1)] at hstored
  exact hnew hstored

/-- The claim made by a record keeps the guard of all earlier acceptances. -/
theorem Guarded.claimKey
    {s : Store}
    {log : List Acceptance}
    (h : Guarded ttl s log)
    (r : PushRecord) :
    Guarded ttl (s.claimKey ttl r) log := by
  intro e he hkey now hnow hlt
  by_cases hclaim : 0 < r.idempotencyKey.length ∧ s.KeyFree r
  · by_cases hsame : e.2.idempotencyKey = r.idempotencyKey
    · have hfree := hclaim.2 hclaim.1
      have hlive := h e he hkey s.clock (Nat.le_refl _)
        (Nat.lt_of_le_of_lt hnow hlt)
      rw [hsame, hfree] at hlive
      cases hlive
    · have hold := h e he hkey now hnow hlt
      simpa [Store.claimKey, hclaim, hsame] using hold
  · have hold := h e he hkey now hnow hlt
    simpa [Store.claimKey, hclaim] using hold

/-- A record accepted now is guarded by the claim it has just made. -/
theorem Guarded.accept
    {s : Store}
    {log : List Acceptance}
    (h : Guarded ttl s log)
    {r : PushRecord}
    (hfree : s.KeyFree r) :
    Guarded ttl (s.claimKey ttl r) (log ++ [(s.clock, r)]) := by
  intro e he hkey now hnow hlt
  rcases List.mem_append.mp he with he | he
  · exact h.claimKey r e he hkey now hnow hlt
  · obtain rfl := List.mem_singleton.mp he
    have hclaim : 0 < r.idempotencyKey.length ∧ s.KeyFree r := ⟨length_pos_of_ne hkey, hfree⟩
    change s.clock ≤ now at hnow
    change now < s.clock + 1000 * ttl at hlt
    have httl : ttl ≠ 0 := by
      rintro rfl
      omega
    simp [Store.claimKey, hclaim, httl, Claim.live, hlt]

/-- The key of an acceptance is free again only after `ttl` seconds. -/
theorem Guarded.spaced
    {s : Store}
    {log : List Acceptance}
    (h : Guarded ttl s log)
    (hspaced : Spaced ttl log)
    {r : PushRecord}
    (hfree : s.KeyFree r) :
    Spaced ttl (log ++ [(s.clock, r)]) := by
  refine List.pairwise_append.mpr ⟨hspaced, List.pairwise_singleton _ _, ?_⟩
  intro e he e' he' hsame hkey
  obtain rfl := List.mem_singleton.mp he'
  by_contra hearly
  have hlive := h e he hkey s.clock (Nat.le_refl _) (Nat.not_le.mp hearly)
  change e.2.idempotencyKey = r.idempotencyKey at hsame
  rw [hsame] at hlive hkey
  rw [hfree (length_pos_of_ne hkey)] at hlive
  cases hlive

theorem Guarded.congr
    {s t : Store}
    {log : List Acceptance}
    (h : Guarded ttl s log)
    (hclock : s.clock ≤ t.clock)
    (hidempotency : t.idempotency = s.idempotency) :
    Guarded ttl t log := by
  intro e he hkey now hnow hlt
  rw [hidempotency]
  exact h e he hkey now (Nat.le_trans hclock hnow) hlt

/-- One record keeps the log guarded and spaced. -/
theorem guarded_pushTask
    {s : Store}
    {log : List Acceptance}
    (h : Guarded ttl s log)
    (hspaced : Spaced ttl log)
    (counts : Nat × Nat)
    (r : PushRecord) :
    let t := ((pushTaskAt rt queue ttl emitEvents counts r).run s).2
    let log' := log ++ if r.taskId ∉ s.jobData ∧ r.taskId ∈ t.jobData then [(s.clock, r)] else []
    Guarded ttl t log' ∧ Spaced ttl log' := by
  obtain ⟨hclock, hidempotency⟩ := idempotency_pushTask rt queue emitEvents counts r s
  intro t log'
  by_cases haccepted : r.taskId ∉ s.jobData ∧ r.taskId ∈ t.jobData
  · have hfree := keyFree_of_accepted rt queue emitEvents haccepted.1 haccepted.2
    have hlog : log' = log ++ [(s.clock, r)] := by
      simp only [log', if_pos haccepted]
    rw [hlog]
    exact ⟨(h.accept hfree).congr (Nat.le_of_eq hclock.symm) hidempotency,
      h.spaced hspaced hfree⟩
  · have hlog : log' = log := by
      simp only [log', if_neg haccepted, List.append_nil]
    rw [hlog]
    exact ⟨(h.claimKey r).congr (Nat.le_of_eq hclock.symm) hidempotency, hspaced⟩

/-- So does a batch, as far as the script gets. -/
theorem guarded_batch :
    ∀ (batch : List PushRecord) (counts : Nat × Nat) (s : Store) (log : List Acceptance),
      Guarded ttl s log → Spaced ttl log →
      Guarded ttl ((batch.foldlM (pushTaskAt rt queue ttl emitEvents) counts).run s).2
          (log ++ accepted rt queue ttl emitEvents batch counts s) ∧
        Spaced ttl (log ++ accepted rt queue ttl emitEvents batch counts s)
  | [], counts, s, log, h, hspaced => by
      simpa [accepted] using ⟨h, hspaced⟩
  | r :: rest, counts, s, log, h, hspaced => by
      have hstep := guarded_pushTask rt queue emitEvents h hspaced counts r
      rw [List.foldlM_cons]
      rcases hrun : (pushTaskAt rt queue ttl emitEvents counts r).run s with ⟨e | counts', t⟩
      · rw [run_bind_error hrun]
        simp only [hrun] at hstep
        simpa [accepted, hrun] using hstep
      · rw [run_bind_ok hrun]
        simp only [hrun] at hstep
        have ih := guarded_batch rest counts' t _ hstep.1 hstep.2
        simpa [accepted, hrun, List.append_assoc] using ih

/-- The signal that a push sets leaves the claims alone. -/
theorem guarded_pushTasks
    (batch : List PushRecord)
    (s : Store)
    (log : List Acceptance)
    (h : Guarded ttl s log)
    (hspaced : Spaced ttl log) :
    Guarded ttl ((pushTasksScript rt queue ttl emitEvents batch).run s).2
        (log ++ accepted rt queue ttl emitEvents batch (0, 0) s) ∧
      Spaced ttl (log ++ accepted rt queue ttl emitEvents batch (0, 0) s) := by
  obtain ⟨hguarded, hspaced'⟩ :=
    guarded_batch rt queue emitEvents batch (0, 0) s log h hspaced
  refine ⟨?_, hspaced'⟩
  rw [run_pushTasks]
  rcases hrun : (batch.foldlM (pushTaskAt rt queue ttl emitEvents) (0, 0)).run s with
    ⟨e | counts, t⟩
  · rw [hrun] at hguarded
    exact hguarded
  · rw [hrun] at hguarded
    change Guarded ttl (if 0 < counts.1 then t.wake else t) _
    split
    · exact hguarded.congr (Nat.le_refl _) rfl
    · exact hguarded

theorem acceptances_wait
    (milliseconds : Nat)
    (steps : List PushStep)
    (s : Store) :
    acceptances rt queue ttl emitEvents (.wait milliseconds :: steps) s =
      acceptances rt queue ttl emitEvents steps { s with clock := s.clock + milliseconds } :=
  rfl

theorem acceptances_push
    (batch : List PushRecord)
    (steps : List PushStep)
    (s : Store) :
    acceptances rt queue ttl emitEvents (.push batch :: steps) s =
      accepted rt queue ttl emitEvents batch (0, 0) s ++
        acceptances rt queue ttl emitEvents steps
          ((pushTasksScript rt queue ttl emitEvents batch).run s).2 := by
  rw [acceptances, PushStep.exec, run_map]
  rcases (pushTasksScript rt queue ttl emitEvents batch).run s with ⟨_ | _, _⟩ <;> rfl

theorem guarded_acceptances :
    ∀ (steps : List PushStep) (s : Store) (log : List Acceptance),
      Guarded ttl s log → Spaced ttl log →
      Spaced ttl (log ++ acceptances rt queue ttl emitEvents steps s)
  | [], s, log, _, hspaced => by
      simpa [acceptances] using hspaced
  | .wait milliseconds :: steps, s, log, h, hspaced => by
      rw [acceptances_wait]
      exact guarded_acceptances steps _ log (h.congr (Nat.le_add_right _ _) rfl) hspaced
  | .push batch :: steps, s, log, h, hspaced => by
      obtain ⟨hguarded, hspaced'⟩ :=
        guarded_pushTasks rt queue emitEvents batch s log h hspaced
      rw [acceptances_push, ← List.append_assoc]
      exact guarded_acceptances steps _ _ hguarded hspaced'

variable (ttl)

/-- **Acceptances with one key are at least `ttl` seconds apart.** -/
theorem spaced_acceptances
    (steps : List PushStep) :
    Spaced ttl (acceptances rt queue ttl emitEvents steps Store.empty) := by
  have hempty : Guarded ttl Store.empty [] := fun e he => by cases he
  exact guarded_acceptances rt queue emitEvents steps Store.empty [] hempty List.Pairwise.nil

/-- A record adds at most its own id, and is accepted when it does. -/
theorem mem_jobData_pushTask
    (counts : Nat × Nat)
    (r : PushRecord)
    (s : Store)
    (id : String) :
    let t := ((pushTaskAt rt queue ttl emitEvents counts r).run s).2
    id ∈ t.jobData ↔ id ∈ s.jobData ∨
      (r.taskId ∉ s.jobData ∧ r.taskId ∈ t.jobData) ∧ r.taskId = id := by
  rw [run_pushTaskAt]
  by_cases hnew : s.KeyFree r ∧ r.taskId ∉ s.jobData
  · have hinsert : id ∈ s.jobData.insert r.taskId r.taskData ↔
        id ∈ s.jobData ∨ (r.taskId ∉ s.jobData ∧
          r.taskId ∈ s.jobData.insert r.taskId r.taskData) ∧ r.taskId = id := by
      simp only [Finmap.mem_insert, hnew.2, not_false_eq_true, true_or, true_and, eq_comm]
      tauto
    rw [if_pos hnew]
    split <;> exact hinsert
  · rw [if_neg hnew]
    change id ∈ s.jobData ↔ id ∈ s.jobData ∨ (r.taskId ∉ s.jobData ∧ r.taskId ∈ s.jobData) ∧ _
    tauto

theorem mem_jobData_batch
    (id : String) :
    ∀ (batch : List PushRecord) (counts : Nat × Nat) (s : Store),
      id ∈ ((batch.foldlM (pushTaskAt rt queue ttl emitEvents) counts).run s).2.jobData ↔
        id ∈ s.jobData ∨ ∃ e ∈ accepted rt queue ttl emitEvents batch counts s, e.2.taskId = id
  | [], counts, s => by
      simp [accepted]
  | r :: rest, counts, s => by
      have hstep := mem_jobData_pushTask rt queue ttl emitEvents counts r s id
      rw [List.foldlM_cons, accepted]
      rcases hrun : (pushTaskAt rt queue ttl emitEvents counts r).run s with ⟨e | counts', t⟩
      · simp only [hrun] at hstep
        rw [run_bind_error hrun, hstep]
        by_cases hnew : r.taskId ∉ s.jobData ∧ r.taskId ∈ t.jobData
        · rw [if_pos hnew]
          simp [hnew]
        · rw [if_neg hnew]
          simp [hnew]
      · simp only [hrun] at hstep
        rw [run_bind_ok hrun, mem_jobData_batch id rest counts' t, hstep]
        by_cases hnew : r.taskId ∉ s.jobData ∧ r.taskId ∈ t.jobData
        · rw [if_pos hnew]
          simp [hnew, or_assoc]
        · rw [if_neg hnew]
          simp [hnew]

/-- The state after a run of pushes. -/
def pushAll (steps : List PushStep) (s : Store) : Store :=
  steps.foldl (fun s step => ((step.exec rt queue ttl emitEvents).run s).2) s

/-- **The stored tasks are the accepted ones.** -/
theorem mem_jobData_pushAll
    (id : String) :
    ∀ (steps : List PushStep) (s : Store),
      id ∈ (pushAll rt queue ttl emitEvents steps s).jobData ↔
        id ∈ s.jobData ∨ ∃ e ∈ acceptances rt queue ttl emitEvents steps s, e.2.taskId = id
  | [], s => by
      simp [pushAll, acceptances]
  | .wait milliseconds :: steps, s => by
      rw [acceptances_wait]
      exact mem_jobData_pushAll id steps { s with clock := s.clock + milliseconds }
  | .push batch :: steps, s => by
      have hnext : pushAll rt queue ttl emitEvents (.push batch :: steps) s =
          pushAll rt queue ttl emitEvents steps
            ((pushTasksScript rt queue ttl emitEvents batch).run s).2 := by
        rw [pushAll, List.foldl_cons, PushStep.exec, run_map]
        rcases (pushTasksScript rt queue ttl emitEvents batch).run s with ⟨_ | _, _⟩ <;> rfl
      have hdata : ((pushTasksScript rt queue ttl emitEvents batch).run s).2.jobData =
          ((batch.foldlM (pushTaskAt rt queue ttl emitEvents) (0, 0)).run s).2.jobData := by
        rw [run_pushTasks]
        rcases (batch.foldlM (pushTaskAt rt queue ttl emitEvents) (0, 0)).run s with ⟨e | counts, t⟩
        · rfl
        · change (if 0 < counts.1 then t.wake else t).jobData = t.jobData
          split <;> rfl
      rw [hnext, mem_jobData_pushAll id steps, hdata, mem_jobData_batch, acceptances_push]
      simp [or_assoc, or_and_right, exists_or]

/-- What a time to live promises about the acceptances of a run: with `none` at
most one for each key, else that they are at least the time to live apart. -/
def Deduplicated (idempotencyTtl : Option Duration) (log : List Acceptance) : Prop :=
  log.Pairwise fun a b =>
    a.2.idempotencyKey = b.2.idempotencyKey → a.2.idempotencyKey ≠ "" →
      ∃ d, idempotencyTtl = some d ∧ a.1 * 10 ^ 6 + d.nanos ≤ b.1 * 10 ^ 6

theorem idempotency_claimKey
    {r : PushRecord}
    {s : Store}
    (hkey : 0 < r.idempotencyKey.length)
    (hfree : s.KeyFree r) :
    (s.claimKey ttl r).idempotency = Function.update s.idempotency r.idempotencyKey
      (if ttl = 0 then none else some ⟨r.taskId, some (s.clock + 1000 * ttl)⟩) := by
  simp [Store.claimKey, hkey, hfree]

/-- A record with nothing but an id and a key. -/
def keyed (taskId key : String) : PushRecord :=
  ⟨taskId, .empty, 0, 25, ∅, 0, key⟩

/-- A push of one fresh record with a free key is an acceptance, whatever it replies. -/
theorem acceptances_push_one
    (r : PushRecord)
    (steps : List PushStep)
    (s : Store)
    (hfree : s.KeyFree r)
    (hnew : r.taskId ∉ s.jobData) :
    ∃ t : Store, t.clock = s.clock ∧ t.idempotency = (s.claimKey ttl r).idempotency ∧
      t.jobData = s.jobData.insert r.taskId r.taskData ∧
      acceptances rt queue ttl emitEvents (.push [r] :: steps) s =
        (s.clock, r) :: acceptances rt queue ttl emitEvents steps t := by
  have hrun := run_pushTaskAt rt queue ttl emitEvents (0, 0) r s
  rw [if_pos ⟨hfree, hnew⟩] at hrun
  have hbatch := run_pushTasks rt queue ttl emitEvents [r] s
  by_cases hfits : rt.Fits (2 * (pushMeta rt r).length)
  · rw [if_pos hfits] at hrun
    simp only [List.foldlM_cons, List.foldlM_nil, run_bind_ok hrun, run_pure] at hbatch
    refine ⟨((pushTasksScript rt queue ttl emitEvents [r]).run s).2, ?_, ?_, ?_, ?_⟩
    · rw [hbatch]
      split <;> rfl
    · rw [hbatch]
      split <;> rfl
    · rw [hbatch]
      split <;> rfl
    · rw [acceptances_push]
      simp [accepted, hrun, hnew, Store.say, Store.submit]
  · rw [if_neg hfits] at hrun
    simp only [List.foldlM_cons, List.foldlM_nil, run_bind_error hrun] at hbatch
    refine ⟨((pushTasksScript rt queue ttl emitEvents [r]).run s).2, ?_, ?_, ?_, ?_⟩
    · rw [hbatch]
      rfl
    · rw [hbatch]
      rfl
    · rw [hbatch]
      rfl
    · rw [acceptances_push]
      simp [accepted, hrun, hnew, Store.stash]

/-- Two tasks with one key, the second one as soon as the claim of the first is gone. -/
theorem acceptances_pushTwice :
    acceptances rt queue ttl emitEvents
        [.push [keyed "first" "key"], .wait (1000 * ttl), .push [keyed "second" "key"]]
        Store.empty =
      [(0, keyed "first" "key"), (1000 * ttl, keyed "second" "key")] := by
  have hfree : Store.empty.KeyFree (keyed "first" "key") := fun _ => rfl
  obtain ⟨t, hclock, hidempotency, hdata, hfirst⟩ := acceptances_push_one rt queue ttl emitEvents
    (keyed "first" "key") [.wait (1000 * ttl), .push [keyed "second" "key"]] Store.empty hfree
    Finmap.notMem_empty
  rw [hfirst, acceptances_wait]
  have hzero : t.clock = 0 := hclock
  have hclaim : t.idempotency "key" =
      if ttl = 0 then none else some ⟨"first", some (1000 * ttl)⟩ := by
    have hpos : 0 < (keyed "first" "key").idempotencyKey.length := by decide
    have hupdate : (Store.empty.claimKey ttl (keyed "first" "key")).idempotency =
        Function.update Store.empty.idempotency "key"
          (if ttl = 0 then none else some ⟨"first", some (0 + 1000 * ttl)⟩) :=
      idempotency_claimKey ttl hpos hfree
    rw [hidempotency, hupdate, Function.update_self, Nat.zero_add]
  have hfree' : Store.KeyFree { t with clock := t.clock + 1000 * ttl } (keyed "second" "key") := by
    intro _
    change Claim.live (t.clock + 1000 * ttl) (t.idempotency "key") = false
    rw [hclaim, hzero]
    split <;> simp [Claim.live]
  have hnew' : (keyed "second" "key").taskId ∉ t.jobData := by
    rw [hdata]
    decide
  obtain ⟨u, -, -, -, hsecond⟩ := acceptances_push_one rt queue ttl emitEvents
    (keyed "second" "key") [] { t with clock := t.clock + 1000 * ttl } hfree' hnew'
  rw [hsecond, acceptances, hzero, Nat.zero_add]
  rfl

/-- **When idempotency keys deduplicate**: exactly under a time to live in whole
seconds.  Without one the claim is deleted at once, and a fraction is lost. -/
theorem deduplicates_iff
    (cfg : Config) :
    (∀ steps, Deduplicated cfg.idempotencyTtl
        (acceptances rt cfg.queue cfg.ttlSeconds cfg.emitEvents steps Store.empty)) ↔
      ∃ d, cfg.idempotencyTtl = some d ∧ d.subsecNanos = 0 := by
  constructor
  · intro hall
    have htwice := hall [.push [keyed "first" "key"], .wait (1000 * cfg.ttlSeconds),
      .push [keyed "second" "key"]]
    rw [acceptances_pushTwice] at htwice
    obtain ⟨d, hd, hgap⟩ := List.rel_of_pairwise_cons htwice (List.mem_singleton_self _) rfl
      (by decide)
    refine ⟨d, hd, ?_⟩
    have hsecs : cfg.ttlSeconds = d.asSecs := by
      rw [Config.ttlSeconds, hd]
      rfl
    have hnanos := d.nanos_eq
    simp only [hsecs] at hgap
    omega
  · rintro ⟨d, hd, hwhole⟩ steps
    have hspaced := spaced_acceptances rt cfg.queue cfg.ttlSeconds cfg.emitEvents steps
    refine hspaced.imp fun hab hsame hkey => ⟨d, hd, ?_⟩
    have hgap := hab hsame hkey
    have hsecs : cfg.ttlSeconds = d.asSecs := by
      rw [Config.ttlSeconds, hd]
      rfl
    have hnanos := d.nanos_eq
    rw [hsecs] at hgap
    omega

/-- Without a time to live two tasks with one key are stored at the same instant. -/
theorem keys_without_ttl_not_kept :
    Config.default.idempotencyTtl = none ∧
      ¬Deduplicated Config.default.idempotencyTtl
        (acceptances (.ascending none) "default" Config.default.ttlSeconds true
          [.push [keyed "first" "key"], .wait 0, .push [keyed "second" "key"]] Store.empty) := by
  refine ⟨rfl, fun hdedup => ?_⟩
  have hlog := acceptances_pushTwice (.ascending none) "default" 0 true
  rw [show Config.default.ttlSeconds = 0 from rfl, hlog] at hdedup
  obtain ⟨d, hd, -⟩ := List.rel_of_pairwise_cons hdedup (List.mem_singleton_self _) rfl (by decide)
  cases hd

end Idempotency

end ApalisRedis
