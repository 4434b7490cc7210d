import ApalisRedis.Config

/-!
# `batch_push.lua`

The script that stores a batch of tasks.  A task is dropped when its idempotency
key is already claimed or its id is already in the data hash; otherwise its data
and metadata are written and it goes to the scheduled set or to the active list.

**Results.**
* `run_pushTaskAt`: one turn of the loop.
* `run_pushRecords`: what the loop over any batch leaves and counts.
-/

namespace ApalisRedis
namespace Lua

open Redis Script

/-- One group of seven arguments, after `tonumber` and `cjson.decode`. -/
structure PushRecord where
  taskId : String
  taskData : Bytes
  attempts : Nat
  maxAttempts : Nat
  metadata : Hash String
  scheduleTime : Nat
  idempotencyKey : String

section BatchPush

variable (rt : Runtime)
variable (dataHash : Key Store (Hash Bytes))
variable (activeList signalList : Key Store (List String))
variable (metaPrefix : String → Key Store (Hash String))
variable (scheduledSet : Key Store ZSet)
variable (idempotencySet : String → Key Store (Option Claim))
variable (idempotencyTtl : Nat) (emitEvents : Bool)

/-- The base metadata, then the task's own metadata in the order `pairs` yields it. -/
def pushMeta (r : PushRecord) : List (String × String) :=
  [("attempts", rt.numeral r.attempts), ("max_attempts", rt.numeral r.maxAttempts),
    ("status", "Pending"), ("idempotency_key", r.idempotencyKey)] ++
    rt.fields r.metadata

/-- Whether the task may be stored: it has no idempotency key, or claims it now. -/
def claimIdempotencyKey (r : PushRecord) : Script Store Bool := do
  if 0 < r.idempotencyKey.length then
    let claimed ← setnx Store.clock (idempotencySet r.idempotencyKey) r.taskId
    if claimed = 0 then
      pure false
    else
      -- ARGV[1] is the text of the seconds, which is never empty.
      if 0 < (toString idempotencyTtl).length then
        expire Store.clock (idempotencySet r.idempotencyKey) idempotencyTtl
      pure true
  else
    pure true

/-- Put a stored task where it waits; the counts are (enqueued, scheduled). -/
def placeTask (counts : Nat × Nat) (r : PushRecord) : Script Store (Nat × Nat) := do
  if 0 < r.scheduleTime then
    zadd scheduledSet r.scheduleTime r.taskId
    pure (counts.1, counts.2 + 1)
  else
    let _ ← rpush activeList [r.taskId]
    if emitEvents then
      publish pubsub ("tasks:" ++ activeList.name ++ ":available") r.taskId
    pure (counts.1 + 1, counts.2)

/-- The body of the loop over the batch. -/
def pushTask (counts : Nat × Nat) (r : PushRecord) : Script Store (Nat × Nat) := do
  let allowed ← claimIdempotencyKey idempotencySet idempotencyTtl r
  if allowed then
    let set ← hsetnx dataHash r.taskId r.taskData
    if set = 1 then
      rt.unpack (2 * (pushMeta rt r).length)
      hset (metaPrefix r.taskId) (pushMeta rt r)
      placeTask activeList scheduledSet emitEvents counts r
    else
      pure counts
  else
    pure counts

/-- Wake the pollers: the signal list becomes `[1]`. -/
def setSignal : Script Store Unit := do
  delList signalList
  let _ ← lpush signalList "1"

/-- The whole script. -/
def batchPush (batch : List PushRecord) : Script Store (Nat × Nat) := do
  let counts ← batch.foldlM
    (pushTask rt dataHash activeList metaPrefix scheduledSet idempotencySet
      idempotencyTtl emitEvents) (0, 0)
  if 0 < counts.1 then
    setSignal signalList
  pure counts

end BatchPush

end Lua

open Lua Redis Script

namespace Store

/-- Whether the record's idempotency key, if it has one, is free. -/
def KeyFree (s : Store) (r : PushRecord) : Prop :=
  0 < r.idempotencyKey.length → Claim.live s.clock (s.idempotency r.idempotencyKey) = false

instance (s : Store) (r : PushRecord) : Decidable (s.KeyFree r) :=
  inferInstanceAs (Decidable (_ → _))

/-- The claim that a push leaves on its idempotency key. -/
def claimKey (s : Store) (ttl : Nat) (r : PushRecord) : Store :=
  { s with
    idempotency :=
      if 0 < r.idempotencyKey.length ∧ s.KeyFree r then
        Function.update s.idempotency r.idempotencyKey
          (if ttl = 0 then none else some ⟨r.taskId, some (s.clock + 1000 * ttl)⟩)
      else s.idempotency }

/-- The data is stored and nothing else: what a failing `unpack` leaves. -/
def stash (s : Store) (r : PushRecord) : Store :=
  { s with jobData := s.jobData.insert r.taskId r.taskData }

/-- The task is stored and put where it waits. -/
def submit (s : Store) (rt : Runtime) (r : PushRecord) : Store :=
  { s with
    jobData := s.jobData.insert r.taskId r.taskData
    jobMeta := Function.update s.jobMeta r.taskId
      (Hash.setAll (s.jobMeta r.taskId) (pushMeta rt r))
    activeJobs := if 0 < r.scheduleTime then s.activeJobs else s.activeJobs ++ [r.taskId]
    scheduledJobs :=
      if 0 < r.scheduleTime then s.scheduledJobs.insert r.taskId r.scheduleTime
      else s.scheduledJobs }

end Store

namespace Lua

section Specs

variable (rt : Runtime) (queue : String) (ttl : Nat) (emitEvents : Bool)

/-- The script at the keys that `push_tasks` passes. -/
def pushTaskAt (counts : Nat × Nat) (r : PushRecord) : Script Store (Nat × Nat) :=
  pushTask rt (Keys.jobDataHash queue) (Keys.activeJobsList queue) (Keys.jobMetaHash queue)
    (Keys.scheduledJobsSet queue) (Keys.idempotencyKeySet queue) ttl emitEvents counts r

@[simp] theorem run_setSignal
    (s : Store) :
    (setSignal (Keys.signalList queue)).run s = (.ok (), s.wake) := by
  simp [setSignal, Store.wake]

theorem run_claimIdempotencyKey
    (r : PushRecord)
    (s : Store) :
    (claimIdempotencyKey (Keys.idempotencyKeySet queue) ttl r).run s =
      (.ok (decide (s.KeyFree r)), s.claimKey ttl r) := by
  by_cases hkey : 0 < r.idempotencyKey.length
  · cases hlive : Claim.live s.clock (s.idempotency r.idempotencyKey)
    · by_cases httl : ttl = 0
      · simp [claimIdempotencyKey, Store.KeyFree, Store.claimKey, hkey, hlive, httl]
      · simp [claimIdempotencyKey, Store.KeyFree, Store.claimKey, hkey, hlive, httl]
    · simp [claimIdempotencyKey, Store.KeyFree, Store.claimKey, hkey, hlive]
  · simp [claimIdempotencyKey, Store.KeyFree, Store.claimKey, hkey]

theorem run_pushTaskAt
    (counts : Nat × Nat)
    (r : PushRecord)
    (s : Store) :
    (pushTaskAt rt queue ttl emitEvents counts r).run s =
      if s.KeyFree r ∧ r.taskId ∉ s.jobData then
        if rt.Fits (2 * (pushMeta rt r).length) then
          (.ok (if 0 < r.scheduleTime then (counts.1, counts.2 + 1)
              else (counts.1 + 1, counts.2)),
            ((s.claimKey ttl r).submit rt r).say (emitEvents && r.scheduleTime = 0)
              ("tasks:" ++ (queue ++ ":active") ++ ":available") r.taskId)
        else
          (.error "too many results to unpack", (s.claimKey ttl r).stash r)
      else
        (.ok counts, s.claimKey ttl r) := by
  have hclaim := run_claimIdempotencyKey queue ttl r s
  rw [pushTaskAt, pushTask, run_bind_ok hclaim]
  by_cases hfree : s.KeyFree r
  · by_cases hnew : r.taskId ∈ s.jobData
    · simp [hfree, hnew, Store.claimKey]
    · by_cases hfits : rt.Fits (2 * (pushMeta rt r).length)
      · by_cases hdue : 0 < r.scheduleTime
        · simp [hfree, hnew, hfits, hdue, hdue.ne', placeTask, Store.claimKey, Store.submit,
            Store.say]
        · have hzero : r.scheduleTime = 0 := by omega
          cases emitEvents <;>
            simp [hfree, hnew, hfits, hzero, placeTask, Store.claimKey, Store.submit, Store.say]
      · simp [hfree, hnew, hfits, Store.claimKey, Store.stash]
  · simp [hfree]

end Specs
end Lua

section Loop

variable (rt : Runtime) (queue : String) (ttl : Nat) (emitEvents : Bool)

namespace Store

/-- At its turn the record has a free idempotency key or none, and a new id. -/
def Admits (s : Store) (r : PushRecord) : Prop :=
  s.KeyFree r ∧ r.taskId ∉ s.jobData

instance (s : Store) (r : PushRecord) : Decidable (s.Admits r) :=
  inferInstanceAs (Decidable (_ ∧ _))

/-- One record has been pushed, with metadata that unpack. -/
def pushRecord (s : Store) (r : PushRecord) : Store :=
  if s.Admits r then
    ((s.claimKey ttl r).submit rt r).say (emitEvents && r.scheduleTime = 0)
      ("tasks:" ++ (queue ++ ":active") ++ ":available") r.taskId
  else
    s.claimKey ttl r

/-- A batch has been pushed, up to the signal. -/
def pushRecords (s : Store) (batch : List PushRecord) : Store :=
  batch.foldl (fun s r => s.pushRecord rt queue ttl emitEvents r) s

/-- The records of a batch that are newly accepted. -/
def acceptedRecords (s : Store) : List PushRecord → List PushRecord
  | [] => []
  | r :: batch =>
      (if s.Admits r then [r] else []) ++
        (s.pushRecord rt queue ttl emitEvents r).acceptedRecords batch

end Store

/-- How many records are enqueued, and how many are scheduled. -/
def tally (records : List PushRecord) : Nat × Nat :=
  (records.countP fun r => r.scheduleTime = 0, records.countP fun r => 0 < r.scheduleTime)

theorem tally_append
    (records later : List PushRecord) :
    tally (records ++ later) =
      ((tally records).1 + (tally later).1, (tally records).2 + (tally later).2) := by
  simp [tally]

/-- A record that is refused, or whose metadata unpack. -/
theorem run_pushTaskAt_ok
    (counts : Nat × Nat)
    {r : PushRecord}
    {s : Store}
    (hfits : s.Admits r → rt.Fits (2 * (pushMeta rt r).length)) :
    let accepted := if s.Admits r then [r] else []
    (pushTaskAt rt queue ttl emitEvents counts r).run s =
      (.ok (counts.1 + (tally accepted).1, counts.2 + (tally accepted).2),
        s.pushRecord rt queue ttl emitEvents r) := by
  intro accepted
  have hrun := run_pushTaskAt rt queue ttl emitEvents counts r s
  change _ = if s.Admits r then _ else _ at hrun
  unfold Store.pushRecord
  rcases em (s.Admits r) with hnew | hold
  · have haccepted : accepted = [r] := if_pos hnew
    rw [if_pos hnew, if_pos (hfits hnew)] at hrun
    rw [hrun, haccepted, if_pos hnew]
    rcases Nat.eq_zero_or_pos r.scheduleTime with hzero | hpos
    · simp [tally, hzero]
    · simp [tally, hpos, hpos.ne']
  · have haccepted : accepted = [] := if_neg hold
    rw [if_neg hold] at hrun
    rw [hrun, haccepted, if_neg hold]
    rfl

/-- **What the loop over a batch leaves and counts**, unless the metadata of a
newly accepted record do not unpack. -/
theorem run_pushRecords
    (batch : List PushRecord) :
    ∀ (counts : Nat × Nat) (s : Store),
      let accepted := s.acceptedRecords rt queue ttl emitEvents batch
      let outcome := (batch.foldlM (pushTaskAt rt queue ttl emitEvents) counts).run s
      ((∀ r ∈ accepted, rt.Fits (2 * (pushMeta rt r).length)) ∧
        outcome = (.ok (counts.1 + (tally accepted).1, counts.2 + (tally accepted).2),
          s.pushRecords rt queue ttl emitEvents batch)) ∨
      (¬∀ r ∈ accepted, rt.Fits (2 * (pushMeta rt r).length)) ∧
        ∃ message, outcome.1 = .error message := by
  induction batch with
  | nil => exact fun counts s => .inl ⟨by simp [Store.acceptedRecords], rfl⟩
  | cons r batch ih =>
      intro counts s accepted outcome
      have haccepted : accepted = (if s.Admits r then [r] else []) ++
          (s.pushRecord rt queue ttl emitEvents r).acceptedRecords rt queue ttl emitEvents
            batch := rfl
      have houtcome : outcome = (pushTaskAt rt queue ttl emitEvents counts r >>=
          fun counts => batch.foldlM (pushTaskAt rt queue ttl emitEvents) counts).run s := rfl
      by_cases hfits : s.Admits r → rt.Fits (2 * (pushMeta rt r).length)
      · have hrun := run_pushTaskAt_ok rt queue ttl emitEvents counts hfits
        have hfirst : ∀ r' ∈ (if s.Admits r then [r] else []),
            rt.Fits (2 * (pushMeta rt r').length) := by
          intro r' hr'
          split at hr'
          · next hnew => rw [List.mem_singleton.mp hr']; exact hfits hnew
          · cases hr'
        rw [run_bind_ok hrun] at houtcome
        rw [haccepted, houtcome]
        rcases ih _ (s.pushRecord rt queue ttl emitEvents r) with ⟨hall, hok⟩ | ⟨hstuck, herror⟩
        · refine .inl ⟨List.forall_mem_append.mpr ⟨hfirst, hall⟩, hok.trans ?_⟩
          rw [tally_append, Nat.add_assoc, Nat.add_assoc]
          rfl
        · exact .inr ⟨fun hall => hstuck (List.forall_mem_append.mp hall).2, herror⟩
      · obtain ⟨hnew, hstuck⟩ := Classical.not_imp.mp hfits
        have hrun := run_pushTaskAt rt queue ttl emitEvents counts r s
        change _ = if s.Admits r then _ else _ at hrun
        rw [if_pos hnew, if_neg hstuck] at hrun
        rw [run_bind_error hrun] at houtcome
        rw [haccepted, houtcome, if_pos hnew]
        exact .inr ⟨fun hall => hstuck (hall r List.mem_cons_self), _, rfl⟩

end Loop

end ApalisRedis
