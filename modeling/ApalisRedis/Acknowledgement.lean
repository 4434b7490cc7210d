import ApalisRedis.Board

/-!
# A batch of acknowledgements

`handle_results.lua` takes the records one after another and raises at the
first one whose task the worker does not hold.  The records before it have been
written by then, and a raised error does not undo them.

**Results.**
* `run_ackTasks`: what the script leaves, wherever it stops.
* `leavesNoTrace_iff`: a batch is all or nothing exactly when it has no
  offending record, or its first record is one.
-/

namespace ApalisRedis

open Lua Redis Script

/-- The records of a batch, recorded one after another. -/
def Store.ackAll (s : Store) (queue worker : String) (emitEvents : Bool)
    (batch : List AckRecord) : Store :=
  batch.foldl (fun s r => (s.ack worker r).say emitEvents (r.channel queue) r.taskId) s

/-- Every listed task is held by the worker and listed once. -/
def Store.HoldsOnce (s : Store) (worker : String) (batch : List AckRecord) : Prop :=
  (∀ r ∈ batch, r.taskId ∈ s.inflightJobs worker) ∧ (batch.map AckRecord.taskId).Nodup

/-- Every listed task has left the worker, is where its outcome sends it, and
has the outcome in its metadata. -/
def Store.Recorded (s t : Store) (worker : String) (batch : List AckRecord) : Prop :=
  ∀ r ∈ batch, r.taskId ∉ t.inflightJobs worker ∧ t.At r.taskId r.place ∧
    t.jobMeta r.taskId = Hash.setAll (s.jobMeta r.taskId) (ackMeta r)

/-- The inflight, done, dead and scheduled sets and all metadata are the same. -/
def Store.SameOutcomes (s t : Store) : Prop :=
  t.inflightJobs = s.inflightJobs ∧ t.doneJobs = s.doneJobs ∧ t.deadJobs = s.deadJobs ∧
    t.scheduledJobs = s.scheduledJobs ∧ t.jobMeta = s.jobMeta

/-- All or nothing: the whole batch is recorded, or the call fails without a trace. -/
def LeavesNoTrace (queue worker : String) (emitEvents : Bool) (batch : List AckRecord)
    (s : Store) : Prop :=
  let outcome := (handleResultsScript queue worker emitEvents batch).run s
  (s.HoldsOnce worker batch ∧ outcome.1 = .ok batch.length ∧
      s.Recorded outcome.2 worker batch) ∨
    ((∃ e, outcome.1 = .error e) ∧ s.SameOutcomes outcome.2)

section Acknowledgement

variable (queue worker : String) (emitEvents : Bool)

theorem inflight_ackAll
    (batch : List AckRecord)
    (s : Store) :
    (s.ackAll queue worker emitEvents batch).inflightJobs worker =
      s.inflightJobs worker \ (batch.map AckRecord.taskId).toFinset := by
  induction batch generalizing s with
  | nil => simp [Store.ackAll]
  | cons r rest ih =>
      change (Store.ackAll _ queue worker emitEvents rest).inflightJobs worker = _
      rw [ih]
      ext id
      simp only [Store.say, Store.ack, Function.update_self, List.map_cons, List.toFinset_cons,
        Finset.mem_sdiff, Finset.mem_erase, Finset.mem_insert, List.mem_toFinset]
      tauto

/-- What is outside the inflight sets stays through further records. -/
theorem at_ackAll
    (batch : List AckRecord)
    {s : Store}
    {id : String}
    {p : Place}
    (hp : p = .done ∨ p = .scheduled ∨ p = .dead)
    (hid : s.At id p) :
    (s.ackAll queue worker emitEvents batch).At id p := by
  induction batch generalizing s with
  | nil => exact hid
  | cons r rest ih =>
      refine ih ?_
      rcases hp with rfl | rfl | rfl
      · change id ∈ s.doneJobs at hid
        change id ∈ ite _ _ _
        split
        · exact Finset.mem_insert_of_mem hid
        · exact hid
      · change id ∈ s.scheduledJobs at hid
        change id ∈ ite _ _ _
        split
        · exact Finmap.mem_insert.mpr (.inr hid)
        · exact hid
      · change id ∈ s.deadJobs at hid
        change id ∈ ite _ _ _
        split
        · exact Finset.mem_insert_of_mem hid
        · exact hid

theorem jobMeta_ackAll
    (batch : List AckRecord)
    {id : String}
    (hid : id ∉ batch.map AckRecord.taskId)
    (s : Store) :
    (s.ackAll queue worker emitEvents batch).jobMeta id = s.jobMeta id := by
  induction batch generalizing s with
  | nil => rfl
  | cons r rest ih =>
      obtain ⟨hr, hrest⟩ := not_or.mp (fun h => hid (List.mem_cons.mpr h))
      change (Store.ackAll _ queue worker emitEvents rest).jobMeta id = _
      rw [ih hrest]
      exact Function.update_of_ne hr _ _

theorem holdsOnce_cons
    {r : AckRecord}
    {rest : List AckRecord}
    {s : Store}
    (hheld : r.taskId ∈ s.inflightJobs worker)
    (hrest : ((s.ack worker r).say emitEvents (r.channel queue) r.taskId).HoldsOnce worker rest) :
    s.HoldsOnce worker (r :: rest) := by
  have hkept : ∀ r' ∈ rest, r'.taskId ≠ r.taskId ∧ r'.taskId ∈ s.inflightJobs worker := by
    intro r' hr'
    have hmem := hrest.1 r' hr'
    simp only [Store.say, Store.ack, Function.update_self, Finset.mem_erase] at hmem
    exact hmem
  refine ⟨fun r' hr' => ?_, List.nodup_cons.mpr ⟨fun hmem => ?_, hrest.2⟩⟩
  · rcases List.mem_cons.mp hr' with rfl | hr'
    · exact hheld
    · exact (hkept r' hr').2
  · obtain ⟨r', hr', heq⟩ := List.mem_map.mp hmem
    exact (hkept r' hr').1 heq

/-- The script writes the records up to the first one whose task the worker no
longer holds. -/
theorem run_ackTasks
    (batch : List AckRecord)
    (acked : Nat)
    (s : Store) :
    let outcome := (batch.foldlM (ackTask (Keys.inflightSetFor queue worker)
      (Keys.doneJobsSet queue) (Keys.deadJobsSet queue) (Keys.scheduledJobsSet queue)
      (Keys.jobMetaHash queue) emitEvents) acked).run s
    (s.HoldsOnce worker batch ∧
      outcome = (.ok (acked + batch.length), s.ackAll queue worker emitEvents batch)) ∨
    ∃ written r rest, batch = written ++ r :: rest ∧ s.HoldsOnce worker written ∧
      r.taskId ∉ (s.ackAll queue worker emitEvents written).inflightJobs worker ∧
      outcome =
        (.error "task not executed by worker", s.ackAll queue worker emitEvents written) := by
  induction batch generalizing acked s with
  | nil => exact .inl ⟨⟨by simp, List.nodup_nil⟩, rfl⟩
  | cons r rest ih =>
      have hrun := run_ackTask queue worker emitEvents acked r s
      by_cases hheld : r.taskId ∈ s.inflightJobs worker
      · rw [if_pos hheld] at hrun
        simp only [List.foldlM_cons, run_bind_ok hrun]
        rcases ih (acked + 1) ((s.ack worker r).say emitEvents (r.channel queue) r.taskId) with
          ⟨honce, hok⟩ | ⟨written, r', rest', hsplit, honce, hmissing, herror⟩
        · refine .inl ⟨holdsOnce_cons queue worker emitEvents hheld honce, ?_⟩
          rw [hok, List.length_cons, Nat.add_assoc, Nat.add_comm 1]
          rfl
        · refine .inr ⟨r :: written, r', rest', ?_,
            holdsOnce_cons queue worker emitEvents hheld honce, hmissing, herror⟩
          rw [hsplit, List.cons_append]
      · rw [if_neg hheld] at hrun
        simp only [List.foldlM_cons, run_bind_error hrun]
        exact .inr ⟨[], r, rest, rfl, ⟨by simp, List.nodup_nil⟩, hheld, rfl⟩

theorem recorded_ackAll
    (batch : List AckRecord)
    (s : Store)
    (honce : s.HoldsOnce worker batch) :
    s.Recorded (s.ackAll queue worker emitEvents batch) worker batch := by
  intro r hr
  refine ⟨?_, ?_⟩
  · rw [inflight_ackAll, Finset.mem_sdiff, not_and_not_right]
    exact fun _ => List.mem_toFinset.mpr (List.mem_map_of_mem hr)
  obtain ⟨before, after, rfl⟩ := List.append_of_mem hr
  have hnd := honce.2
  rw [List.map_append, List.map_cons, List.nodup_append, List.nodup_cons] at hnd
  obtain ⟨-, ⟨hafter, -⟩, hdisjoint⟩ := hnd
  have hbefore : r.taskId ∉ before.map AckRecord.taskId := fun hmem =>
    hdisjoint _ hmem _ List.mem_cons_self rfl
  have hsplit : s.ackAll queue worker emitEvents (before ++ r :: after) =
      Store.ackAll (((s.ackAll queue worker emitEvents before).ack worker r).say emitEvents
        (r.channel queue) r.taskId) queue worker emitEvents after := by
    simp [Store.ackAll]
  rw [hsplit]
  refine ⟨at_ackAll queue worker emitEvents after ?_ ?_, ?_⟩
  · exact Reflects.place_ack r
  · rcases Reflects.place_ack r with hplace | hplace | hplace <;>
      simp [hplace, Store.At, Store.say, Store.ack]
  · rw [jobMeta_ackAll queue worker emitEvents after hafter]
    simp only [Store.say, Store.ack, Function.update_self]
    rw [jobMeta_ackAll queue worker emitEvents before hbefore]

/-- **When a failing batch leaves no trace**: exactly when every listed task is
held and listed once, or the first listed task is not held. -/
theorem leavesNoTrace_iff
    (batch : List AckRecord)
    (s : Store) :
    LeavesNoTrace queue worker emitEvents batch s ↔
      s.HoldsOnce worker batch ∨
        ∃ r ∈ batch.head?, r.taskId ∉ s.inflightJobs worker := by
  have hrun := run_ackTasks queue worker emitEvents batch 0 s
  rw [Nat.zero_add] at hrun
  change (s.HoldsOnce worker batch ∧
      (handleResultsScript queue worker emitEvents batch).run s = _) ∨ _ at hrun
  unfold LeavesNoTrace
  rcases hrun with ⟨honce, hok⟩ | ⟨written, r, rest, rfl, honce, hmissing, herror⟩
  · refine iff_of_true (.inl ⟨honce, ?_, ?_⟩) (.inl honce)
    · rw [hok]
    · rw [hok]
      exact recorded_ackAll queue worker emitEvents batch s honce
  · have hnot : ¬s.HoldsOnce worker (written ++ r :: rest) := by
      rintro ⟨hheld, hnd⟩
      rw [List.map_append, List.map_cons, List.nodup_append] at hnd
      rw [inflight_ackAll, Finset.mem_sdiff, not_and_not_right] at hmissing
      have hmem := List.mem_toFinset.mp (hmissing (hheld r (by simp)))
      exact hnd.2.2 _ hmem _ List.mem_cons_self rfl
    change (handleResultsScript queue worker emitEvents (written ++ r :: rest)).run s = _ at herror
    rw [herror]
    simp only [hnot, false_and, false_or]
    cases written with
    | nil =>
        refine iff_of_true ⟨⟨_, rfl⟩, rfl, rfl, rfl, rfl, rfl⟩ ⟨r, by simp, ?_⟩
        exact hmissing
    | cons r₀ written =>
        have hheld : r₀.taskId ∈ s.inflightJobs worker := honce.1 r₀ (by simp)
        refine iff_of_false ?_ ?_
        · rintro ⟨-, hinflight, -⟩
          have hgone : r₀.taskId ∉
              (s.ackAll queue worker emitEvents (r₀ :: written)).inflightJobs worker := by
            rw [inflight_ackAll]
            simp
          rw [hinflight] at hgone
          exact hgone hheld
        · rintro ⟨r', hr', hmissing'⟩
          cases hr'
          exact hmissing' hheld

/-- One task is fetched by a worker. -/
def oneFetched : Store :=
  run (.ascending none) "q"
    [.pushTasks 0 true [⟨"held", .empty, 0, 25, ∅, 0, ""⟩],
      .registerWorker 100 "w" 300 "RedisStorage" "",
      .fetchNext 100 10 "w"] Store.empty

/-- The first of two acknowledgements stays when the second one fails. -/
theorem failing_batch_leaves_trace :
    ¬LeavesNoTrace "q" "w" true
      [⟨"held", 101, "null", "Done", 1⟩, ⟨"other", 101, "null", "Done", 1⟩] oneFetched := by
  rintro (⟨⟨hheld, -⟩, -⟩ | ⟨-, hinflight, -⟩)
  · have hother := hheld ⟨"other", 101, "null", "Done", 1⟩ (by simp)
    revert hother
    decide +kernel
  · have hset := congrFun hinflight "w"
    revert hset
    decide +kernel

end Acknowledgement

end ApalisRedis
