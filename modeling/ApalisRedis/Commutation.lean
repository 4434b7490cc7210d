import ApalisRedis.Acknowledgement
import ApalisRedis.Lifecycle

/-!
# Acknowledgements by different workers

How far a batch of acknowledgements gets depends on nothing but the tasks that
its worker holds.  No task is held by two workers, so the records that two
workers get written are about different tasks, and their order does not matter.

**Results.**
* `run_handleResults`: what the script replies and leaves, from the held tasks.
* `acks_commute`: batches of different workers commute.
-/

namespace ApalisRedis

open Lua Redis Script

/-- The records that are written for a worker who holds these tasks: those
before the first one whose task is not held, or not any more. -/
def honoured (held : Finset String) : List AckRecord → List AckRecord
  | [] => []
  | r :: rest => if r.taskId ∈ held then r :: honoured (held.erase r.taskId) rest else []

/-- The store without the messages published so far. -/
def Store.muted (s : Store) : Store :=
  { s with published := [] }

/-- Two calls reply the same and leave the same outcomes in either order. -/
structure CallsCommute {α β : Type} (x : Script Store α) (y : Script Store β) (s : Store) :
    Prop where
  firstReply : (x.run s).1 = (x.run (y.run s).2).1
  secondReply : (y.run (x.run s).2).1 = (y.run s).1
  outcomes : (x.run (y.run s).2).2.SameOutcomes (y.run (x.run s).2).2

section Commutation

variable (rt : Runtime) (queue worker : String) (emitEvents : Bool)

theorem honoured_prefix
    (held : Finset String)
    (batch : List AckRecord) :
    honoured held batch <+: batch := by
  induction batch generalizing held with
  | nil => exact List.prefix_rfl
  | cons r rest ih =>
      rw [honoured]
      split
      · exact (List.cons_prefix_cons).mpr ⟨rfl, ih _⟩
      · exact List.nil_prefix

/-- Records about held tasks, each about another one, are written. -/
theorem honoured_append
    {held : Finset String}
    {batch : List AckRecord}
    (hheld : ∀ r ∈ batch, r.taskId ∈ held)
    (hnd : (batch.map AckRecord.taskId).Nodup)
    (rest : List AckRecord) :
    honoured held (batch ++ rest) =
      batch ++ honoured (held \ (batch.map AckRecord.taskId).toFinset) rest := by
  induction batch generalizing held with
  | nil => simp
  | cons r batch ih =>
      rw [List.forall_mem_cons] at hheld
      obtain ⟨hr, hnd⟩ := List.nodup_cons.mp hnd
      have hothers : ∀ r' ∈ batch, r'.taskId ∈ held.erase r.taskId := by
        intro r' hr'
        refine Finset.mem_erase.mpr ⟨fun heq => hr ?_, hheld.2 r' hr'⟩
        rw [← heq]
        exact List.mem_map_of_mem hr'
      have hleft : held.erase r.taskId \ (batch.map AckRecord.taskId).toFinset =
          held \ ((r :: batch).map AckRecord.taskId).toFinset := by
        rw [List.map_cons, List.toFinset_cons, Finset.sdiff_insert, Finset.erase_sdiff_comm]
      rw [List.cons_append, honoured, if_pos hheld.1, ih hothers hnd, hleft, List.cons_append]

/-- Every record that is written is about a held task, and about another one each. -/
theorem held_of_honoured
    (held : Finset String)
    (batch : List AckRecord) :
    (∀ r ∈ honoured held batch, r.taskId ∈ held) ∧
      ((honoured held batch).map AckRecord.taskId).Nodup := by
  induction batch generalizing held with
  | nil => exact ⟨by simp [honoured], List.nodup_nil⟩
  | cons r rest ih =>
      obtain ⟨hheld, hnd⟩ := ih (held.erase r.taskId)
      rw [honoured]
      split
      · next hr =>
          refine ⟨?_, List.nodup_cons.mpr ⟨fun hmem => ?_, hnd⟩⟩
          · rw [List.forall_mem_cons]
            exact ⟨hr, fun r' hr' => Finset.mem_of_mem_erase (hheld r' hr')⟩
          · obtain ⟨r', hr', heq⟩ := List.mem_map.mp hmem
            exact Finset.ne_of_mem_erase (hheld r' hr') heq
      · exact ⟨by simp, List.nodup_nil⟩

theorem holdsOnce_honoured
    (batch : List AckRecord)
    (s : Store) :
    s.HoldsOnce worker (honoured (s.inflightJobs worker) batch) :=
  held_of_honoured (s.inflightJobs worker) batch

/-- The loop over a batch, from the tasks that the worker holds. -/
theorem run_ackLoop
    (batch : List AckRecord)
    (acked : Nat)
    (s : Store) :
    (batch.foldlM (ackTask (Keys.inflightSetFor queue worker) (Keys.doneJobsSet queue)
        (Keys.deadJobsSet queue) (Keys.scheduledJobsSet queue) (Keys.jobMetaHash queue)
        emitEvents) acked).run s =
      (if (honoured (s.inflightJobs worker) batch).length = batch.length then
          .ok (acked + batch.length)
        else .error "task not executed by worker",
        s.ackAll queue worker emitEvents (honoured (s.inflightJobs worker) batch)) := by
  induction batch generalizing acked s with
  | nil => rfl
  | cons r rest ih =>
      have hrun := run_ackTask queue worker emitEvents acked r s
      rw [honoured]
      by_cases hheld : r.taskId ∈ s.inflightJobs worker
      · rw [if_pos hheld] at hrun ⊢
        have hleft : ((s.ack worker r).say emitEvents (r.channel queue) r.taskId).inflightJobs
            worker = (s.inflightJobs worker).erase r.taskId :=
          Function.update_self ..
        rw [List.foldlM_cons, run_bind_ok hrun, ih, hleft, List.length_cons, Nat.add_assoc,
          Nat.add_comm 1]
        simp only [List.length_cons, Nat.add_right_cancel_iff]
        rfl
      · rw [if_neg hheld] at hrun ⊢
        rw [List.foldlM_cons, run_bind_error hrun, if_neg (by simp)]
        rfl

/-- **What `handle_results.lua` does.** -/
theorem run_handleResults
    (batch : List AckRecord)
    (s : Store) :
    (handleResultsScript queue worker emitEvents batch).run s =
      (if (honoured (s.inflightJobs worker) batch).length = batch.length then .ok batch.length
        else .error "task not executed by worker",
        s.ackAll queue worker emitEvents (honoured (s.inflightJobs worker) batch)) := by
  have hrun := run_ackLoop queue worker emitEvents batch 0 s
  rw [Nat.zero_add] at hrun
  exact hrun

/-- Records of one worker leave the tasks of another. -/
theorem inflight_ackAll_of_ne
    {other : String}
    (hne : other ≠ worker)
    (batch : List AckRecord)
    (s : Store) :
    (s.ackAll queue worker emitEvents batch).inflightJobs other = s.inflightJobs other := by
  induction batch generalizing s with
  | nil => rfl
  | cons r rest ih =>
      change (Store.ackAll _ queue worker emitEvents rest).inflightJobs other = _
      rw [ih]
      exact Function.update_of_ne hne _ _

/-- Recording two tasks of two workers, in either order. -/
theorem ack_comm
    {worker other : String}
    (hne : worker ≠ other)
    {r r' : AckRecord}
    (hids : r.taskId ≠ r'.taskId)
    (s : Store) :
    (s.ack worker r).ack other r' = (s.ack other r').ack worker r := by
  have hinflight := Function.update_comm hne ((s.inflightJobs worker).erase r.taskId)
    ((s.inflightJobs other).erase r'.taskId) s.inflightJobs
  have hmeta := Function.update_comm hids (Hash.setAll (s.jobMeta r.taskId) (ackMeta r))
    (Hash.setAll (s.jobMeta r'.taskId) (ackMeta r')) s.jobMeta
  unfold Store.ack
  dsimp only
  rw [Function.update_of_ne hne, Function.update_of_ne hne.symm, Function.update_of_ne hids,
    Function.update_of_ne hids.symm, hinflight, hmeta]
  congr 1
  · split <;> split <;> first | rfl | exact Finmap.insert_insert_of_ne _ hids
  · split <;> split <;> first | rfl | exact Finset.insert_comm ..
  · split <;> split <;> first | rfl | exact Finset.insert_comm ..

theorem sameOutcomes_of_muted
    {s t : Store}
    (h : s.muted = t.muted) :
    s.SameOutcomes t := by
  have hinflight : s.muted.inflightJobs = t.muted.inflightJobs := congrArg _ h
  have hdone : s.muted.doneJobs = t.muted.doneJobs := congrArg _ h
  have hdead : s.muted.deadJobs = t.muted.deadJobs := congrArg _ h
  have hscheduled : s.muted.scheduledJobs = t.muted.scheduledJobs := congrArg _ h
  have hmeta : s.muted.jobMeta = t.muted.jobMeta := congrArg _ h
  exact ⟨hinflight.symm, hdone.symm, hdead.symm, hscheduled.symm, hmeta.symm⟩

/-- Without its messages, recording a batch is recording its records. -/
theorem muted_ackAll
    (batch : List AckRecord)
    (s : Store) :
    (s.ackAll queue worker emitEvents batch).muted =
      batch.foldl (fun s r => s.ack worker r) s.muted := by
  induction batch generalizing s with
  | nil => rfl
  | cons r rest ih => exact ih ((s.ack worker r).say emitEvents (r.channel queue) r.taskId)

variable {worker} {other : String}

theorem ackAll_comm
    (hne : worker ≠ other)
    (emitEvents' : Bool)
    {batch batch' : List AckRecord}
    (hids : ∀ r ∈ batch, ∀ r' ∈ batch', r.taskId ≠ r'.taskId)
    (s : Store) :
    ((s.ackAll queue worker emitEvents batch).ackAll queue other emitEvents' batch').muted =
      ((s.ackAll queue other emitEvents' batch').ackAll queue worker emitEvents batch).muted := by
  rw [muted_ackAll, muted_ackAll, muted_ackAll, muted_ackAll]
  exact Systems.foldl_comm (fun r hr r' hr' s => ack_comm hne (hids r hr r' hr') s) s.muted

/-- **Acknowledgements by different workers commute**, also where they fail midway. -/
theorem acks_commute
    (calls : List Call)
    (hne : worker ≠ other)
    (emitEvents' : Bool)
    (batch batch' : List AckRecord) :
    CallsCommute (handleResultsScript queue worker emitEvents batch)
      (handleResultsScript queue other emitEvents' batch') (run rt queue calls Store.empty) := by
  obtain ⟨b, -, hb⟩ := reflects_run rt queue calls reflects_empty
  generalize run rt queue calls Store.empty = s at hb
  -- No task is held by two workers.
  have hids : ∀ r ∈ honoured (s.inflightJobs worker) batch,
      ∀ r' ∈ honoured (s.inflightJobs other) batch', r.taskId ≠ r'.taskId := by
    intro r hr r' hr' heq
    have hfirst := hb.mem_inflight.mp ((held_of_honoured _ batch).1 r hr)
    have hsecond := hb.mem_inflight.mp ((held_of_honoured _ batch').1 r' hr')
    rw [heq, hsecond] at hfirst
    cases hfirst
    exact hne rfl
  have hsame := ackAll_comm queue emitEvents hne emitEvents' hids s
  constructor
  · rw [run_handleResults, run_handleResults, run_handleResults,
      inflight_ackAll_of_ne queue other emitEvents' hne]
  · rw [run_handleResults, run_handleResults, run_handleResults,
      inflight_ackAll_of_ne queue worker emitEvents hne.symm]
  · simp only [run_handleResults, inflight_ackAll_of_ne queue other emitEvents' hne,
      inflight_ackAll_of_ne queue worker emitEvents hne.symm]
    exact sameOutcomes_of_muted hsame.symm

end Commutation

/-- Two workers hold a task each, and each of them reports the other one's as well. -/
theorem two_workers_commute :
    CallsCommute
      (handleResultsScript "q" "w" true
        [⟨"a", 101, "null", "Done", 1⟩, ⟨"b", 101, "null", "Done", 1⟩])
      (handleResultsScript "q" "v" true
        [⟨"b", 102, "null", "Failed", 1⟩, ⟨"a", 102, "null", "Failed", 1⟩])
      (run (.ascending none) "q"
        [.pushTasks 0 true [⟨"a", .empty, 0, 25, ∅, 0, ""⟩, ⟨"b", .empty, 0, 25, ∅, 0, ""⟩],
          .registerWorker 100 "w" 300 "RedisStorage" "",
          .registerWorker 100 "v" 300 "RedisStorage" "",
          .fetchNext 100 1 "w", .fetchNext 100 1 "v"] Store.empty) :=
  acks_commute (.ascending none) "q" true _ (by decide) true _ _

end ApalisRedis
