import ApalisRedis.Moves
import ApalisRedis.Systems.Simulation

/-!
# The queue as a board of tasks

What the queue is for, without its structures: every accepted task is at one
place, and moves along a few kinds of hop.  No hop leaves the done set or the
dead set.  `Reflects` connects a store with the board it keeps, and the moves
of the store simulate the steps of the board.

**Results.**
* `Board.stays`: a finished task stays where it is.
* `move_simulates`: without vacuums, every move of the store is a step of the board.
* `Reflects.run`: so every run of moves is a run of the board.
-/

namespace ApalisRedis

open Lua Redis

/-- The place of every task, `none` for a task that was never accepted. -/
abbrev Board := String → Option Place

/-- The places that are final. -/
def Place.Final : Place → Prop
  | .done => True
  | .dead => True
  | _ => False

/-- The ways a single task can go. -/
inductive Hop : Option Place → Option Place → Prop
  | stay (p : Option Place) : Hop p p
  | enqueue : Hop none (some .active)
  | schedule : Hop none (some .scheduled)
  | promote : Hop (some .scheduled) (some .active)
  | deliver (worker : String) : Hop (some .active) (some (.inflight worker))
  | giveBack (worker : String) : Hop (some (.inflight worker)) (some .active)
  | retry (worker : String) : Hop (some (.inflight worker)) (some .scheduled)
  | finish (worker : String) : Hop (some (.inflight worker)) (some .done)
  | bury (worker : String) : Hop (some (.inflight worker)) (some .dead)

namespace Board

def empty : Board := fun _ => none

/-- One step of the board: every task makes at most one hop. -/
def Step (b b' : Board) : Prop :=
  ∀ id, Hop (b id) (b' id)

theorem Step.refl
    (b : Board) :
    Step b b :=
  fun id => .stay (b id)

theorem Step.update
    {b : Board}
    {id : String}
    {p : Option Place}
    (h : Hop (b id) p) :
    Step b (Function.update b id p) := by
  intro id'
  by_cases heq : id' = id
  · subst heq
    simpa using h
  · simpa [heq] using Hop.stay (b id')

/-- Several tasks make the same hop. -/
theorem Step.relocate
    {b : Board}
    {ids : List String}
    {p q : Place}
    (hq : Hop (some p) (some q))
    (hids : ∀ id ∈ ids, b id = some p) :
    Step b fun id => if id ∈ ids then some q else b id := by
  intro id
  by_cases hid : id ∈ ids
  · simpa [hid, hids id hid] using hq
  · simpa [hid] using Hop.stay (b id)

end Board

theorem Hop.final
    {p : Place}
    {q : Option Place}
    (hp : p.Final)
    (h : Hop (some p) q) :
    q = some p := by
  cases h with
  | stay => rfl
  | _ => exact hp.elim

theorem Hop.known
    {p q : Option Place}
    (h : Hop p q)
    (hp : p ≠ none) :
    q ≠ none := by
  cases h with
  | stay => exact hp
  | _ => simp

/-- **A finished task stays where it is.** -/
theorem Board.stays
    {b b' : Board}
    {id : String}
    {p : Place}
    (hp : p.Final)
    (hrun : Relation.ReflTransGen Board.Step b b')
    (hid : b id = some p) :
    b' id = some p := by
  refine Systems.preserved (I := fun b => b id = some p) (fun b b' hstep hb => ?_) hrun hid
  have hhop : Hop (b id) (b' id) := hstep id
  rw [hb] at hhop
  exact hhop.final hp

/-- Where the store has a task. -/
def Store.At (s : Store) (id : String) : Place → Prop
  | .active => id ∈ s.activeJobs
  | .scheduled => id ∈ s.scheduledJobs
  | .inflight worker => id ∈ s.inflightJobs worker
  | .done => id ∈ s.doneJobs
  | .dead => id ∈ s.deadJobs

/-- The store keeps the tasks of the board at their places, the active ones once
each, and has the data of all of them. -/
structure Reflects (s : Store) (b : Board) : Prop where
  place : ∀ id p, s.At id p ↔ b id = some p
  nodup : s.activeJobs.Nodup
  stored : ∀ id, b id ≠ none → id ∈ s.jobData

theorem reflects_empty :
    Reflects Store.empty Board.empty where
  place id p := by
    cases p <;> simp [Store.At, Store.empty, Board.empty, Finmap.notMem_empty]
  nodup := List.nodup_nil
  stored id h := absurd rfl h

namespace Reflects

variable {s : Store} {b : Board}

theorem unknown
    (h : Reflects s b)
    {id : String}
    (hnew : id ∉ s.jobData) :
    b id = none := by
  by_contra hknown
  exact hnew (h.stored id hknown)

theorem mem_active
    (h : Reflects s b)
    {id : String} :
    id ∈ s.activeJobs ↔ b id = some .active :=
  h.place id .active

theorem mem_scheduled
    (h : Reflects s b)
    {id : String} :
    id ∈ s.scheduledJobs ↔ b id = some .scheduled :=
  h.place id .scheduled

theorem mem_inflight
    (h : Reflects s b)
    {id worker : String} :
    id ∈ s.inflightJobs worker ↔ b id = some (.inflight worker) :=
  h.place id (.inflight worker)

theorem mem_done
    (h : Reflects s b)
    {id : String} :
    id ∈ s.doneJobs ↔ b id = some .done :=
  h.place id .done

theorem mem_dead
    (h : Reflects s b)
    {id : String} :
    id ∈ s.deadJobs ↔ b id = some .dead :=
  h.place id .dead

/-- A waiting task is not held. -/
theorem ne_of_waiting
    (h : Reflects s b)
    {id taskId worker : String}
    (hwaits : id ∈ s.activeJobs ∨ id ∈ s.scheduledJobs)
    (hheld : taskId ∈ s.inflightJobs worker) :
    id ≠ taskId := by
  rintro rfl
  rw [h.mem_inflight] at hheld
  rcases hwaits with hactive | hscheduled
  · rw [h.mem_active, hheld] at hactive
    cases hactive
  · rw [h.mem_scheduled, hheld] at hscheduled
    cases hscheduled

/-- The store changes, the places do not. -/
theorem congr
    (h : Reflects s b)
    {t : Store}
    (hactive : t.activeJobs = s.activeJobs)
    (hscheduled : t.scheduledJobs = s.scheduledJobs)
    (hinflight : t.inflightJobs = s.inflightJobs)
    (hdone : t.doneJobs = s.doneJobs)
    (hdead : t.deadJobs = s.deadJobs)
    (hdata : ∀ id ∈ s.jobData, id ∈ t.jobData) :
    Reflects t b where
  place id p := by
    rw [← h.place id p]
    cases p <;> simp [Store.At, hactive, hscheduled, hinflight, hdone, hdead]
  nodup := by
    rw [hactive]
    exact h.nodup
  stored id hid := hdata id (h.stored id hid)

theorem submit
    {rt : Runtime}
    (h : Reflects s b)
    (r : PushRecord)
    (hnew : r.taskId ∉ s.jobData) :
    Reflects (s.submit rt r) (Function.update b r.taskId
      (some (if 0 < r.scheduleTime then .scheduled else .active))) := by
  have hnone := h.unknown hnew
  refine ⟨fun id p => ?_, ?_, fun id hid => ?_⟩
  · have hplace := h.place id p
    by_cases heq : id = r.taskId
    · subst heq
      rw [hnone] at hplace
      by_cases hdue : 0 < r.scheduleTime <;> cases p <;>
        simp_all [Store.At, Store.submit]
    · by_cases hdue : 0 < r.scheduleTime <;> cases p <;>
        simp_all [Store.At, Store.submit]
  · have hactive : r.taskId ∉ s.activeJobs := by
      rw [h.mem_active, hnone]
      simp
    by_cases hdue : 0 < r.scheduleTime
    · simpa [Store.submit, hdue] using h.nodup
    · have happend : (s.activeJobs ++ [r.taskId]).Nodup :=
        h.nodup.append (List.nodup_singleton _) (by simpa using hactive)
      simpa [Store.submit, hdue] using happend
  · by_cases heq : id = r.taskId
    · simp [Store.submit, heq]
    · have hknown : b id ≠ none := by simpa [heq] using hid
      simp [Store.submit, h.stored id hknown]

theorem promote
    (h : Reflects s b)
    {taskIds : List String}
    (hnd : taskIds.Nodup)
    (hids : ∀ id ∈ taskIds, id ∈ s.scheduledJobs) :
    Reflects (s.promote taskIds) fun id => if id ∈ taskIds then some .active else b id := by
  refine ⟨fun id p => ?_, ?_, fun id hid => ?_⟩
  · have hplace := h.place id p
    by_cases hid : id ∈ taskIds
    · have hscheduled := h.mem_scheduled.mp (hids id hid)
      rw [hscheduled] at hplace
      cases p <;> simp_all [Store.At, Store.promote, Hash.mem_eraseAll]
    · cases p <;> simp_all [Store.At, Store.promote, Hash.mem_eraseAll]
  · refine h.nodup.append hnd fun id hactive hid => ?_
    have hscheduled := h.mem_scheduled.mp (hids id hid)
    rw [h.mem_active, hscheduled] at hactive
    cases hactive
  · by_cases hmem : id ∈ taskIds
    · exact h.stored id (by rw [h.mem_scheduled.mp (hids id hmem)]; simp)
    · exact h.stored id (by simpa [hmem] using hid)

theorem deliver
    (h : Reflects s b)
    (worker : String)
    {taskIds : List String}
    (hids : taskIds <+: s.activeJobs) :
    Reflects (s.deliver worker taskIds) fun id =>
      if id ∈ taskIds then some (.inflight worker) else b id := by
  obtain ⟨rest, hrest⟩ := hids
  have hnd := h.nodup
  rw [← hrest, List.nodup_append] at hnd
  have hdrop : s.activeJobs.drop taskIds.length = rest := by
    rw [← hrest, List.drop_left]
  refine ⟨fun id p => ?_, ?_, fun id hid => ?_⟩
  · have hplace := h.place id p
    by_cases hid : id ∈ taskIds
    · have hactive : b id = some .active := by
        rw [← h.mem_active, ← hrest]
        exact List.mem_append_left _ hid
      have hnotrest : id ∉ rest := fun hmem => hnd.2.2 id hid id hmem rfl
      rw [hactive] at hplace
      cases p with
      | inflight w =>
          by_cases hw : w = worker
          · subst hw
            simp_all [Store.At, Store.deliver]
          · have hw' : worker ≠ w := fun heq => hw heq.symm
            simp_all [Store.At, Store.deliver]
      | _ => simp_all [Store.At, Store.deliver]
    · have hrest' : id ∈ rest ↔ id ∈ s.activeJobs := by
        rw [← hrest, List.mem_append, or_iff_right hid]
      cases p with
      | inflight w =>
          by_cases hw : w = worker
          · subst hw
            simp_all [Store.At, Store.deliver]
          · simp_all [Store.At, Store.deliver]
      | _ => simp_all [Store.At, Store.deliver]
  · rw [Store.deliver, hdrop]
    exact hnd.2.1
  · by_cases hmem : id ∈ taskIds
    · have hactive : id ∈ s.activeJobs := hrest ▸ List.mem_append_left _ hmem
      exact h.stored id (by rw [h.mem_active.mp hactive]; simp)
    · exact h.stored id (by simpa [hmem] using hid)

/-- A held task is in no list, so locking it again moves nothing. -/
theorem lock
    (h : Reflects s b)
    {worker : String}
    (now : Nat)
    {taskId : String}
    (hheld : taskId ∈ s.inflightJobs worker) :
    Reflects (s.lock worker now taskId) b := by
  have hplace := h.mem_inflight.mp hheld
  have hactive : taskId ∉ s.activeJobs := by
    rw [h.mem_active, hplace]
    simp
  refine h.congr ?_ rfl ?_ rfl rfl fun _ hid => hid
  · exact List.erase_of_not_mem hactive
  · change Function.update s.inflightJobs worker (insert taskId (s.inflightJobs worker)) = _
    rw [Finset.insert_eq_self.mpr hheld, Function.update_eq_self]

theorem place_ack
    (r : AckRecord) :
    r.place = .done ∨ r.place = .scheduled ∨ r.place = .dead := by
  unfold AckRecord.place
  split
  · exact .inl rfl
  · split
    · exact .inr (.inl rfl)
    · exact .inr (.inr rfl)

theorem ack
    (h : Reflects s b)
    {worker : String}
    {r : AckRecord}
    (hheld : r.taskId ∈ s.inflightJobs worker) :
    Reflects (s.ack worker r) (Function.update b r.taskId (some r.place)) := by
  have hfrom := h.mem_inflight.mp hheld
  refine ⟨fun id p => ?_, h.nodup, fun id hid => ?_⟩
  · have hplace := h.place id p
    by_cases heq : id = r.taskId
    · subst heq
      rw [hfrom] at hplace
      cases p with
      | inflight w =>
          by_cases hw : w = worker
          · subst hw
            rcases place_ack r with hr | hr | hr <;> simp_all [Store.At, Store.ack]
          · have hw' : worker ≠ w := fun heq => hw heq.symm
            rcases place_ack r with hr | hr | hr <;> simp_all [Store.At, Store.ack]
      | _ => rcases place_ack r with hr | hr | hr <;> simp_all [Store.At, Store.ack]
    · cases p with
      | inflight w =>
          by_cases hw : w = worker
          · subst hw
            simp_all [Store.At, Store.ack]
          · simp_all [Store.At, Store.ack]
      | _ => rcases place_ack r with hr | hr | hr <;> simp_all [Store.At, Store.ack]
  · by_cases heq : id = r.taskId
    · subst heq
      exact h.stored _ (by rw [hfrom]; simp)
    · exact h.stored id (by simpa [heq] using hid)

/-- The tasks that a worker gives back become active. -/
theorem giveBack
    (h : Reflects s b)
    {worker : String}
    {taskIds : List String}
    (hnd : taskIds.Nodup)
    (hheld : ∀ id ∈ taskIds, id ∈ s.inflightJobs worker)
    {t : Store}
    (hactive : t.activeJobs = s.activeJobs ++ taskIds)
    (hscheduled : t.scheduledJobs = s.scheduledJobs)
    (hinflight : t.inflightJobs =
      Function.update s.inflightJobs worker (s.inflightJobs worker \ taskIds.toFinset))
    (hdone : t.doneJobs = s.doneJobs)
    (hdead : t.deadJobs = s.deadJobs)
    (hdata : t.jobData = s.jobData) :
    Reflects t fun id => if id ∈ taskIds then some .active else b id := by
  refine ⟨fun id p => ?_, ?_, fun id hid => ?_⟩
  · have hplace := h.place id p
    by_cases hid : id ∈ taskIds
    · have hfrom := h.mem_inflight.mp (hheld id hid)
      rw [hfrom] at hplace
      cases p with
      | inflight w =>
          by_cases hw : w = worker
          · subst hw
            simp_all [Store.At]
          · have hw' : worker ≠ w := fun heq => hw heq.symm
            simp_all [Store.At]
      | _ => simp_all [Store.At]
    · cases p with
      | inflight w =>
          by_cases hw : w = worker
          · subst hw
            simp_all [Store.At]
          · simp_all [Store.At]
      | _ => simp_all [Store.At]
  · rw [hactive]
    refine h.nodup.append hnd fun id hmem hid => ?_
    rw [h.mem_active, h.mem_inflight.mp (hheld id hid)] at hmem
    cases hmem
  · rw [hdata]
    by_cases hmem : id ∈ taskIds
    · exact h.stored id (by rw [h.mem_inflight.mp (hheld id hmem)]; simp)
    · exact h.stored id (by simpa [hmem] using hid)

end Reflects

/-- **Without vacuums, every move of the store is a step of its board.** -/
theorem move_simulates
    {rt : Runtime}
    {may : Powers}
    (hdiscard : ¬may.discard) :
    Systems.Simulates (Move rt may) Board.Step Reflects := by
  intro s t b hmove h
  cases hmove with
  | bookkeep hsame =>
      refine ⟨b, .refl, h.congr hsame.activeJobs hsame.scheduledJobs hsame.inflightJobs
        hsame.doneJobs hsame.deadJobs fun id hid => ?_⟩
      rw [hsame.jobData]
      exact hid
  | stash r hmay hnew =>
      refine ⟨b, .refl, h.congr rfl rfl rfl rfl rfl fun id hid => ?_⟩
      exact Finmap.mem_insert.mpr (.inr hid)
  | submit r hnew =>
      refine ⟨_, .single (Board.Step.update ?_), h.submit r hnew⟩
      rw [h.unknown hnew]
      split
      · exact .schedule
      · exact .enqueue
  | promote taskIds hnd hids =>
      refine ⟨_, .single (Board.Step.relocate .promote fun id hid => ?_), h.promote hnd hids⟩
      exact h.mem_scheduled.mp (hids id hid)
  | deliver worker taskIds hworker hids =>
      refine ⟨_, .single (Board.Step.relocate (.deliver worker) fun id hid => ?_),
        h.deliver worker hids⟩
      exact h.mem_active.mp (hids.subset hid)
  | lock worker now taskId hheld =>
      exact ⟨b, .refl, h.lock now hheld⟩
  | renew worker now taskId hheld =>
      exact ⟨b, .refl, h.congr rfl rfl rfl rfl rfl fun _ hid => hid⟩
  | ack worker r hheld =>
      refine ⟨_, .single (Board.Step.update ?_), h.ack hheld⟩
      rw [h.mem_inflight.mp hheld]
      rcases Reflects.place_ack r with hr | hr | hr <;> rw [hr]
      · exact .finish worker
      · exact .retry worker
      · exact .bury worker
  | release worker taskIds hnd hheld =>
      refine ⟨_, .single (Board.Step.relocate (.giveBack worker) fun id hid => ?_),
        h.giveBack hnd hheld rfl rfl rfl rfl rfl rfl⟩
      exact h.mem_inflight.mp (hheld id hid)
  | recover worker jobs hnd hjobs =>
      have hall : s.inflightJobs worker \ jobs.toFinset = ∅ := by
        rw [Finset.sdiff_eq_empty_iff_subset]
        intro id hid
        exact List.mem_toFinset.mpr ((hjobs id).mpr hid)
      refine ⟨_, .single (Board.Step.relocate (.giveBack worker) fun id hid => ?_),
        h.giveBack hnd (fun id hid => (hjobs id).mp hid) rfl rfl ?_ rfl rfl rfl⟩
      · exact h.mem_inflight.mp ((hjobs id).mp hid)
      · rw [hall]
        rfl
  | beat worker now hworker =>
      exact ⟨b, .refl, h.congr rfl rfl rfl rfl rfl fun _ hid => hid⟩
  | discard taskId hmay =>
      exact absurd hmay hdiscard

end ApalisRedis
