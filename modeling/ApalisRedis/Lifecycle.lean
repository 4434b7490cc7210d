import ApalisRedis.Board

/-!
# The life of a task

What holds in every state of a run of persistence calls: which structure a
task is in, whose inflight sets can be non-empty, and what a call can still do
to a task.

**Results.**
* `Move.registered`, `Move.covered`, `Move.jobMeta_eq`: what one move keeps.
* `run_sound`: no task is lost and none is in two places.
* `completion_final`: a task is completed at most once, and then it is final.
-/

namespace ApalisRedis

open Lua Redis Script

/-- Only registered workers hold tasks. -/
def Store.Registered (s : Store) : Prop :=
  ∀ worker, s.inflightJobs worker ≠ ∅ → worker ∈ s.workers

/-- The task is still to be done. -/
def Store.Live (s : Store) (id : String) : Prop :=
  id ∈ s.activeJobs ∨ id ∈ s.scheduledJobs ∨ ∃ worker, id ∈ s.inflightJobs worker

theorem Store.not_live_empty
    (id : String) :
    ¬Store.empty.Live id := by
  rintro (hactive | hscheduled | ⟨worker, hheld⟩)
  · cases hactive
  · exact Finmap.notMem_empty hscheduled
  · cases hheld

/-- Who holds a task after one worker's inflight set was replaced. -/
theorem mem_update
    {inflightJobs : String → Finset String}
    {worker w id : String}
    {held : Finset String}
    (h : id ∈ Function.update inflightJobs worker held w) :
    (w = worker ∧ id ∈ held) ∨ id ∈ inflightJobs w := by
  rcases eq_or_ne w worker with rfl | hne
  · rw [Function.update_self] at h
    exact .inl ⟨rfl, h⟩
  · rw [Function.update_of_ne hne] at h
    exact .inr h

namespace Move

variable {rt : Runtime} {may : Powers} {s t : Store}

theorem registered
    (hmove : Move rt may s t)
    (h : s.Registered) :
    t.Registered := by
  intro w hw
  cases hmove with
  | bookkeep hsame =>
      rw [hsame.inflightJobs] at hw
      rw [hsame.workers]
      exact h w hw
  | stash r hmay hnew => exact h w hw
  | submit r hnew => exact h w hw
  | promote taskIds hnd hids => exact h w hw
  | deliver worker taskIds hworker hids =>
      by_cases heq : w = worker
      · rw [heq]
        exact hworker
      · exact h w (by simpa [Store.deliver, heq] using hw)
  | lock worker now taskId hheld =>
      by_cases heq : w = worker
      · rw [heq]
        exact h worker (Finset.ne_empty_of_mem hheld)
      · exact h w (by simpa [Store.lock, heq] using hw)
  | renew worker now taskId hheld => exact h w hw
  | ack worker r hheld =>
      by_cases heq : w = worker
      · rw [heq]
        exact h worker (Finset.ne_empty_of_mem hheld)
      · exact h w (by simpa [Store.ack, heq] using hw)
  | release worker taskIds hnd hheld =>
      by_cases heq : w = worker
      · subst heq
        refine h w fun hempty => hw ?_
        simp [Store.release, hempty]
      · exact h w (by simpa [Store.release, heq] using hw)
  | recover worker jobs hnd hjobs =>
      by_cases heq : w = worker
      · subst heq
        simp [Store.recover] at hw
      · have hmem : w ∈ s.workers := h w (by simpa [Store.recover, heq] using hw)
        exact Finmap.mem_erase.mpr ⟨heq, hmem⟩
  | beat worker now hworker =>
      exact Finmap.mem_insert.mpr (.inr (h w hw))
  | discard taskId hmay => exact h w hw

/-- Only a push makes a task live. -/
theorem live
    (hmove : Move rt may s t)
    {id : String}
    (hlive : t.Live id) :
    s.Live id ∨ ∃ r, may.push r ∧ r.taskId ∉ s.jobData ∧ r.taskId = id ∧ t = s.submit rt r := by
  cases hmove with
  | bookkeep hsame =>
      unfold Store.Live at *
      rw [hsame.activeJobs, hsame.scheduledJobs, hsame.inflightJobs] at hlive
      exact .inl hlive
  | stash r hmay hnew => exact .inl hlive
  | submit r hnew hmay =>
      rcases eq_or_ne id r.taskId with rfl | hne
      · exact .inr ⟨r, hmay, hnew, rfl, rfl⟩
      · refine .inl ?_
        unfold Store.Live Store.submit at *
        by_cases hdue : 0 < r.scheduleTime <;> simpa [hne, hdue] using hlive
  | promote taskIds hnd hids =>
      refine .inl ?_
      rcases hlive with hactive | hscheduled | hheld
      · rcases List.mem_append.mp hactive with hactive | hid
        · exact .inl hactive
        · exact .inr (.inl (hids id hid))
      · exact .inr (.inl (Hash.mem_eraseAll.mp hscheduled).2)
      · exact .inr (.inr hheld)
  | deliver worker taskIds hworker hids =>
      refine .inl ?_
      rcases hlive with hactive | hscheduled | ⟨w, hw⟩
      · exact .inl (List.mem_of_mem_drop hactive)
      · exact .inr (.inl hscheduled)
      · rcases mem_update hw with ⟨-, hin⟩ | hold
        · rcases Finset.mem_union.mp hin with hheld | hid
          · exact .inr (.inr ⟨worker, hheld⟩)
          · exact .inl (hids.subset (List.mem_toFinset.mp hid))
        · exact .inr (.inr ⟨w, hold⟩)
  | lock worker now taskId hheld =>
      refine .inl ?_
      rcases hlive with hactive | hscheduled | ⟨w, hw⟩
      · exact .inl (List.mem_of_mem_erase hactive)
      · exact .inr (.inl hscheduled)
      · rcases mem_update hw with ⟨-, hin⟩ | hold
        · rw [Finset.insert_eq_self.mpr hheld] at hin
          exact .inr (.inr ⟨worker, hin⟩)
        · exact .inr (.inr ⟨w, hold⟩)
  | renew worker now taskId hheld => exact .inl hlive
  | ack worker r hheld =>
      refine .inl ?_
      rcases hlive with hactive | hscheduled | ⟨w, hw⟩
      · exact .inl hactive
      · change id ∈ ite _ _ _ at hscheduled
        split at hscheduled
        · rcases Finmap.mem_insert.mp hscheduled with rfl | hscheduled
          · exact .inr (.inr ⟨worker, hheld⟩)
          · exact .inr (.inl hscheduled)
        · exact .inr (.inl hscheduled)
      · rcases mem_update hw with ⟨-, hin⟩ | hold
        · exact .inr (.inr ⟨worker, Finset.mem_of_mem_erase hin⟩)
        · exact .inr (.inr ⟨w, hold⟩)
  | release worker taskIds hnd hheld =>
      refine .inl ?_
      rcases hlive with hactive | hscheduled | ⟨w, hw⟩
      · rcases List.mem_append.mp hactive with hactive | hid
        · exact .inl hactive
        · exact .inr (.inr ⟨worker, hheld id hid⟩)
      · exact .inr (.inl hscheduled)
      · rcases mem_update hw with ⟨-, hin⟩ | hold
        · exact .inr (.inr ⟨worker, (Finset.mem_sdiff.mp hin).1⟩)
        · exact .inr (.inr ⟨w, hold⟩)
  | recover worker jobs hnd hjobs =>
      refine .inl ?_
      rcases hlive with hactive | hscheduled | ⟨w, hw⟩
      · rcases List.mem_append.mp hactive with hactive | hid
        · exact .inl hactive
        · exact .inr (.inr ⟨worker, (hjobs id).mp hid⟩)
      · exact .inr (.inl hscheduled)
      · rcases mem_update hw with ⟨-, hin⟩ | hold
        · exact absurd hin (Finset.notMem_empty id)
        · exact .inr (.inr ⟨w, hold⟩)
  | beat worker now hworker => exact .inl hlive
  | discard taskId hmay => exact .inl hlive

/-- Only a delivery puts a task into an inflight set. -/
theorem unheld
    (hdeliver : ¬may.deliver)
    (hmove : Move rt may s t)
    {id : String}
    (hid : ∀ worker, id ∉ s.inflightJobs worker) :
    ∀ worker, id ∉ t.inflightJobs worker := by
  intro w hw
  cases hmove with
  | bookkeep hsame =>
      rw [hsame.inflightJobs] at hw
      exact hid w hw
  | deliver worker taskIds hworker hids hmay => exact hdeliver hmay
  | lock worker now taskId hheld =>
      rcases mem_update hw with ⟨-, hin⟩ | hold
      · rw [Finset.insert_eq_self.mpr hheld] at hin
        exact hid worker hin
      · exact hid w hold
  | ack worker r hheld =>
      rcases mem_update hw with ⟨-, hin⟩ | hold
      · exact hid worker (Finset.mem_of_mem_erase hin)
      · exact hid w hold
  | release worker taskIds hnd hheld =>
      rcases mem_update hw with ⟨-, hin⟩ | hold
      · exact hid worker (Finset.mem_sdiff.mp hin).1
      · exact hid w hold
  | recover worker jobs hnd hjobs =>
      rcases mem_update hw with ⟨-, hin⟩ | hold
      · exact absurd hin (Finset.notMem_empty id)
      · exact hid w hold
  | _ => exact hid w hw

/-- New data comes with a place, unless a push failed after storing it. -/
theorem covered
    (hstash : ¬may.stash)
    (hmove : Move rt may s t)
    {id : String}
    (hid : id ∈ t.jobData) :
    id ∈ s.jobData ∨ ∃ p, t.At id p := by
  cases hmove with
  | bookkeep hsame =>
      rw [hsame.jobData] at hid
      exact .inl hid
  | stash r hmay hnew => exact absurd hmay hstash
  | submit r hnew =>
      rcases Finmap.mem_insert.mp hid with rfl | hid
      · refine .inr ?_
        by_cases hdue : 0 < r.scheduleTime
        · exact ⟨.scheduled, by simp [Store.At, Store.submit, hdue]⟩
        · exact ⟨.active, by simp [Store.At, Store.submit, hdue]⟩
      · exact .inl hid
  | discard taskId hmay => exact .inl (Hash.mem_eraseAll.mp hid).2
  | _ => exact .inl hid

/-- The metadata of a task change only when it is stored or while a worker holds it. -/
theorem jobMeta_eq
    (hdiscard : ¬may.discard)
    (hmove : Move rt may s t)
    {id : String}
    (hid : id ∈ t.jobData → id ∈ s.jobData)
    (hfree : ∀ worker, id ∉ s.inflightJobs worker) :
    t.jobMeta id = s.jobMeta id := by
  have hne : ∀ {worker taskId : String}, taskId ∈ s.inflightJobs worker → id ≠ taskId := by
    rintro worker taskId hheld rfl
    exact hfree worker hheld
  cases hmove with
  | bookkeep hsame => rw [hsame.jobMeta]
  | submit r hnew =>
      have hr : id ≠ r.taskId := by
        rintro rfl
        exact hnew (hid (Finmap.mem_insert.mpr (.inl rfl)))
      exact Function.update_of_ne hr _ _
  | lock worker now taskId hheld => exact Function.update_of_ne (hne hheld) _ _
  | renew worker now taskId hheld => exact Function.update_of_ne (hne hheld) _ _
  | ack worker r hheld => exact Function.update_of_ne (hne hheld) _ _
  | release worker taskIds hnd hheld =>
      exact if_neg fun hmem => hfree worker (hheld id hmem)
  | discard taskId hmay => exact absurd hmay hdiscard
  | _ => rfl

/-- The data of a stored task does not change. -/
theorem lookup_jobData
    (hdiscard : ¬may.discard)
    (hmove : Move rt may s t)
    {id : String}
    (hid : id ∈ s.jobData) :
    t.jobData.lookup id = s.jobData.lookup id := by
  cases hmove with
  | bookkeep hsame => rw [hsame.jobData]
  | stash r hmay hnew =>
      have hr : id ≠ r.taskId := by
        rintro rfl
        exact hnew hid
      exact Finmap.lookup_insert_of_ne _ hr
  | submit r hnew =>
      have hr : id ≠ r.taskId := by
        rintro rfl
        exact hnew hid
      exact Finmap.lookup_insert_of_ne _ hr
  | discard taskId hmay => exact absurd hmay hdiscard
  | _ => rfl

/-- So it stays stored. -/
theorem stored
    (hdiscard : ¬may.discard)
    (hmove : Move rt may s t)
    {id : String}
    (hid : id ∈ s.jobData) :
    id ∈ t.jobData := by
  rw [← Finmap.lookup_isSome, hmove.lookup_jobData hdiscard hid, Finmap.lookup_isSome]
  exact hid

end Move

/-- Every stored task is somewhere. -/
def Store.Covered (s : Store) : Prop :=
  ∀ id ∈ s.jobData, ∃ p, s.At id p

/-- A step of the board keeps known tasks known, so covering is kept as well. -/
theorem Reflects.covered
    {rt : Runtime}
    {may : Powers}
    {s t : Store}
    {b : Board}
    (hdiscard : ¬may.discard)
    (hstash : ¬may.stash)
    (h : Reflects s b)
    (hmove : Move rt may s t)
    (hs : s.Covered) :
    t.Covered := by
  intro id hid
  rcases hmove.covered hstash hid with hold | hplaced
  · obtain ⟨p, hp⟩ := hs id hold
    obtain ⟨b', hsteps, hb'⟩ := move_simulates hdiscard _ _ b hmove h
    have hknown : b id ≠ none := by
      rw [(h.place id p).mp hp]
      simp
    have hknown' : b' id ≠ none :=
      Systems.preserved (I := fun b => b id ≠ none)
        (fun b b' hstep hb => (hstep id).known hb) hsteps hknown
    obtain ⟨q, hq⟩ := Option.ne_none_iff_exists'.mp hknown'
    exact ⟨q, (hb'.place id q).mpr hq⟩
  · exact hplaced

section Runs

variable (rt : Runtime) (queue : String)

/-- Persistence calls register whom they like and vacuum nothing; a push may
fail halfway only where `unpack` can fail. -/
def persistence (rt : Runtime) : Powers where
  register _ := True
  push _ := True
  deliver := True
  stash := ∃ n, ¬rt.Fits n
  discard := False

theorem Call.within_persistence
    (c : Call) :
    c.Within (persistence rt) := by
  cases c with
  | pushTasks ttl emitEvents batch => exact fun _ _ => trivial
  | handleResults worker emitEvents batch => exact fun _ _ => trivial
  | _ => exact trivial

theorem moves_persistence
    (calls : List Call)
    (s : Store) :
    Moves rt (persistence rt) s (run rt queue calls s) := by
  have hstash : ∀ n, ¬rt.Fits n → (persistence rt).stash := fun n hn => ⟨n, hn⟩
  exact moves_run queue hstash calls (fun c _ => c.within_persistence rt) s

/-- Any push, any name, any fetch, and vacuums. -/
def anything : Powers where
  register _ := True
  push _ := True
  deliver := True
  stash := True
  discard := True

theorem moves_anything
    (ops : List Op)
    (s : Store) :
    Moves rt anything s (runOps rt queue ops s) := by
  refine moves_runOps queue (fun _ _ => trivial) ops (fun op _ => ?_) s
  cases op with
  | call c =>
      cases c with
      | pushTasks ttl emitEvents batch => exact fun _ _ => trivial
      | handleResults worker emitEvents batch => exact fun _ _ => trivial
      | _ => exact trivial
  | _ => exact trivial

theorem registered_runOps
    (ops : List Op) :
    (runOps rt queue ops Store.empty).Registered := by
  have hmoves := moves_anything rt queue ops Store.empty
  refine Systems.preserved (fun s t hmove => hmove.registered) hmoves fun worker hw => ?_
  exact absurd rfl hw

/-- Every run of calls is a run of the board. -/
theorem reflects_run
    (calls : List Call)
    {s : Store}
    {b : Board}
    (h : Reflects s b) :
    ∃ b', Relation.ReflTransGen Board.Step b b' ∧ Reflects (run rt queue calls s) b' :=
  (move_simulates (fun hd => hd)).run (moves_persistence rt queue calls s) h

/-- Every task with data is at exactly one place, what is at a place has data,
the active list repeats nothing, and only registered workers hold tasks. -/
structure Store.Sound (s : Store) : Prop where
  placed : ∀ id ∈ s.jobData, ∃! p, s.At id p
  stored : ∀ id p, s.At id p → id ∈ s.jobData
  nodup : s.activeJobs.Nodup
  registered : s.Registered

/-- **No task is lost, and none is in two places.** -/
theorem run_sound
    (calls : List Call) :
    (run rt.unlimited queue calls Store.empty).Sound := by
  have hmoves := moves_persistence rt.unlimited queue calls Store.empty
  obtain ⟨b, -, hb⟩ := reflects_run rt.unlimited queue calls reflects_empty
  have hstash : ¬(persistence rt.unlimited).stash := by
    rintro ⟨n, hn⟩
    exact hn (rt.unlimited_fits n)
  have hcovered : (run rt.unlimited queue calls Store.empty).Covered := by
    have hinit : Store.empty.Covered ∧ ∃ b, Reflects Store.empty b :=
      ⟨fun id hid => absurd hid Finmap.notMem_empty, _, reflects_empty⟩
    refine (Systems.preserved (I := fun s => s.Covered ∧ ∃ b, Reflects s b)
      (fun s t hmove hs => ?_) hmoves hinit).1
    obtain ⟨hcovered, b, hb⟩ := hs
    obtain ⟨b', -, hb'⟩ := move_simulates (fun hd => hd) _ _ b hmove hb
    exact ⟨hb.covered (fun hd => hd) hstash hmove hcovered, b', hb'⟩
  refine ⟨fun id hid => ?_, fun id p hp => ?_, hb.nodup, ?_⟩
  · obtain ⟨p, hp⟩ := hcovered id hid
    refine ⟨p, hp, fun q hq => ?_⟩
    have hsame := ((hb.place id p).mp hp).symm.trans ((hb.place id q).mp hq)
    exact (Option.some.inj hsame).symm
  · exact hb.stored id (by rw [(hb.place id p).mp hp]; simp)
  · refine Systems.preserved (fun s t hmove => hmove.registered) hmoves fun worker hw => ?_
    exact absurd rfl hw

/-- Whether a task was completed. -/
def Store.Finished (s : Store) (id : String) : Prop :=
  id ∈ s.doneJobs ∨ id ∈ s.deadJobs

theorem Reflects.final_of_finished
    {s : Store}
    {b : Board}
    (h : Reflects s b)
    {id : String}
    (hid : s.Finished id) :
    ∃ p : Place, p.Final ∧ b id = some p := by
  rcases hid with hdone | hdead
  · exact ⟨.done, trivial, h.mem_done.mp hdone⟩
  · exact ⟨.dead, trivial, h.mem_dead.mp hdead⟩

/-- The task is at a final place, with these metadata. -/
def Store.Settled (s : Store) (id : String) (p : Place) (h : Hash String) : Prop :=
  ∃ b, Reflects s b ∧ b id = some p ∧ s.jobMeta id = h

/-- A move leaves a settled task settled. -/
theorem Move.settled
    {may : Powers}
    {s t : Store}
    (hdiscard : ¬may.discard)
    (hmove : Move rt may s t)
    {id : String}
    {p : Place}
    {h : Hash String}
    (hp : p.Final)
    (hs : s.Settled id p h) :
    t.Settled id p h := by
  obtain ⟨b, hb, hid, hmeta⟩ := hs
  obtain ⟨b', hsteps, hb'⟩ := move_simulates hdiscard _ _ b hmove hb
  refine ⟨b', hb', Board.stays hp hsteps hid, ?_⟩
  rw [hmove.jobMeta_eq hdiscard (fun _ => hb.stored id (by rw [hid]; simp)) ?_, hmeta]
  intro worker hheld
  rw [hb.mem_inflight, hid] at hheld
  cases hheld
  exact hp

theorem settled_run
    (calls : List Call)
    {s : Store}
    {id : String}
    {p : Place}
    {h : Hash String}
    (hp : p.Final)
    (hs : s.Settled id p h) :
    (run rt queue calls s).Settled id p h := by
  refine Systems.preserved (I := fun s => s.Settled id p h) (fun _ _ hmove ht => ?_)
    (moves_persistence rt queue calls s) hs
  exact hmove.settled rt (fun hd => hd) hp ht

/-- The metadata of a finished task are final. -/
theorem jobMeta_of_finished
    (calls later : List Call)
    {id : String}
    (hfinished : (run rt queue calls Store.empty).Finished id) :
    (run rt queue (calls ++ later) Store.empty).jobMeta id =
      (run rt queue calls Store.empty).jobMeta id := by
  obtain ⟨b, -, hb⟩ := reflects_run rt queue calls reflects_empty
  obtain ⟨p, hp, hid⟩ := hb.final_of_finished hfinished
  rw [run_append]
  obtain ⟨-, -, -, hmeta⟩ := settled_run rt queue later hp ⟨b, hb, hid, rfl⟩
  exact hmeta

theorem settled_exec
    (c : Call)
    {s : Store}
    {id : String}
    {p : Place}
    {h : Hash String}
    (hp : p.Final)
    (hs : s.Settled id p h) :
    ((c.exec rt queue).run s).2.Settled id p h :=
  settled_run rt queue [c] hp hs

/-- How often a run puts a task into the done set or into the dead set. -/
def completions (id : String) : List Call → Store → Nat
  | [], _ => 0
  | c :: calls, s =>
      let t := ((c.exec rt queue).run s).2
      (if id ∉ s.doneJobs ∧ id ∈ t.doneJobs then 1 else 0) +
        (if id ∉ s.deadJobs ∧ id ∈ t.deadJobs then 1 else 0) + completions id calls t

theorem completions_of_settled
    {id : String}
    {p : Place}
    {h : Hash String}
    (hp : p.Final) :
    ∀ (calls : List Call) (s : Store), s.Settled id p h →
      completions rt queue id calls s = 0
  | [], _, _ => rfl
  | c :: calls, s, hs => by
      have ht := settled_exec rt queue c hp hs
      have hrest := completions_of_settled hp calls _ ht
      obtain ⟨b, hb, hid, -⟩ := hs
      obtain ⟨b', hb', hid', -⟩ := ht
      simp only [completions, hrest, hb.mem_done, hb.mem_dead, hb'.mem_done, hb'.mem_dead, hid,
        hid']
      simp

theorem completions_le_one
    (id : String) :
    ∀ (calls : List Call) (s : Store) (b : Board), Reflects s b →
      completions rt queue id calls s ≤ 1
  | [], _, _, _ => Nat.zero_le _
  | c :: calls, s, b, hb => by
      obtain ⟨b', -, hb'⟩ := reflects_run rt queue [c] hb
      change Reflects ((c.exec rt queue).run s).2 b' at hb'
      have hrest := completions_le_one id calls _ b' hb'
      by_cases hfinished : ((c.exec rt queue).run s).2.Finished id
      · obtain ⟨p, hp, hid⟩ := hb'.final_of_finished hfinished
        have hzero := completions_of_settled rt queue hp calls _ ⟨b', hb', hid, rfl⟩
        simp only [completions, hzero, hb'.mem_done, hb'.mem_dead, hid]
        cases p <;> simp <;> split <;> omega
      · obtain ⟨hdone, hdead⟩ := not_or.mp hfinished
        simpa [completions, hdone, hdead] using hrest

/-- **Completion is exactly-once and final.** -/
theorem completion_final
    (calls later : List Call)
    (id : String) :
    completions rt queue id (calls ++ later) Store.empty ≤ 1 ∧
      ((run rt queue calls Store.empty).Finished id →
        (∀ p, (run rt queue (calls ++ later) Store.empty).At id p ↔
          (run rt queue calls Store.empty).At id p) ∧
        (run rt queue (calls ++ later) Store.empty).jobMeta id =
          (run rt queue calls Store.empty).jobMeta id) := by
  refine ⟨completions_le_one rt queue id _ _ _ reflects_empty, fun hfinished => ?_⟩
  obtain ⟨b, -, hb⟩ := reflects_run rt queue calls reflects_empty
  obtain ⟨p, hp, hid⟩ := hb.final_of_finished hfinished
  rw [run_append]
  obtain ⟨b', hb', hid', hmeta⟩ := settled_run rt queue later hp ⟨b, hb, hid, rfl⟩
  refine ⟨fun q => ?_, hmeta⟩
  rw [hb'.place, hb.place, hid', hid]

end Runs

end ApalisRedis
