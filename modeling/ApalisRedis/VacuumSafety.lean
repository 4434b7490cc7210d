import ApalisRedis.Lifecycle

/-!
# What vacuuming may delete

A task is still to be done while it is active, scheduled or in flight.  The
vacuum scripts look at the recorded status instead, and a failed task that
waits for its retry is scheduled with the status `Failed`.

**Results.**
* `Move.intact`: all other calls keep the data and metadata of live tasks.
* `vacuum_keeps_live`: so do runs whose vacuums find no live task with a
  terminal status.
* `vacuum_deletes_retry`: the run that shows the condition is needed.
-/

namespace ApalisRedis

open Lua Redis Script

namespace Store

/-- Every live task has its data and its metadata. -/
def Intact (s : Store) : Prop :=
  ∀ id, s.Live id → id ∈ s.jobData ∧ s.jobMeta id ≠ ∅

/-- The status of the task is terminal, and it finished by the cutoff if there is one. -/
def Doomed (s : Store) (rt : Runtime) (cutoff : Option Int) (id : String) : Prop :=
  s.Terminal id ∧ ∀ c ∈ cutoff, s.DoneBy rt c id

end Store

theorem setAll_ne_empty
    {h : Hash String}
    {f : String × String}
    {fs : List (String × String)} :
    Hash.setAll h (f :: fs) ≠ ∅ := by
  intro hempty
  have hmem : f.1 ∈ Hash.setAll h (f :: fs) :=
    (Hash.mem_setAll _ _).mpr (.inl (by simp))
  rw [hempty] at hmem
  exact Finmap.notMem_empty hmem

/-- Setting fields of one task empties nobody's metadata. -/
theorem update_setAll_ne_empty
    (jobMeta : String → Hash String)
    {taskId id : String}
    {f : String × String}
    {fs : List (String × String)}
    (hid : jobMeta id ≠ ∅) :
    Function.update jobMeta taskId (Hash.setAll (jobMeta taskId) (f :: fs)) id ≠ ∅ := by
  by_cases heq : id = taskId
  · subst heq
    rw [Function.update_self]
    exact setAll_ne_empty
  · rwa [Function.update_of_ne heq]

theorem resetMeta_ne_empty
    (h : Hash String) :
    Store.resetMeta h ≠ ∅ := by
  intro hempty
  have hmem : "status" ∈ Store.resetMeta h :=
    Hash.mem_eraseAll.mpr ⟨by decide, (Hash.mem_setAll _ _).mpr (.inl (by simp))⟩
  rw [hempty] at hmem
  exact Finmap.notMem_empty hmem

/-- No move but a deletion empties a task's metadata. -/
theorem Move.described
    {rt : Runtime}
    {may : Powers}
    {s t : Store}
    (hdiscard : ¬may.discard)
    (hmove : Move rt may s t)
    {id : String}
    (hid : s.jobMeta id ≠ ∅) :
    t.jobMeta id ≠ ∅ := by
  cases hmove with
  | bookkeep hsame =>
      rw [hsame.jobMeta]
      exact hid
  | submit r hnew => exact update_setAll_ne_empty s.jobMeta hid
  | lock worker now taskId hheld => exact update_setAll_ne_empty s.jobMeta hid
  | renew worker now taskId hheld => exact update_setAll_ne_empty s.jobMeta hid
  | ack worker r hheld => exact update_setAll_ne_empty s.jobMeta hid
  | release worker taskIds hnd hheld =>
      change ite _ _ _ ≠ _
      split
      · exact resetMeta_ne_empty _
      · exact hid
  | discard taskId hmay => exact absurd hmay hdiscard
  | _ => exact hid

/-- **All moves but deletions keep live tasks intact.** -/
theorem Move.intact
    {rt : Runtime}
    {may : Powers}
    {s t : Store}
    (hdiscard : ¬may.discard)
    (hmove : Move rt may s t)
    (h : s.Intact) :
    t.Intact := by
  intro id hlive
  rcases hmove.live hlive with hold | ⟨r, -, -, rfl, rfl⟩
  · obtain ⟨hdata, hmeta⟩ := h id hold
    exact ⟨hmove.stored hdiscard hdata, hmove.described hdiscard hmeta⟩
  · refine ⟨Finmap.mem_insert.mpr (.inl rfl), ?_⟩
    simp only [Store.submit, Function.update_self, pushMeta, List.cons_append]
    exact setAll_ne_empty

/-- `u` is a state on the way of a vacuum that started in `s` and deletes only
tasks in `deletes`; the result hash is the metadata of the id `result`. -/
structure Vacuuming (deletes : String → Prop) (s u : Store) : Prop where
  activeJobs : u.activeJobs = s.activeJobs
  scheduledJobs : u.scheduledJobs = s.scheduledJobs
  inflightJobs : u.inflightJobs = s.inflightJobs
  shrinks : ∀ id f v, (u.jobMeta id).lookup f = some v → (s.jobMeta id).lookup f = some v
  data : ∀ id ∈ s.jobData, ¬deletes id → id ∈ u.jobData
  fields : ∀ id f, ¬deletes id → (id = "result" → ¬deletes f) →
    (u.jobMeta id).lookup f = (s.jobMeta id).lookup f

namespace Vacuuming

variable {deletes : String → Prop} {s u : Store}

theorem refl
    (s : Store) :
    Vacuuming deletes s s :=
  ⟨rfl, rfl, rfl, fun _ _ _ h => h, fun _ h _ => h, fun _ _ _ _ => rfl⟩

theorem lookup_discard
    (u : Store)
    (taskId id f : String) :
    ((u.discard taskId).jobMeta id).lookup f =
      if id = taskId ∨ (id = "result" ∧ f = taskId) then none else (u.jobMeta id).lookup f := by
  by_cases heq : id = taskId
  · subst heq
    simp [Store.discard]
  · by_cases hresult : id = "result"
    · subst hresult
      simp [Store.discard, heq, Hash.lookup_eraseAll]
    · simp [Store.discard, heq, hresult]

theorem discard
    (h : Vacuuming deletes s u)
    {taskId : String}
    (htask : deletes taskId) :
    Vacuuming deletes s (u.discard taskId) where
  activeJobs := h.activeJobs
  scheduledJobs := h.scheduledJobs
  inflightJobs := h.inflightJobs
  shrinks id f v hv := by
    rw [lookup_discard] at hv
    split at hv
    · cases hv
    · exact h.shrinks id f v hv
  data id hid hkeep := by
    have hne : id ≠ taskId := by
      rintro rfl
      exact hkeep htask
    exact Hash.mem_eraseAll.mpr ⟨by simpa using hne, h.data id hid hkeep⟩
  fields id f hkeep hresult := by
    rw [lookup_discard, if_neg, h.fields id f hkeep hresult]
    rintro (rfl | ⟨hid, rfl⟩)
    · exact hkeep htask
    · exact hresult hid htask

/-- A vacuum gives no task a terminal status or an earlier end. -/
theorem doomed
    (h : Vacuuming deletes s u)
    {rt : Runtime}
    {cutoff : Option Int}
    {id : String}
    (hid : u.Doomed rt cutoff id) :
    s.Doomed rt cutoff id := by
  obtain ⟨hterminal, hdone⟩ := hid
  refine ⟨?_, fun c hc => ?_⟩
  · unfold Store.Terminal at *
    rw [Option.any_eq_true] at *
    obtain ⟨status, hstatus, hmem⟩ := hterminal
    exact ⟨status, h.shrinks id _ _ hstatus, hmem⟩
  · have hby := hdone c hc
    unfold Store.DoneBy at *
    rw [Option.bind_eq_some_iff] at *
    obtain ⟨text, htext, hle⟩ := hby
    exact ⟨text, h.shrinks id _ _ htext, hle⟩

end Vacuuming

section Vacuums

variable (rt : Runtime) (queue : String)

/-- What a vacuum call deletes from the state it starts in. -/
def Op.Deletes (s : Store) : Op → String → Prop
  | .call _, _ => False
  | .vacuum, id => id ∈ s.jobData ∧ s.Doomed rt none id
  | .vacuumBefore seconds, id =>
      id ∈ s.jobData ∧ s.Doomed rt (some ((s.clock / 1000 : Nat) - (seconds : Int))) id

theorem vacuum_vacuuming
    (s : Store) :
    Vacuuming (Op.vacuum.Deletes rt s) s ((vacuumScript rt queue).run s).2 := by
  refine foldlM_keeps (I := Vacuuming (Op.vacuum.Deletes rt s) s)
    (rt.members s.jobData.keys) (fun id hid n u hu => ?_) 0 s (.refl s)
  have hstored : id ∈ s.jobData := Finmap.mem_keys.mp (rt.mem_members.mp hid)
  rw [run_vacuumTask]
  by_cases hterminal : u.Terminal id
  · rw [if_pos hterminal]
    have hdoomed : u.Doomed rt none id := ⟨hterminal, by simp⟩
    exact hu.discard ⟨hstored, hu.doomed hdoomed⟩
  · rw [if_neg hterminal]
    exact hu

theorem vacuumBefore_vacuuming
    (seconds : Nat)
    (s : Store) :
    Vacuuming ((Op.vacuumBefore seconds).Deletes rt s) s
      ((vacuumBeforeScript rt queue seconds).run s).2 := by
  refine foldlM_keeps (I := Vacuuming ((Op.vacuumBefore seconds).Deletes rt s) s)
    (rt.members s.jobData.keys) (fun id hid n u hu => ?_) 0 s (.refl s)
  have hstored : id ∈ s.jobData := Finmap.mem_keys.mp (rt.mem_members.mp hid)
  rw [run_vacuumTaskBefore]
  by_cases hdone : u.Terminal id ∧ u.DoneBy rt ((s.clock / 1000 : Nat) - (seconds : Int)) id
  · have hdoomed : u.Doomed rt (some ((s.clock / 1000 : Nat) - (seconds : Int))) id := by
      refine ⟨hdone.1, fun c hc => ?_⟩
      cases hc
      exact hdone.2
    rw [if_pos hdone]
    exact hu.discard ⟨hstored, hu.doomed hdoomed⟩
  · rw [if_neg hdone]
    exact hu

/-- A vacuum spares the live tasks: none of them is to be deleted, and the one
that shares its key with the result hash keeps a field. -/
def Op.Spares (s : Store) (op : Op) : Prop :=
  match op with
  | .call _ => True
  | op => (∀ id, s.Live id → ¬op.Deletes rt s id) ∧
      (s.Live "result" → ∃ f ∈ s.jobMeta "result", ¬op.Deletes rt s f)

theorem Vacuuming.intact
    {deletes : String → Prop}
    {s u : Store}
    (h : Vacuuming deletes s u)
    (hs : s.Intact)
    (hlive : ∀ id, s.Live id → ¬deletes id)
    (hresult : s.Live "result" → ∃ f ∈ s.jobMeta "result", ¬deletes f) :
    u.Intact := by
  intro id hid
  have hold : s.Live id := by
    unfold Store.Live at *
    rwa [h.activeJobs, h.scheduledJobs, h.inflightJobs] at hid
  obtain ⟨hdata, hmeta⟩ := hs id hold
  refine ⟨h.data id hdata (hlive id hold), fun hempty => ?_⟩
  have hfield : ∃ f ∈ s.jobMeta id, id = "result" → ¬deletes f := by
    by_cases heq : id = "result"
    · subst heq
      obtain ⟨f, hf, hkeep⟩ := hresult hold
      exact ⟨f, hf, fun _ => hkeep⟩
    · by_contra hnone
      refine hmeta (Finmap.ext_lookup fun f => ?_)
      rw [Finmap.lookup_empty, Finmap.lookup_eq_none]
      exact fun hf => hnone ⟨f, hf, fun hid => absurd hid heq⟩
  obtain ⟨f, hf, hkeep⟩ := hfield
  have hsame := h.fields id f (hlive id hold) hkeep
  rw [hempty, Finmap.lookup_empty] at hsame
  exact Finmap.lookup_eq_none.mp hsame.symm hf

theorem Op.intact
    (op : Op)
    {s : Store}
    (hspares : op.Spares rt s)
    (hs : s.Intact) :
    ((op.exec rt queue).run s).2.Intact := by
  cases op with
  | call c =>
      exact Systems.preserved (fun _ _ hmove hu => hmove.intact (fun hd => hd) hu)
        (moves_persistence rt queue [c] s) hs
  | vacuum => exact (vacuum_vacuuming rt queue s).intact hs hspares.1 hspares.2
  | vacuumBefore seconds =>
      exact (vacuumBefore_vacuuming rt queue seconds s).intact hs hspares.1 hspares.2

/-- A run whose vacuums all spare the live tasks. -/
def SparingRun : List Op → Store → Prop
  | [], _ => True
  | op :: ops, s => op.Spares rt s ∧ SparingRun ops ((op.exec rt queue).run s).2

theorem intact_runOps :
    ∀ (ops : List Op) (s : Store), SparingRun rt queue ops s → s.Intact →
      (runOps rt queue ops s).Intact
  | [], _, _, hs => hs
  | op :: ops, _, hrun, hs =>
      intact_runOps ops _ hrun.2 (op.intact rt queue hrun.1 hs)

theorem SparingRun.of_append
    {before after : List Op} :
    ∀ {s : Store}, SparingRun rt queue (before ++ after) s → SparingRun rt queue before s := by
  induction before with
  | nil => exact fun _ => trivial
  | cons op ops ih => exact fun h => ⟨h.1, ih h.2⟩

/-- **Vacuuming destroys no live work** in any state of a run whose vacuums find
no live task with a terminal status. -/
theorem vacuum_keeps_live
    (before after : List Op)
    (hrun : SparingRun rt queue (before ++ after) Store.empty) :
    (runOps rt queue before Store.empty).Intact :=
  intact_runOps rt queue before _ (hrun.of_append rt queue) fun id hlive =>
    absurd hlive (Store.not_live_empty id)

/-- One task is pushed. -/
def onePush : List Op :=
  [.call (.pushTasks 0 true [⟨"t", .empty, 0, 25, ∅, 0, ""⟩])]

theorem vacuum_keeps_pending :
    (runOps (.ascending none) "q" (onePush ++ [Op.vacuum]) Store.empty).Intact := by
  have hspares : Op.vacuum.Spares (.ascending none)
      (runOps (.ascending none) "q" onePush Store.empty) := by
    refine ⟨?_, fun hlive => absurd hlive ?_⟩
    · rintro id - ⟨hid, hterminal, -⟩
      have hkeys : (runOps (.ascending none) "q" onePush Store.empty).jobData.keys = {"t"} := by
        decide +kernel
      rw [← Finmap.mem_keys] at hid
      obtain rfl := Finset.mem_singleton.mp (hkeys ▸ hid)
      revert hterminal
      decide +kernel
    · rintro (hactive | hscheduled | ⟨w, hheld⟩)
      · revert hactive
        decide +kernel
      · revert hscheduled
        decide +kernel
      · have hworker := registered_runOps (.ascending none) "q" onePush w
          (Finset.ne_empty_of_mem hheld)
        have hnobody : (runOps (.ascending none) "q" onePush Store.empty).workers.keys = ∅ := by
          decide +kernel
        rw [← Finmap.mem_keys, hnobody] at hworker
        cases hworker
  exact vacuum_keeps_live (.ascending none) "q" (onePush ++ [Op.vacuum]) []
    (show True ∧ _ ∧ True from ⟨trivial, hspares, trivial⟩)

/-- A task that fails once and waits for its retry while the queue is vacuumed. -/
def vacuumRetry : List Op :=
  [.call (.pushTasks 0 true [⟨"t", .empty, 0, 25, ∅, 0, ""⟩]),
    .call (.registerWorker 100 "w" 300 "RedisStorage" ""),
    .call (.fetchNext 100 10 "w"),
    .call (.handleResults "w" true [⟨"t", 101, "null", "Failed", 1⟩]),
    .vacuum]

/-- The task is still scheduled, and its data is gone. -/
theorem vacuum_deletes_retry :
    ¬(runOps (.ascending none) "q" vacuumRetry Store.empty).Intact := by
  intro hintact
  have hscheduled : "t" ∈ (runOps (.ascending none) "q" vacuumRetry Store.empty).scheduledJobs := by
    decide +kernel
  have hdata := (hintact "t" (.inr (.inl hscheduled))).1
  revert hdata
  decide +kernel

end Vacuums

end ApalisRedis
