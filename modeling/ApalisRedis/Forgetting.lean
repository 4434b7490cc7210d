import ApalisRedis.Completion
import ApalisRedis.Retries

/-!
# Waiting for an outcome that a vacuum has deleted

The outcome of a task is part of its metadata, and a vacuum deletes both.  Only a
push and the worker that holds the task write to its metadata, and a task that
waits nowhere is handed to nobody.  So the outcome does not come back, and
`wait_for` cannot tell that it never will.

**Results.**
* `gone_of_deleted`, `gone_runOps`: what a vacuum deletes of a finished task stays
  away until the task is stored anew.
* `Async.stream_eq_polls`: the stream, poll by poll.
* `waits_for_ever`: no poll for such a task yields anything about it or is the last.
-/

namespace ApalisRedis

open Lua Redis Script Systems

/-- The task has no data and no metadata, waits nowhere and is held by nobody. -/
structure Store.Gone (s : Store) (id : String) : Prop where
  data : id ∉ s.jobData
  fields : s.jobMeta id = ∅
  notLive : ¬s.Live id

section Staying

variable {rt : Runtime} {may : Powers} {queue id : String} {s t : Store}

/-- **A move does not bring a task back** that it does not store. -/
theorem Move.gone
    (hdiscard : ¬may.discard)
    (hmove : Move rt may s t)
    (hdata : id ∉ t.jobData)
    (h : s.Gone id) :
    t.Gone id := by
  refine ⟨hdata, ?_, fun hlive => ?_⟩
  · have hfree : ∀ worker, id ∉ s.inflightJobs worker := fun worker hheld =>
      h.notLive (.inr (.inr ⟨worker, hheld⟩))
    rw [hmove.jobMeta_eq hdiscard (fun hid => absurd hid hdata) hfree, h.fields]
  · rcases hmove.live hlive with hold | ⟨r, -, -, rfl, rfl⟩
    · exact h.notLive hold
    · exact hdata (Finmap.mem_insert.mpr (.inl rfl))

theorem gone_of_moves
    (hdiscard : ¬may.discard)
    (hmoves : Moves rt may s t)
    (hdata : id ∉ t.jobData)
    (h : s.Gone id) :
    t.Gone id := by
  induction hmoves with
  | refl => exact h
  | tail _ hmove ih =>
      exact hmove.gone hdiscard hdata (ih fun hid => hdata (hmove.stored hdiscard hid))

/-- Deleting a task leaves no metadata where there were none, and none of its own. -/
theorem jobMeta_discard_eq_empty
    {taskId : String}
    (h : id = taskId ∨ s.jobMeta id = ∅) :
    (s.discard taskId).jobMeta id = ∅ := by
  refine Finmap.ext_lookup fun f => ?_
  rw [Vacuuming.lookup_discard, Finmap.lookup_empty]
  rcases h with rfl | hempty
  · exact if_pos (.inl rfl)
  · rw [hempty, Finmap.lookup_empty, ite_self]

theorem Store.Gone.discard
    (h : s.Gone id)
    (taskId : String) :
    (s.discard taskId).Gone id :=
  ⟨fun hid => h.data (Hash.mem_eraseAll.mp hid).2, jobMeta_discard_eq_empty (.inr h.fields),
    h.notLive⟩

/-- What every deletion keeps, the vacuums keep. -/
theorem Op.keeps_of_discard
    {I : Store → Prop}
    (hdiscard : ∀ u taskId, I u → I (u.discard taskId))
    {op : Op}
    (hop : ∀ c, op ≠ .call c)
    (hs : I s) :
    I ((op.exec rt queue).run s).2 := by
  cases op with
  | call c => exact absurd rfl (hop c)
  | vacuum => exact vacuum_keeps rt queue hdiscard hs
  | vacuumBefore seconds => exact vacuumBefore_keeps rt queue hdiscard seconds hs

/-- A task that is nowhere to be done is gone as soon as it is deleted. -/
theorem gone_of_deleted
    {op : Op}
    (hstored : id ∈ s.jobData)
    (hidle : ¬s.Live id)
    (hdeleted : id ∉ ((op.exec rt queue).run s).2.jobData) :
    ((op.exec rt queue).run s).2.Gone id := by
  by_cases hop : ∃ c, op = .call c
  · obtain ⟨c, rfl⟩ := hop
    have hkept : id ∈ ((c.exec rt queue).run s).2.jobData :=
      preserved (I := fun u => id ∈ u.jobData)
        (fun _ _ hmove hu => hmove.stored (fun hd => hd) hu) (moves_persistence rt queue [c] s)
        hstored
    exact absurd hkept hdeleted
  · have hleft : ¬((op.exec rt queue).run s).2.Live id ∧
        (id ∉ ((op.exec rt queue).run s).2.jobData →
          ((op.exec rt queue).run s).2.jobMeta id = ∅) := by
      refine Op.keeps_of_discard (I := fun u => ¬u.Live id ∧ (id ∉ u.jobData → u.jobMeta id = ∅))
        (fun u taskId hu => ⟨hu.1, fun hid => jobMeta_discard_eq_empty ?_⟩)
        (fun c hc => hop ⟨c, hc⟩) ⟨hidle, fun hnot => absurd hstored hnot⟩
      by_cases heq : id = taskId
      · exact .inl heq
      · exact .inr (hu.2 fun hold => hid (Hash.mem_eraseAll.mpr ⟨by simpa using heq, hold⟩))
    exact ⟨hdeleted, hleft.2 hdeleted, hleft.1⟩

theorem gone_op
    (op : Op)
    (hanew : id ∈ ((op.exec rt queue).run s).2.jobData → id ∈ s.jobData)
    (h : s.Gone id) :
    ((op.exec rt queue).run s).2.Gone id := by
  by_cases hop : ∃ c, op = .call c
  · obtain ⟨c, rfl⟩ := hop
    exact gone_of_moves (fun hd => hd) (moves_persistence rt queue [c] s)
      (fun hid => h.data (hanew hid)) h
  · exact Op.keeps_of_discard (I := fun u => u.Gone id)
      (fun _ taskId hu => hu.discard taskId) (fun c hc => hop ⟨c, hc⟩) h

/-- **A deleted task stays away**, in all its traces, until it is stored anew. -/
theorem gone_runOps :
    ∀ (ops : List Op) (s : Store), NeverStoredAnew rt queue id ops s → s.Gone id →
      (runOps rt queue ops s).Gone id
  | [], _, _, hs => hs
  | op :: ops, _, hrun, hs => gone_runOps ops _ hrun.2 (gone_op op hrun.1 hs)

end Staying

/-- A command that only reads. -/
def Instruction.Reads : Instruction → World → Prop
  | .hget _ _, _ => True
  | _, _ => False

/-- The others leave the task gone. -/
def World.LeavesGone (id : String) (w w' : World) : Prop :=
  w.store.Gone id → w'.store.Gone id

/-- Anybody makes a call, vacuums or lets time pass, without storing the task anew. -/
def World.Proceeds (rt : Runtime) (queue id : String) (w w' : World) : Prop :=
  ∃ op : Op, w'.store = ((op.exec rt queue).run w.store).2 ∧
    (id ∈ w'.store.jobData → id ∈ w.store.jobData)

theorem World.Proceeds.leavesGone
    {rt : Runtime}
    {queue id : String}
    {w w' : World}
    (h : w.Proceeds rt queue id w') :
    w.LeavesGone id w' := by
  obtain ⟨op, hstore, hanew⟩ := h
  intro hgone
  rw [hstore] at hanew ⊢
  exact gone_op op hanew hgone

namespace Deployment

variable {core : Core} {Outcome : Type} {d : Deployment core Outcome} {id : String}
variable {w : World}

/-- A read leaves everything as it is. -/
theorem leavesGone_of_reads
    (i : Instruction)
    (w : World)
    (reply : i.Reply)
    (w' : World)
    (hanswer : d.Answers i w reply w')
    (hreads : i.Reads w) :
    w.LeavesGone id w' := by
  cases i with
  | hget taskId field =>
      have hsame : w' = w := eq_of_transmits hanswer rfl
      rw [hsame]
      exact fun hgone => hgone
  | _ => exact hreads.elim

theorem yields_goneField
    (hgone : w.store.Gone id)
    (taskId field : String) :
    Async.Yields d.Answers (World.LeavesGone id) Instruction.Reads
      (fun data w' => w'.store.Gone id ∧ (taskId = id → data = none))
      (Async.hget taskId field) w := by
  refine Async.yields_hget (fun _ _ => trivial) fun t data u u' ht hanswer hu => ?_
  obtain ⟨hrun, -⟩ := executed_of_transmits hanswer
  have hsame : u = t := eq_of_transmits hanswer rfl
  rw [hsame] at hu
  refine ⟨hu (ht hgone), ?_⟩
  rintro rfl
  have hdata : (t.store.jobMeta taskId).lookup field = data :=
    Except.ok.inj (congrArg Prod.fst hrun)
  rw [← hdata, (ht hgone).fields, Finmap.lookup_empty]

theorem yields_goneFallible
    {α : Type}
    (x : Except String α)
    (hgone : w.store.Gone id) :
    Async.Yields d.Answers (World.LeavesGone id) Instruction.Reads
      (fun _ w' => w'.store.Gone id) (Async.fallible x) w :=
  Async.yields_fallible fun _ _ _ ht => ht hgone

variable {decode : String → Except String Outcome}

/-- **A check of any task reports nothing about the one that is gone.**  It panics
only where the text of the task does not parse. -/
theorem yields_checkGone
    {taskId : core.TaskId}
    (hback : core.ReadsBack (core.printTaskId taskId))
    (hgone : w.store.Gone id) :
    Async.Yields d.Answers (World.LeavesGone id) Instruction.Reads
      (fun row w' => w'.store.Gone id ∧
        ∀ result ∈ row, ∃ reported, result = .ok reported ∧
          core.printTaskId (TaskResult.taskId reported) ≠ id)
      (Async.checkTask decode taskId) w := by
  obtain ⟨again, hparse, hprint⟩ := Core.reread_eq_ok.mp hback
  unfold Async.checkTask
  refine (yields_goneField hgone _ "status").bind (fun _ h => h) fun statusStr w ⟨hw, hstatus⟩ => ?_
  cases statusStr with
  | none => exact Async.yields_pure fun _ ht => ⟨ht hw, by simp⟩
  | some statusStr =>
      have hother : core.printTaskId again ≠ id := fun heq => by
        rw [hprint] at heq
        cases hstatus heq
      refine (yields_goneFallible _ hw).bind (fun _ h => h) fun status w hw => ?_
      refine (yields_goneField hw _ "result").bind (fun _ h => h) fun data w ⟨hw, _⟩ => ?_
      refine (yields_goneField hw _ "attempts").bind (fun _ h => h) fun attempt w ⟨hw, _⟩ => ?_
      refine (yields_goneFallible _ hw).bind (fun _ h => h) fun attempt w hw => ?_
      cases data with
      | none => exact Async.yields_pure fun _ ht => ⟨ht hw, by simp⟩
      | some data =>
          refine (yields_goneFallible _ hw).bind (fun _ h => h) fun result w hw => ?_
          refine Async.yields_pure fun _ ht => ⟨ht hw, fun row hrow => ?_⟩
          rw [hparse] at hrow
          cases hrow
          exact ⟨_, rfl, hother⟩

/-- What is said of every row holds of every result. -/
theorem others_of_rows
    {taskIds : List core.TaskId}
    {rows : List (Option (TaskResult core Outcome))}
    (hrows : List.Forall₂ (fun _ row =>
      ∀ result ∈ Option.map (Except.ok : _ → Except String (TaskResult core Outcome)) row,
        ∃ reported, result = .ok reported ∧ core.printTaskId reported.taskId ≠ id) taskIds rows) :
    ∀ row ∈ rows, ∀ result ∈ row, core.printTaskId (TaskResult.taskId result) ≠ id := by
  induction hrows with
  | nil => simp
  | cons hrow _ ih =>
      refine List.forall_mem_cons.mpr ⟨fun result hresult => ?_, ih⟩
      obtain ⟨reported, hreported, hother⟩ := hrow (.ok result) (Option.mem_map_of_mem _ hresult)
      cases hreported
      exact hother

theorem yields_checkStatusGone
    {taskIds : List core.TaskId}
    (hback : ∀ taskId ∈ taskIds, core.ReadsBack (core.printTaskId taskId))
    (hgone : w.store.Gone id) :
    Async.Yields d.Answers (World.LeavesGone id) Instruction.Reads
      (fun checked _ => ∃ results, checked = .ok results ∧
        ∀ result ∈ results, core.printTaskId (TaskResult.taskId result) ≠ id)
      (Async.checkStatus decode taskIds) w := by
  have hrow : ∀ taskId ∈ taskIds, ∀ w : World, w.store.Gone id →
      Async.Yields d.Answers (World.LeavesGone id) Instruction.Reads
        (fun row w' => w'.store.Gone id ∧
          ∀ result ∈ row, ∃ reported, result = .ok reported ∧
            core.printTaskId (TaskResult.taskId reported) ≠ id)
        (Async.checkTask decode taskId) w :=
    fun taskId htaskId w hw => yields_checkGone (hback taskId htaskId) hw
  refine (Async.yields_checkTasks (fun _ h => h) (fun _ _ ht hw => ht hw) hrow hgone).imp
    fun reply w' hreply checked hchecked => ?_
  obtain ⟨-, hresults, hpanics⟩ := hreply checked hchecked
  cases checked with
  | error panic =>
      obtain ⟨taskId, -, hpanic⟩ := hpanics panic rfl
      obtain ⟨reported, hreported, -⟩ := hpanic (.error panic) rfl
      cases hreported
  | ok results =>
      obtain ⟨rows, rfl, hrows⟩ := hresults results rfl
      refine ⟨_, rfl, fun result hresult => ?_⟩
      obtain ⟨row, hmem, rfl⟩ := List.mem_filterMap.mp hresult
      exact others_of_rows hrows _ hmem result rfl

/-- **A poll goes on** and yields nothing about the task that is gone. -/
theorem returns_waitForGone
    {pendingIds : Finset String}
    (hback : ReadBack core pendingIds)
    (hpending : id ∈ pendingIds)
    (order : HashOrder)
    (hgone : w.store.Gone id) :
    Async.Returns d.Answers (World.LeavesGone id) Instruction.Reads
      (fun polled w' => w'.store.Gone id ∧ ∃ items left, polled = some (items, left) ∧
        ReadBack core left ∧ id ∈ left ∧
          ∀ result, .ok result ∈ items → core.printTaskId (TaskResult.taskId result) ≠ id)
      (Async.waitFor decode order pendingIds) w := by
  obtain ⟨taskIds, hparsed, -, hasked⟩ := exists_idsToCheck hback order
  have htexts : ∀ taskId ∈ taskIds, core.ReadsBack (core.printTaskId taskId) := fun taskId hmem =>
    hback _ (print_mem_of_parse hback ((hasked taskId).mp hmem))
  unfold Async.waitFor
  rw [if_neg (Finset.ne_empty_of_mem hpending), hparsed]
  have hread : Async.Returns d.Answers (World.LeavesGone id) Instruction.Reads
      (fun ids w' => w'.store.Gone id ∧ taskIds = ids) (Async.fallible (.ok taskIds)) w :=
    Async.returns_pure fun _ ht => ⟨ht hgone, rfl⟩
  refine hread.bind (fun _ h => h) fun ids w ⟨hw, hids⟩ => ?_
  subst hids
  have hcheck : Async.Returns d.Answers (World.LeavesGone id) Instruction.Reads
      (fun checked w' => w'.store.Gone id ∧ ∀ outcome, checked = .ok outcome →
        ∃ results, outcome = .ok results ∧
          ∀ result ∈ results, core.printTaskId (TaskResult.taskId result) ≠ id)
      (Async.catching (Async.checkStatus decode taskIds)) w := by
    have hyields : Async.Yields d.Answers (World.LeavesGone id) Instruction.Reads
        _ (Async.checkStatus decode taskIds) w := yields_checkStatusGone htexts hw
    have hwithin := Program.Meets.within (R := World.LeavesGone id) (fun _ _ _ h h' => h' ∘ h)
      leavesGone_of_reads (fun h => h) hyields
    refine Async.returns_catching (fun _ h => h) (fun _ _ _ ht hw' => ⟨ht hw'.1, hw'.2⟩)
      (hwithin.imp fun checked w' ⟨hok, hleads⟩ => ⟨hleads hw, hok⟩)
  refine hcheck.bind (fun _ h => h) fun checked w ⟨hw, houtcome⟩ => ?_
  cases checked with
  | error e =>
      exact Async.returns_pure fun _ ht =>
        ⟨ht hw, [.error e], pendingIds, rfl, hback, hpending, by simp⟩
  | ok outcome =>
      obtain ⟨results, rfl, hothers⟩ := houtcome outcome rfl
      dsimp only
      split
      · exact Async.returns_pure fun _ ht =>
          ⟨ht hw, [], pendingIds, rfl, hback, hpending, by simp⟩
      · refine Async.returns_pure fun _ ht => ⟨ht hw, results.map .ok, remaining pendingIds results,
          rfl, hback.remaining results, (mem_remaining results).mpr ⟨hpending, hothers⟩, ?_⟩
        intro result hresult
        obtain ⟨result', hmem, heq⟩ := List.mem_map.mp hresult
        cases heq
        exact hothers result hmem

end Deployment

namespace Async

variable {core : Core} {Outcome : Type} (decode : String → Except String Outcome)

/-- The polls of the stream, each with its items, and what is pending after them. -/
def polls : List HashOrder → Finset String →
    Async (List (List (Except String (TaskResult core Outcome))) × Finset String)
  | [], pendingIds => pure ([], pendingIds)
  | order :: orders, pendingIds => do
      let polled : Option (List (Except String (TaskResult core Outcome)) × Finset String) ←
        waitFor decode order pendingIds
      match polled with
      | none => pure ([], pendingIds)
      | some (items, left) => do
          let later ← polls orders left
          pure (items :: later.1, later.2)

/-- The items of the stream are those of its polls. -/
theorem stream_eq_polls
    (orders : List HashOrder) :
    ∀ pendingIds : Finset String,
      (stream decode orders pendingIds : Async (List (Except String (TaskResult core Outcome)))) =
        (fun polled => polled.1.flatten) <$> polls decode orders pendingIds := by
  induction orders with
  | nil =>
      intro pendingIds
      rw [stream, polls, map_pure]
      rfl
  | cons order orders ih =>
      intro pendingIds
      rw [stream, polls, map_bind]
      refine bind_congr fun polled => ?_
      cases polled with
      | none =>
          dsimp only
          rw [map_pure]
          rfl
      | some polled =>
          dsimp only
          rw [ih, bind_map_left, map_bind]
          refine bind_congr fun later => ?_
          rw [map_pure, List.flatten_cons]

end Async

/-- All polls have taken place and the stream is not over, and no poll has yielded a
result of the task. -/
structure WaitsOn (core : Core) {Outcome : Type} (id : String) (polls : Nat)
    (polled : List (List (Except String (TaskResult core Outcome))) × Finset String) : Prop where
  rounds : polled.1.length = polls
  pending : id ∈ polled.2
  silent : ∀ items ∈ polled.1, ∀ result, .ok result ∈ items → core.printTaskId result.taskId ≠ id

theorem Deployment.returns_pollsGone
    {core : Core}
    {Outcome : Type}
    {d : Deployment core Outcome}
    {id : String}
    {decode : String → Except String Outcome}
    (orders : List HashOrder) :
    ∀ {w : World} {pendingIds : Finset String}, ReadBack core pendingIds → id ∈ pendingIds →
      w.store.Gone id →
      Async.Returns d.Answers (World.LeavesGone id) Instruction.Reads
        (fun polled _ => WaitsOn core id orders.length polled)
        (Async.polls decode orders pendingIds) w := by
  induction orders with
  | nil => exact fun _ hpending _ => Async.returns_pure fun _ _ => ⟨rfl, hpending, by simp⟩
  | cons order orders ih =>
      intro w pendingIds hback hpending hgone
      refine (Deployment.returns_waitForGone hback hpending order hgone).bind (fun _ h => h)
        fun polled w ⟨hw, items, left, hpolled, hback, hleft, hothers⟩ => ?_
      subst hpolled
      refine (ih hback hleft hw).bind (fun _ h => h) fun later w hlater => ?_
      exact Async.returns_pure fun _ _ => ⟨congrArg (· + 1) hlater.rounds, hlater.pending,
        List.forall_mem_cons.mpr ⟨hothers, hlater.silent⟩⟩

/-- **Waiting for a deleted outcome never ends.**  After a vacuum has deleted a
finished task, whatever anybody does between the commands of the polls short of storing
the task anew, a stream that waits for it yields nothing about it and goes on, as long
as the pending texts are read back as they are. -/
theorem waits_for_ever
    {core : Core}
    {Outcome : Type}
    (d : Deployment core Outcome)
    {s : Store}
    {op : Op}
    {between : List Op}
    {taskId : core.TaskId}
    (hstored : core.printTaskId taskId ∈ s.jobData)
    (hidle : ¬s.Live (core.printTaskId taskId))
    (hdeleted : core.printTaskId taskId ∉ ((op.exec d.rt d.queue).run s).2.jobData)
    (hanew : NeverStoredAnew d.rt d.queue (core.printTaskId taskId) between
      ((op.exec d.rt d.queue).run s).2)
    {w : World}
    (hstore : w.store = runOps d.rt d.queue (op :: between) s)
    {pendingIds : Finset String}
    (hback : ReadBack core pendingIds)
    (hpending : core.printTaskId taskId ∈ pendingIds)
    {orders : List HashOrder}
    {reply : Except String (List (List (Except String (TaskResult core Outcome))) × Finset String)}
    {c : Deployment.State}
    (hruns : Relation.ReflTransGen (Pool.Watch d.Answers
        (World.Proceeds d.rt d.queue (core.printTaskId taskId)) (fun _ => False) fun _ => True)
      ((Async.polls d.decode orders pendingIds).run, ⟨w, []⟩) (.done reply, c)) :
    ∃ polled, reply = .ok polled ∧
      WaitsOn core (core.printTaskId taskId) orders.length polled := by
  have hgone : w.store.Gone (core.printTaskId taskId) := by
    rw [hstore]
    exact gone_runOps between _ hanew (gone_of_deleted hstored hidle hdeleted)
  have hreturns : Async.Returns d.Answers (World.LeavesGone (core.printTaskId taskId))
      Instruction.Reads
      (fun polled _ => WaitsOn core (core.printTaskId taskId) orders.length polled)
      (Async.polls d.decode orders pendingIds) w :=
    Deployment.returns_pollsGone orders hback hpending hgone
  exact Pool.Watch.done_of_idle (R := World.LeavesGone (core.printTaskId taskId)) (fun _ h => h)
    (fun _ _ _ h h' => h' ∘ h) (fun _ _ hproceeds => hproceeds.leavesGone) hreturns hruns

/-- Two polls for the outcome of the task, after a vacuum. -/
def forgottenPolls :
    Except String (List (List (Except String (TaskResult Core.text String))) × Finset String) ×
      World :=
  (Async.polls twoWorkers.decode [.ascending, .ascending]
    (requestedIds Core.text ["a"])).run.alone twoWorkers.answer
      { doneWorld with
        store := runOps twoWorkers.rt twoWorkers.queue [.vacuum] doneWorld.store }

theorem not_live_doneWorld :
    ¬doneWorld.store.Live "a" := by
  obtain ⟨⟨calls, -, hcalls⟩, -⟩ :=
    Deployment.conforms_of_reaches careful_twoWorkers reaches_doneWorld
  obtain ⟨b, -, hb⟩ := reflects_run twoWorkers.rt twoWorkers.queue calls reflects_empty
  rw [← hcalls] at hb
  obtain ⟨p, hp, hid⟩ := hb.final_of_finished finished_doneWorld
  exact hb.unlive hp hid

theorem waits_for_vacuumed :
    ∃ polled, forgottenPolls.1 = .ok polled ∧ WaitsOn Core.text "a" 2 polled := by
  have hstored : Core.text.printTaskId "a" ∈ doneWorld.store.jobData := by decide +kernel
  have hdeleted : Core.text.printTaskId "a" ∉
      ((Op.vacuum.exec twoWorkers.rt twoWorkers.queue).run doneWorld.store).2.jobData := by
    decide +kernel
  have hanew : NeverStoredAnew twoWorkers.rt twoWorkers.queue (Core.text.printTaskId "a") []
      ((Op.vacuum.exec twoWorkers.rt twoWorkers.queue).run doneWorld.store).2 := trivial
  exact waits_for_ever twoWorkers hstored not_live_doneWorld hdeleted hanew rfl
    (@readBack_requestedIds Core.text ["a"] fun _ _ => rfl) (by decide +kernel)
    (Pool.watch_alone twoWorkers.answers_answer _ _ [] _)

end ApalisRedis
