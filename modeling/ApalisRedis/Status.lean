import ApalisRedis.Acknowledgement
import ApalisRedis.Delivery

/-!
# Waiting for results

`check_status` reports a task as soon as its metadata have a status and a
result.  Acknowledgements of every attempt write both, and neither a retry nor a
release takes the result away.

**Results.**
* `finished_by`: a finished task carries the outcome that finished it.
* `concluded_run`: without retries, tasks with a result are finished.
* `reports_finished_iff`: when `check_status` and the polls of `wait_for` report
  finished tasks only.
-/

namespace ApalisRedis

open Lua Redis Script

section History

variable (rt : Runtime) (queue : String)

/-- The record was the one that finished the task: at its turn the worker held
the task, and the outcome is not retried. -/
def FinishedBy (calls : List Call) (id : String) (r : AckRecord) : Prop :=
  ∃ before after worker emitEvents written rest,
    calls = before ++ .handleResults worker emitEvents (written ++ r :: rest) :: after ∧
      (run rt queue before Store.empty).HoldsOnce worker (written ++ [r]) ∧
      r.taskId = id ∧ (r.place = .done ∨ r.place = .dead)

/-- Persistence calls that record no outcome. -/
def unfinishing (rt : Runtime) : Powers where
  register _ := True
  push _ := True
  deliver := True
  stash := ∃ n, ¬rt.Fits n
  discard := False
  ack _ := False

variable {rt}

/-- Only an acknowledgement finishes a task. -/
theorem Move.finished
    {s t : Store}
    (hmove : Move rt (unfinishing rt) s t)
    {id : String}
    (hid : t.Finished id) :
    s.Finished id := by
  cases hmove with
  | bookkeep hsame =>
      unfold Store.Finished at hid ⊢
      rwa [hsame.doneJobs, hsame.deadJobs] at hid
  | ack worker r hheld hmay => exact hmay.elim
  | discard taskId hmay => exact hmay.elim
  | _ => exact hid

/-- What a batch finished besides what was finished before. -/
theorem finished_ackAll
    (worker : String)
    (emitEvents : Bool)
    (batch : List AckRecord) :
    ∀ {s : Store} {id : String}, (s.ackAll queue worker emitEvents batch).Finished id →
      s.Finished id ∨ ∃ r ∈ batch, r.taskId = id ∧ (r.place = .done ∨ r.place = .dead) := by
  induction batch with
  | nil => exact fun h => .inl h
  | cons r rest ih =>
      intro s id h
      rcases ih (s := (s.ack worker r).say emitEvents (r.channel queue) r.taskId) h with
        hold | ⟨r', hr', hid, hplace⟩
      · rcases hold with hdone | hdead
        · change id ∈ ite _ _ _ at hdone
          split at hdone
          · next hplace =>
              rcases Finset.mem_insert.mp hdone with rfl | hdone
              · exact .inr ⟨r, List.mem_cons_self, rfl, .inl hplace⟩
              · exact .inl (.inl hdone)
          · exact .inl (.inl hdone)
        · change id ∈ ite _ _ _ at hdead
          split at hdead
          · next hplace =>
              rcases Finset.mem_insert.mp hdead with rfl | hdead
              · exact .inr ⟨r, List.mem_cons_self, rfl, .inr hplace⟩
              · exact .inl (.inr hdead)
          · exact .inl (.inr hdead)
      · exact .inr ⟨r', List.mem_cons_of_mem _ hr', hid, hplace⟩

theorem Store.HoldsOnce.of_append
    {s : Store}
    {worker : String}
    {before after : List AckRecord}
    (h : s.HoldsOnce worker (before ++ after)) :
    s.HoldsOnce worker before := by
  refine ⟨fun r hr => h.1 r (List.mem_append_left _ hr), ?_⟩
  have hnd := h.2
  rw [List.map_append] at hnd
  exact hnd.of_append_left

/-- A batch is recorded up to some record. -/
theorem exists_written
    (worker : String)
    (emitEvents : Bool)
    (batch : List AckRecord)
    (s : Store) :
    ∃ written rest, batch = written ++ rest ∧ s.HoldsOnce worker written ∧
      ((handleResultsScript queue worker emitEvents batch).run s).2 =
        s.ackAll queue worker emitEvents written := by
  rcases run_ackTasks queue worker emitEvents batch 0 s with
    ⟨honce, hrun⟩ | ⟨written, r, rest, hsplit, honce, -, hrun⟩
  · exact ⟨batch, [], by simp, honce, congrArg Prod.snd hrun⟩
  · exact ⟨written, r :: rest, hsplit, honce, congrArg Prod.snd hrun⟩

theorem nodup_ackMeta
    (r : AckRecord) :
    ((ackMeta r).map Prod.fst).Nodup := by
  change ["result", "status", "attempts", "done_at"].Nodup
  decide

/-- A task that a batch finished was finished by one of the records that it got to. -/
theorem exists_finishing
    (worker : String)
    (emitEvents : Bool)
    (batch : List AckRecord)
    {s : Store}
    {id : String}
    (hunfinished : ¬s.Finished id)
    (hfinished : ((handleResultsScript queue worker emitEvents batch).run s).2.Finished id) :
    ∃ written r rest, batch = written ++ r :: rest ∧ s.HoldsOnce worker (written ++ [r]) ∧
      r.taskId = id ∧ (r.place = .done ∨ r.place = .dead) ∧
      ∀ f ∈ ackMeta r, (((handleResultsScript queue worker emitEvents batch).run s).2.jobMeta
        id).lookup f.1 = some f.2 := by
  obtain ⟨written, rest, rfl, honce, hstate⟩ := exists_written queue worker emitEvents batch s
  rw [hstate] at hfinished ⊢
  rcases finished_ackAll queue worker emitEvents written hfinished with
    hbefore | ⟨r, hr, rfl, hplace⟩
  · exact absurd hbefore hunfinished
  · obtain ⟨first, second, rfl⟩ := List.append_of_mem hr
    refine ⟨first, r, second ++ rest, ?_, ?_, rfl, hplace, fun f hf => ?_⟩
    · rw [List.append_assoc, List.cons_append]
    · rw [List.append_cons] at honce
      exact honce.of_append
    · rw [(recorded_ackAll queue worker emitEvents _ _ honce r hr).2.2]
      exact Hash.lookup_setAll_of_mem _ (nodup_ackMeta r) hf _

variable (rt)

/-- **A finished task carries the outcome that finished it.** -/
theorem finished_by
    (calls : List Call)
    {id : String}
    (hfinished : (run rt queue calls Store.empty).Finished id) :
    ∃ r, FinishedBy rt queue calls id r ∧
      ∀ f ∈ ackMeta r, ((run rt queue calls Store.empty).jobMeta id).lookup f.1 = some f.2 := by
  induction calls using List.reverseRecOn with
  | nil => exact absurd hfinished (by rintro (h | h) <;> cases h)
  | append_singleton calls c ih =>
      rcases em ((run rt queue calls Store.empty).Finished id) with hbefore | hunfinished
      · -- The outcome of a finished task is not touched any more.
        obtain ⟨r, ⟨before, after, worker, emitEvents, written, rest, hcalls, honce, hid, hplace⟩,
          hmeta⟩ := ih hbefore
        have hsame := jobMeta_of_finished rt queue calls [c] hbefore
        refine ⟨r, ⟨before, after ++ [c], worker, emitEvents, written, rest, ?_, honce, hid,
          hplace⟩, ?_⟩
        · rw [hcalls, List.append_assoc, List.cons_append]
        · rw [hsame]
          exact hmeta
      · have hstep : run rt queue (calls ++ [c]) Store.empty =
            ((c.exec rt queue).run (run rt queue calls Store.empty)).2 := by
          rw [run_append]
          rfl
        rw [hstep] at hfinished ⊢
        have hother : c.Within (unfinishing rt) → False := by
          intro hwithin
          have hstash : ∀ n, ¬rt.Fits n → (unfinishing rt).stash := fun n hn => ⟨n, hn⟩
          have hmoves := c.movesBy queue hstash hwithin (run rt queue calls Store.empty)
          exact Systems.preserved (I := fun s => ¬s.Finished id)
            (fun _ _ hmove hs ht => hs (hmove.finished ht)) hmoves hunfinished hfinished
        cases c with
        | handleResults worker emitEvents batch =>
            obtain ⟨written, r, rest, rfl, honce, hid, hplace, hmeta⟩ :=
              exists_finishing queue worker emitEvents batch hunfinished hfinished
            exact ⟨r, ⟨calls, [], worker, emitEvents, written, rest, rfl, honce, hid, hplace⟩,
              hmeta⟩
        | pushTasks ttl emitEvents batch => exact (hother fun _ _ => trivial).elim
        | _ => exact (hother trivial).elim

/-- A record that the script gets to is among those that it writes. -/
theorem written_of_holdsOnce
    (worker : String)
    (emitEvents : Bool)
    {first rest : List AckRecord}
    {r : AckRecord}
    {s : Store}
    (honce : s.HoldsOnce worker (first ++ [r])) :
    ∃ second, s.HoldsOnce worker (first ++ r :: second) ∧
      ((handleResultsScript queue worker emitEvents (first ++ r :: rest)).run s).2 =
        s.ackAll queue worker emitEvents (first ++ r :: second) := by
  have hheld : ∀ before r' after, first ++ [r] = before ++ r' :: after →
      r'.taskId ∈ (s.ackAll queue worker emitEvents before).inflightJobs worker := by
    intro before r' after hsplit
    rw [hsplit] at honce
    have hnd := honce.2
    rw [List.map_append, List.map_cons, List.nodup_append] at hnd
    rw [inflight_ackAll, Finset.mem_sdiff, List.mem_toFinset]
    exact ⟨honce.1 r' (by simp), fun hmem => hnd.2.2 _ hmem _ List.mem_cons_self rfl⟩
  rcases run_ackTasks queue worker emitEvents (first ++ r :: rest) 0 s with
    ⟨hall, hrun⟩ | ⟨written, r', rest', hsplit, hwritten, hmissing, hrun⟩
  · exact ⟨rest, hall, congrArg Prod.snd hrun⟩
  · rcases List.append_eq_append_iff.mp hsplit with ⟨more, rfl, hmore⟩ | ⟨more, rfl, hmore⟩
    · cases more with
      | nil =>
          cases hmore
          rw [List.append_nil] at hmissing
          exact absurd (hheld first r [] rfl) hmissing
      | cons r₁ second =>
          cases hmore
          exact ⟨second, hwritten, congrArg Prod.snd hrun⟩
    · cases more with
      | nil =>
          cases hmore
          rw [List.append_nil] at hheld
          exact absurd (hheld written r [] rfl) hmissing
      | cons r₁ more =>
          cases hmore
          exact absurd (hheld written r' (more ++ [r]) (by simp)) hmissing

/-- Whatever record finished a task, the task carries its outcome. -/
theorem fields_of_finishedBy
    (calls : List Call)
    {id : String}
    {r : AckRecord}
    (h : FinishedBy rt queue calls id r) :
    ∀ f ∈ ackMeta r, ((run rt queue calls Store.empty).jobMeta id).lookup f.1 = some f.2 := by
  obtain ⟨before, after, worker, emitEvents, written, rest, rfl, honce, rfl, hplace⟩ := h
  obtain ⟨second, hsecond, hstate⟩ := @written_of_holdsOnce queue worker emitEvents written rest r
    (run rt queue before Store.empty) honce
  have hrun : run rt queue (before ++
      [.handleResults worker emitEvents (written ++ r :: rest)]) Store.empty =
        (run rt queue before Store.empty).ackAll queue worker emitEvents
          (written ++ r :: second) := by
    rw [run_append, ← hstate]
    rfl
  obtain ⟨-, hat, hmeta⟩ := recorded_ackAll queue worker emitEvents _ _ hsecond r (by simp)
  have hfinished : (run rt queue (before ++
      [.handleResults worker emitEvents (written ++ r :: rest)]) Store.empty).Finished
        r.taskId := by
    rw [hrun]
    rcases hplace with hplace | hplace <;> rw [hplace] at hat
    · exact .inl hat
    · exact .inr hat
  intro f hf
  rw [List.append_cons, jobMeta_of_finished rt queue _ after hfinished, hrun, hmeta]
  exact Hash.lookup_setAll_of_mem _ (nodup_ackMeta r) hf _

/-- Every task that has a result is finished. -/
def Store.Concluded (s : Store) : Prop :=
  ∀ id, s.Finished id ∨ (s.jobMeta id).lookup "result" = none

/-- The call pushes no metadata with a result, and records no outcome that is retried. -/
def Call.Concludes : Call → Store → Prop
  | .pushTasks _ _ batch, _ => ∀ r ∈ batch, "result" ∉ r.metadata
  | .handleResults worker _ batch, s =>
      ∀ written, written <+: batch → s.HoldsOnce worker written →
        ∀ r ∈ written, r.place ≠ .scheduled
  | _, _ => True

/-- Each call of the run concludes what it records. -/
def ConcludingRun : List Call → Store → Prop
  | [], _ => True
  | c :: calls, s => c.Concludes s ∧ ConcludingRun calls ((c.exec rt queue).run s).2

/-- Persistence calls that record no outcome and push no result. -/
def resultless (rt : Runtime) : Powers where
  register _ := True
  push r := "result" ∉ r.metadata
  deliver := True
  stash := ∃ n, ¬rt.Fits n
  discard := False
  ack _ := False

variable {rt}

/-- **Only an acknowledgement brings a result.** -/
theorem Move.concluded
    {s t : Store}
    (hmove : Move rt (resultless rt) s t)
    (h : s.Concluded) :
    t.Concluded := by
  intro id
  cases hmove with
  | bookkeep hsame =>
      unfold Store.Finished
      rw [hsame.doneJobs, hsame.deadJobs, hsame.jobMeta]
      exact h id
  | submit r hnew hmay =>
      refine (h id).imp_right fun hnone => ?_
      have hpushed : "result" ∉ (pushMeta rt r).map Prod.fst := by
        intro hmem
        obtain ⟨⟨field, data⟩, hpair, rfl⟩ := List.mem_map.mp hmem
        rcases List.mem_append.mp hpair with hown | hgiven
        · simp at hown
        · exact hmay (Finmap.mem_of_lookup_eq_some (rt.mem_fields.mp hgiven))
      exact (Hash.lookup_update_setAll s.jobMeta r.taskId _ id hpushed).trans hnone
  | lock worker now taskId hheld =>
      refine (h id).imp_right fun hnone => ?_
      exact (Hash.lookup_update_setAll s.jobMeta taskId _ id (by simp)).trans hnone
  | renew worker now taskId hheld =>
      refine (h id).imp_right fun hnone => ?_
      exact (Hash.lookup_update_setAll s.jobMeta taskId _ id (by simp)).trans hnone
  | release worker taskIds hnd hheld =>
      refine (h id).imp_right fun hnone => ?_
      change (ite _ (Store.resetMeta (s.jobMeta id)) (s.jobMeta id)).lookup "result" = none
      split
      · simpa [Store.resetMeta, Hash.lookup_eraseAll] using hnone
      · exact hnone
  | ack worker r hheld hmay => exact hmay.elim
  | discard taskId hmay => exact hmay.elim
  | _ => exact h id

/-- A batch without retries finishes the tasks that it gives a result. -/
theorem concluded_ackAll
    (worker : String)
    (emitEvents : Bool)
    (batch : List AckRecord)
    (hfinal : ∀ r ∈ batch, r.place ≠ .scheduled) :
    ∀ {s : Store}, s.Concluded → (s.ackAll queue worker emitEvents batch).Concluded := by
  induction batch with
  | nil => exact fun h => h
  | cons r rest ih =>
      intro s h
      refine ih (fun r' hr' => hfinal r' (List.mem_cons_of_mem _ hr'))
        (s := (s.ack worker r).say emitEvents (r.channel queue) r.taskId) fun id => ?_
      change (id ∈ ite _ _ _ ∨ id ∈ ite _ _ _) ∨
        (Function.update s.jobMeta r.taskId _ id).lookup "result" = none
      rcases eq_or_ne id r.taskId with rfl | hne
      · have hplace : r.place = .done ∨ r.place = .dead := by
          have hretry := hfinal r List.mem_cons_self
          unfold AckRecord.place at hretry ⊢
          split
          · exact .inl rfl
          · split
            · next hdone hretried => exact absurd (by rw [if_neg hdone, if_pos hretried]) hretry
            · exact .inr rfl
        rcases hplace with hplace | hplace
        · exact .inl (.inl (by simp [hplace]))
        · exact .inl (.inr (by simp [hplace]))
      · rw [Function.update_of_ne hne]
        refine (h id).imp_left (Or.imp (fun hdone => ?_) fun hdead => ?_)
        · split
          · exact Finset.mem_insert_of_mem hdone
          · exact hdone
        · split
          · exact Finset.mem_insert_of_mem hdead
          · exact hdead

theorem concluded_exec
    (c : Call)
    {s : Store}
    (hc : c.Concludes s)
    (h : s.Concluded) :
    ((c.exec rt queue).run s).2.Concluded := by
  have hkeeps : c.Within (resultless rt) → ((c.exec rt queue).run s).2.Concluded := by
    intro hwithin
    have hstash : ∀ n, ¬rt.Fits n → (resultless rt).stash := fun n hn => ⟨n, hn⟩
    exact Systems.preserved (fun _ _ hmove hu => hmove.concluded hu)
      (c.movesBy queue hstash hwithin s) h
  cases c with
  | handleResults worker emitEvents batch =>
      obtain ⟨written, rest, rfl, honce, hstate⟩ :=
        exists_written queue worker emitEvents batch s
      change ((handleResultsScript queue worker emitEvents (written ++ rest)).run s).2.Concluded
      rw [hstate]
      exact concluded_ackAll queue worker emitEvents written
        (hc written (List.prefix_append _ _) honce) h
  | pushTasks ttl emitEvents batch => exact hkeeps hc
  | _ => exact hkeeps trivial

theorem concluded_run
    (calls : List Call) :
    ∀ {s : Store}, s.Concluded → ConcludingRun rt queue calls s →
      (run rt queue calls s).Concluded := by
  induction calls with
  | nil => exact fun h _ => h
  | cons c calls ih =>
      intro s h hrun
      exact ih (concluded_exec queue c hrun.1 h) hrun.2

end History

/-- `TaskResult` of `apalis_core`. -/
structure TaskResult (core : Core) (Outcome : Type) where
  taskId : core.TaskId
  attempt : Nat
  status : core.Status
  result : Outcome

/-- The order in which a `HashSet<String>` is iterated over. -/
structure HashOrder where
  iter : Finset String → List String
  nodup_iter : ∀ s, (iter s).Nodup
  mem_iter : ∀ {s x}, x ∈ iter s ↔ x ∈ s

/-- Ids in the order of their texts. -/
def HashOrder.ascending : HashOrder where
  iter := (Runtime.ascending none).members
  nodup_iter := (Runtime.ascending none).nodup_members
  mem_iter := (Runtime.ascending none).mem_members

theorem ok_bind
    {α β : Type}
    (a : α)
    (f : α → Except String β) :
    (Except.ok a >>= f) = f a := rfl

theorem error_bind
    {α β : Type}
    (e : String)
    (f : α → Except String β) :
    ((.error e : Except String α) >>= f) = .error e := rfl

section Queries

variable (core : Core) {Outcome : Type}
-- `serde_json::from_slice`, at the type that results are asked for.
variable (decode : String → Except String Outcome)
variable (queue : String)

/-- The body of the loop over the task ids.  The inner error is the panic of the
`unwrap`, which is not an `Err` of the function. -/
def checkTask (taskId : core.TaskId) :
    Script Store (Option (Except String (TaskResult core Outcome))) := do
  let taskMetaKey := Keys.jobMetaHash queue (core.printTaskId taskId)
  let status ← hget taskMetaKey "status"
  match status with
  | none => pure none
  | some statusStr =>
      let status ← fallible (core.parseStatus statusStr)
      let serializedResult ← hget taskMetaKey "result"
      let attempt ← hget taskMetaKey "attempts"
      let attempt ← fallible (attempt.mapM (Rust.parseUnsigned 64))
      match serializedResult with
      | none => pure none
      | some data =>
          let result ← fallible (decode data)
          pure (some ((core.parseTaskId (core.printTaskId taskId)).map fun taskId =>
            ⟨taskId, attempt.getD 1, status, result⟩))

/-- `check_status`, whose commands all read one state.  A panic ends the loop as
an `Err` does, and is the inner error. -/
def checkStatus :
    List core.TaskId → Script Store (Except String (List (TaskResult core Outcome)))
  | [] => pure (.ok [])
  | taskId :: taskIds => do
      let row ← checkTask core decode queue taskId
      match row with
      | none => checkStatus taskIds
      | some (.error panic) => pure (.error panic)
      | some (.ok result) =>
          let results ← checkStatus taskIds
          pure (results.map (result :: ·))

/-- One round of the stream that `wait_for` unfolds: the items that it yields and
the ids that it goes on with. -/
def waitFor (order : HashOrder) (pendingIds : Finset String) :
    Script Store (Option (List (Except String (TaskResult core Outcome)) × Finset String)) := do
  if pendingIds = ∅ then
    pure none
  else
    let idsToCheck ← fallible ((order.iter pendingIds).mapM core.parseTaskId)
    let checked ← catching (checkStatus core decode queue idsToCheck)
    match checked with
    | .ok (.ok results) =>
        if results.isEmpty then
          pure (some ([], pendingIds))
        else
          pure (some (results.map .ok,
            results.foldl (fun ids result => ids.erase (core.printTaskId result.taskId))
              pendingIds))
    | .ok (.error panic) => raise panic
    | .error e => pure (some ([.error e], pendingIds))

/-- The status, the attempt and the result that are stored for a task. -/
def Store.outcomeAt (s : Store) (text : String) :
    Except String (Option (core.Status × Nat × Outcome)) :=
  let fields := s.jobMeta text
  match fields.lookup "status" with
  | none => .ok none
  | some statusStr => do
      let status ← core.parseStatus statusStr
      let attempt ← (fields.lookup "attempts").mapM (Rust.parseUnsigned 64)
      match fields.lookup "result" with
      | none => .ok none
      | some data => do
          let result ← decode data
          .ok (some (status, attempt.getD 1, result))

/-- What the check of one task returns: an `Err`, nothing, a panic or a result. -/
def Store.row (s : Store) (taskId : core.TaskId) :
    Except String (Option (Except String (TaskResult core Outcome))) :=
  (s.outcomeAt core decode (core.printTaskId taskId)).map <| Option.map
    fun (status, attempt, result) => (core.parseTaskId (core.printTaskId taskId)).map
      fun taskId => ⟨taskId, attempt, status, result⟩

/-- What is reported of one task, unless the check fails or panics. -/
def Store.report (s : Store) (taskId : core.TaskId) :
    Except String (Option (TaskResult core Outcome)) := do
  match ← s.row core decode taskId with
  | none => .ok none
  | some result => result.map some

theorem report_eq
    (s : Store)
    (taskId : core.TaskId) :
    s.report core decode taskId = (do
      match ← s.outcomeAt core decode (core.printTaskId taskId) with
      | none => .ok none
      | some (status, attempt, result) =>
          (core.parseTaskId (core.printTaskId taskId)).map fun taskId =>
            some ⟨taskId, attempt, status, result⟩) := by
  unfold Store.report Store.row
  rcases s.outcomeAt core decode (core.printTaskId taskId) with e | (_ | stored)
  · rfl
  · rfl
  · cases core.parseTaskId (core.printTaskId taskId) <;> rfl

variable {core decode} in
/-- A report is the row of a check that does not panic. -/
theorem report_eq_ok
    {s : Store}
    {taskId : core.TaskId}
    {reported : Option (TaskResult core Outcome)} :
    s.report core decode taskId = .ok reported ↔
      s.row core decode taskId = .ok (reported.map .ok) := by
  unfold Store.report
  rcases s.row core decode taskId with e | (_ | (panic | result))
  · exact iff_of_false (fun h => by cases h) fun h => by cases h
  · rw [ok_bind]
    cases reported with
    | none => exact iff_of_true rfl rfl
    | some reported => exact iff_of_false (fun h => by cases h) fun h => by cases h
  · rw [ok_bind]
    exact iff_of_false (fun h => by cases h) fun h => by cases reported <;> cases h
  · rw [ok_bind]
    cases reported with
    | none => exact iff_of_false (fun h => by cases h) fun h => by cases h
    | some reported => exact ⟨fun h => by cases h; rfl, fun h => by cases h; rfl⟩

variable {core decode} in
theorem parse_of_row_panics
    {s : Store}
    {taskId : core.TaskId}
    {panic : String}
    (h : s.row core decode taskId = .ok (some (.error panic))) :
    core.parseTaskId (core.printTaskId taskId) = .error panic := by
  unfold Store.row at h
  rcases hstored : s.outcomeAt core decode (core.printTaskId taskId) with e | (_ | stored) <;>
    rw [hstored] at h
  · cases h
  · cases h
  · cases hparse : core.parseTaskId (core.printTaskId taskId) with
    | ok again =>
        rw [hparse] at h
        cases h
    | error panic' =>
        rw [hparse] at h
        cases h
        rfl

/-- A field of the task that a report needs does not parse, or there is a result
to report and the text of the id does not parse. -/
def Store.Unreadable (s : Store) (taskId : core.TaskId) : Prop :=
  let fields := s.jobMeta (core.printTaskId taskId)
  ∃ statusStr, fields.lookup "status" = some statusStr ∧
    ¬((∃ status, core.parseStatus statusStr = .ok status) ∧
      (∀ text, fields.lookup "attempts" = some text →
        ∃ n, Rust.parseUnsigned 64 text = .ok n) ∧
      ∀ data, fields.lookup "result" = some data →
        (∃ outcome, decode data = .ok outcome) ∧
          ∃ id, core.parseTaskId (core.printTaskId taskId) = .ok id)

/-- The task has no status, or no result. -/
def Store.Unreported (s : Store) (taskId : core.TaskId) : Prop :=
  (s.jobMeta (core.printTaskId taskId)).lookup "status" = none ∨
    (s.jobMeta (core.printTaskId taskId)).lookup "result" = none

/-- The stored count of attempts is read when it is there. -/
theorem readAttempt_cases
    (attempt : Option String) :
    (∃ text e, attempt = some text ∧ Rust.parseUnsigned 64 text = .error e ∧
        attempt.mapM (Rust.parseUnsigned 64) = .error e) ∨
      ∃ read, attempt.mapM (Rust.parseUnsigned 64) = .ok read ∧
        ∀ text, attempt = some text → Rust.parseUnsigned 64 text = .ok (read.getD 1) := by
  cases attempt with
  | none => exact .inr ⟨none, rfl, fun text h => by cases h⟩
  | some text =>
      cases hparse : Rust.parseUnsigned 64 text with
      | error e =>
          refine .inl ⟨text, e, rfl, hparse, ?_⟩
          rw [Option.mapM_some, hparse]
          rfl
      | ok n =>
          refine .inr ⟨some n, ?_, ?_⟩
          · rw [Option.mapM_some, hparse]
            rfl
          · rintro _ ⟨⟩
            exact hparse

/-- A task with a status is readable when all of its fields parse. -/
theorem readable_of_parsed
    {s : Store}
    {taskId : core.TaskId}
    {statusStr : String}
    {status : core.Status}
    (hstatus : (s.jobMeta (core.printTaskId taskId)).lookup "status" = some statusStr)
    (hparse : core.parseStatus statusStr = .ok status)
    (hattempt : ∀ text, (s.jobMeta (core.printTaskId taskId)).lookup "attempts" = some text →
      ∃ n, Rust.parseUnsigned 64 text = .ok n)
    (hresult : ∀ data, (s.jobMeta (core.printTaskId taskId)).lookup "result" = some data →
      (∃ outcome, decode data = .ok outcome) ∧
        ∃ id, core.parseTaskId (core.printTaskId taskId) = .ok id) :
    ¬s.Unreadable core decode taskId := by
  rintro ⟨text, htext, hbad⟩
  cases hstatus.symm.trans htext
  exact hbad ⟨⟨status, hparse⟩, hattempt, hresult⟩

variable {core} in
/-- What is reported besides the id. -/
def TaskResult.outcome (reported : TaskResult core Outcome) : core.Status × Nat × Outcome :=
  (reported.status, reported.attempt, reported.result)

/-- The three outcomes of a check. -/
theorem report_cases
    (s : Store)
    (taskId : core.TaskId) :
    (s.Unreadable core decode taskId ∧ ∃ e, s.report core decode taskId = .error e) ∨
      (¬s.Unreadable core decode taskId ∧ s.Unreported core taskId ∧
        s.report core decode taskId = .ok none) ∨
      (¬s.Unreadable core decode taskId ∧ ¬s.Unreported core taskId ∧
        ∃ reported, s.report core decode taskId = .ok (some reported) ∧
          core.parseTaskId (core.printTaskId taskId) = .ok reported.taskId ∧
          s.outcomeAt core decode (core.printTaskId taskId) = .ok (some reported.outcome)) := by
  cases hstatus : (s.jobMeta (core.printTaskId taskId)).lookup "status" with
  | none =>
      refine .inr (.inl ⟨?_, .inl hstatus, ?_⟩)
      · rintro ⟨text, htext, -⟩
        cases hstatus.symm.trans htext
      · simp only [report_eq, Store.outcomeAt, hstatus, ok_bind]
  | some statusStr =>
      cases hparse : core.parseStatus statusStr with
      | error e =>
          refine .inl ⟨⟨statusStr, hstatus, fun ⟨⟨status, hok⟩, _⟩ => ?_⟩, e, ?_⟩
          · cases hparse.symm.trans hok
          · simp only [report_eq, Store.outcomeAt, hstatus, hparse, error_bind]
      | ok status =>
          rcases readAttempt_cases
              ((s.jobMeta (core.printTaskId taskId)).lookup "attempts") with
            ⟨text, e, htext, hbad, herror⟩ | ⟨read, hread, hattempt⟩
          · refine .inl ⟨⟨statusStr, hstatus, fun ⟨_, hgood, _⟩ => ?_⟩, e, ?_⟩
            · obtain ⟨n, hn⟩ := hgood text htext
              cases hbad.symm.trans hn
            · simp only [report_eq, Store.outcomeAt, hstatus, hparse, herror, ok_bind,
                error_bind]
          · cases hresult : (s.jobMeta (core.printTaskId taskId)).lookup "result" with
            | none =>
                refine .inr (.inl ⟨?_, .inr hresult, ?_⟩)
                · refine readable_of_parsed core decode hstatus hparse
                    (fun text htext => ⟨_, hattempt text htext⟩) fun data hdata => ?_
                  cases hresult.symm.trans hdata
                · simp only [report_eq, Store.outcomeAt, hstatus, hparse, hread, hresult,
                    ok_bind]
            | some data =>
                cases hdecode : decode data with
                | error e =>
                    refine .inl ⟨⟨statusStr, hstatus, fun ⟨_, _, hgood⟩ => ?_⟩, e, ?_⟩
                    · obtain ⟨⟨outcome, hok⟩, -⟩ := hgood data hresult
                      cases hdecode.symm.trans hok
                    · simp only [report_eq, Store.outcomeAt, hstatus, hparse, hread, hresult,
                        hdecode, ok_bind, error_bind]
                | ok outcome =>
                    have hstored : s.outcomeAt core decode (core.printTaskId taskId) =
                        .ok (some (status, read.getD 1, outcome)) := by
                      simp only [Store.outcomeAt, hstatus, hparse, hread, hresult, hdecode,
                        ok_bind]
                    cases hid : core.parseTaskId (core.printTaskId taskId) with
                    | error e =>
                        -- The result is there, and the `unwrap` of its id panics.
                        refine .inl ⟨⟨statusStr, hstatus, fun ⟨_, _, hgood⟩ => ?_⟩, e, ?_⟩
                        · obtain ⟨-, again, hok⟩ := hgood data hresult
                          cases hid.symm.trans hok
                        · simp only [report_eq, hstored, hid, ok_bind, Except.map]
                    | ok again =>
                        refine .inr (.inr ⟨?_, ?_, ⟨again, read.getD 1, status, outcome⟩, ?_, rfl,
                          hstored⟩)
                        · refine readable_of_parsed core decode hstatus hparse
                            (fun text htext => ⟨_, hattempt text htext⟩) fun data' hdata => ?_
                          cases hresult.symm.trans hdata
                          exact ⟨⟨outcome, hdecode⟩, again, hid⟩
                        · rintro (hnone | hnone)
                          · cases hstatus.symm.trans hnone
                          · cases hresult.symm.trans hnone
                        · simp only [report_eq, hstored, hid, ok_bind, Except.map]

theorem run_checkTask
    (taskId : core.TaskId)
    (s : Store) :
    (checkTask core decode queue taskId).run s = (s.row core decode taskId, s) := by
  have hstatus : (checkTask core decode queue taskId).run s =
      (match (s.jobMeta (core.printTaskId taskId)).lookup "status" with
      | none => pure none
      | some statusStr => do
          let status ← fallible (core.parseStatus statusStr)
          let serializedResult ← hget (Keys.jobMetaHash queue (core.printTaskId taskId)) "result"
          let attempt ← hget (Keys.jobMetaHash queue (core.printTaskId taskId)) "attempts"
          let attempt ← fallible (attempt.mapM (Rust.parseUnsigned 64))
          match serializedResult with
          | none => pure none
          | some data => do
              let result ← fallible (decode data)
              pure (some ((core.parseTaskId (core.printTaskId taskId)).map fun taskId =>
                TaskResult.mk taskId (attempt.getD 1) status result))).run s := rfl
  rw [hstatus]
  dsimp only [Store.row, Store.outcomeAt]
  cases (s.jobMeta (core.printTaskId taskId)).lookup "status" with
  | none => rfl
  | some statusStr =>
      dsimp only
      cases core.parseStatus statusStr with
      | error e => rfl
      | ok status =>
          simp only [run_bind_ok (run_fallible _ s), hget, run_command_bind,
            Keys.jobMetaHash_get, id, ok_bind]
          cases Option.mapM (Rust.parseUnsigned 64)
              ((s.jobMeta (core.printTaskId taskId)).lookup "attempts") with
          | error e => rfl
          | ok read =>
              simp only [run_bind_ok (run_fallible _ s), ok_bind]
              cases (s.jobMeta (core.printTaskId taskId)).lookup "result" with
              | none => rfl
              | some data =>
                  dsimp only
                  cases decode data <;> rfl

/-- What `check_status` returns: an `Err`, the panic of an `unwrap`, or results. -/
def Store.reports (s : Store) :
    List core.TaskId → Except String (Except String (List (TaskResult core Outcome)))
  | [] => .ok (.ok [])
  | taskId :: taskIds =>
      match s.row core decode taskId with
      | .error e => .error e
      | .ok none => s.reports taskIds
      | .ok (some (.error panic)) => .ok (.error panic)
      | .ok (some (.ok result)) => (s.reports taskIds).map (Except.map (result :: ·))

theorem run_checkStatus
    (taskIds : List core.TaskId)
    (s : Store) :
    (checkStatus core decode queue taskIds).run s = (s.reports core decode taskIds, s) := by
  induction taskIds with
  | nil => rfl
  | cons taskId taskIds ih =>
      have hfirst := run_checkTask core decode queue taskId s
      rw [checkStatus, Store.reports]
      rcases hrow : s.row core decode taskId with e | (_ | (panic | result)) <;>
        rw [hrow] at hfirst
      · exact run_bind_error hfirst _
      · rw [run_bind_ok hfirst]
        exact ih
      · exact run_bind_ok hfirst _
      · rw [run_bind_ok hfirst]
        change (checkStatus core decode queue taskIds >>= _).run s = _
        cases hreports : s.reports core decode taskIds with
        | error e =>
            rw [hreports] at ih
            exact run_bind_error ih _
        | ok checked =>
            rw [hreports] at ih
            exact run_bind_ok ih _

variable {core decode} in
/-- A check succeeds with the reports of its tasks. -/
theorem reports_eq_ok
    {taskIds : List core.TaskId}
    {s : Store} :
    ∀ {results : List (TaskResult core Outcome)},
      s.reports core decode taskIds = .ok (.ok results) ↔
        (taskIds.mapM (s.report core decode)).map (List.filterMap id) = .ok results := by
  induction taskIds with
  | nil => simp [Store.reports, Except.map, pure, Except.pure]
  | cons taskId taskIds ih =>
      intro results
      rw [List.mapM_cons, Store.reports, Store.report]
      rcases s.row core decode taskId with e | (_ | (panic | result))
      · exact iff_of_false (fun h => by cases h) fun h => by cases h
      · refine ih.trans ?_
        cases taskIds.mapM (s.report core decode) <;> rfl
      · exact iff_of_false (fun h => by cases h) fun h => by cases h
      · cases hrows : taskIds.mapM (s.report core decode) with
        | ok rows =>
            rw [ih.mpr (congrArg (Except.map (List.filterMap id)) hrows)]
            exact ⟨fun h => by cases h; rfl, fun h => by cases h; rfl⟩
        | error e =>
            refine iff_of_false (fun h => ?_) fun h => by cases h
            rcases hreports : s.reports core decode taskIds with e' | (panic | rest)
            · rw [hreports] at h
              cases h
            · rw [hreports] at h
              cases h
            · have hrest := ih.mp hreports
              rw [hrows] at hrest
              cases hrest

variable {core decode} in
/-- A check panics at the text of an id that does not parse. -/
theorem reports_panics
    {taskIds : List core.TaskId}
    {s : Store}
    {panic : String}
    (h : s.reports core decode taskIds = .ok (.error panic)) :
    ∃ taskId ∈ taskIds, core.parseTaskId (core.printTaskId taskId) = .error panic := by
  induction taskIds with
  | nil => cases h
  | cons taskId taskIds ih =>
      have hlater : s.reports core decode taskIds = .ok (.error panic) →
          ∃ taskId' ∈ taskId :: taskIds,
            core.parseTaskId (core.printTaskId taskId') = .error panic := by
        intro hrest
        obtain ⟨taskId', hmem, hpanic⟩ := ih hrest
        exact ⟨taskId', List.mem_cons_of_mem _ hmem, hpanic⟩
      rw [Store.reports] at h
      rcases hrow : s.row core decode taskId with e | (_ | (panic' | result)) <;>
        rw [hrow] at h
      · cases h
      · exact hlater h
      · cases h
        exact ⟨taskId, List.mem_cons_self, parse_of_row_panics hrow⟩
      · rcases hreports : s.reports core decode taskIds with e | (panic' | rest) <;>
          rw [hreports] at h
        · cases h
        · cases h
          exact hlater hreports
        · cases h

/-- A successful check lists what is reported of each task. -/
theorem mem_checked
    {taskIds : List core.TaskId}
    {s : Store}
    {results : List (TaskResult core Outcome)}
    (hok : ((checkStatus core decode queue taskIds).run s).1 = .ok (.ok results))
    (reported : TaskResult core Outcome) :
    reported ∈ results ↔ ∃ id ∈ taskIds, s.report core decode id = .ok (some reported) := by
  rw [run_checkStatus] at hok
  have hchecked := reports_eq_ok.mp hok
  cases hrows : taskIds.mapM (s.report core decode) with
  | error e =>
      rw [hrows] at hchecked
      cases hchecked
  | ok rows =>
      rw [hrows] at hchecked
      obtain rfl : rows.filterMap id = results := Except.ok.inj hchecked
      rw [List.mem_filterMap]
      simp only [id, exists_eq_right]
      exact mem_of_mapM_eq_ok hrows

/-- A check succeeds when every listed task is readable. -/
theorem exists_checked_iff
    (taskIds : List core.TaskId)
    (s : Store) :
    (∃ results : List (TaskResult core Outcome),
      ((checkStatus core decode queue taskIds).run s).1 = .ok (.ok results)) ↔
        ∀ id ∈ taskIds, ¬s.Unreadable core decode id := by
  have hrows : (∃ rows, taskIds.mapM (s.report core decode) = .ok rows) ↔
      ∀ id ∈ taskIds, ¬s.Unreadable core decode id := by
    rw [exists_mapM_eq_ok]
    refine forall₂_congr fun id _ => ?_
    rcases report_cases core decode s id with
      ⟨hbad, e, herror⟩ | ⟨hgood, -, hok⟩ | ⟨hgood, -, reported, hok, -⟩
    · refine iff_of_false (fun ⟨row, hrow⟩ => ?_) (not_not.mpr hbad)
      cases herror.symm.trans hrow
    · exact iff_of_true ⟨_, hok⟩ hgood
    · exact iff_of_true ⟨_, hok⟩ hgood
  rw [← hrows, run_checkStatus]
  simp only [reports_eq_ok]
  cases taskIds.mapM (s.report core decode) with
  | error e => exact iff_of_false (fun ⟨_, h⟩ => by cases h) fun ⟨_, h⟩ => by cases h
  | ok rows => exact iff_of_true ⟨_, rfl⟩ ⟨_, rfl⟩

/-- Nothing is reported of the task; or the id that its text is read as is that
of a finished task, for which the same outcome is stored. -/
def Store.ConcludedAt (s : Store) (taskId : core.TaskId) : Prop :=
  s.Unreported core taskId ∨
    ∃ text, core.reread (core.printTaskId taskId) = .ok text ∧ s.Finished text ∧
      s.outcomeAt core decode text = s.outcomeAt core decode (core.printTaskId taskId)

/-- Every listed task that is reported on is finished, or the check fails. -/
def Store.Conclusive (s : Store) (taskIds : List core.TaskId) : Prop :=
  (∃ id ∈ taskIds, s.Unreadable core decode id) ∨ ∀ id ∈ taskIds, s.ConcludedAt core decode id

/-- The ids that `wait_for` asks for, unless one of the texts does not parse. -/
def rereadTaskIds (taskIds : List core.TaskId) : Except String (List core.TaskId) :=
  (taskIds.map core.printTaskId).mapM core.parseTaskId

/-- So it is for the listed tasks, and for those that `wait_for` asks for instead. -/
def Store.ConclusiveFor (s : Store) (taskIds : List core.TaskId) : Prop :=
  s.Conclusive core decode taskIds ∧
    ∀ ids, rereadTaskIds core taskIds = .ok ids → s.Conclusive core decode ids

variable {core} in
/-- Where the text of the id is read back as it is, the task has to be finished. -/
theorem concludedAt_iff_of_readsBack
    {s : Store}
    {taskId : core.TaskId}
    (hback : core.ReadsBack (core.printTaskId taskId)) :
    s.ConcludedAt core decode taskId ↔
      s.Unreported core taskId ∨ s.Finished (core.printTaskId taskId) := by
  refine or_congr_right ⟨?_, fun hfinished => ⟨_, hback, hfinished, rfl⟩⟩
  rintro ⟨text, htext, hfinished, -⟩
  rwa [Except.ok.inj (hback.symm.trans htext)]

theorem Store.Concluded.conclusive
    {s : Store}
    (h : s.Concluded)
    {taskIds : List core.TaskId}
    (hback : ∀ taskId ∈ taskIds, core.ReadsBack (core.printTaskId taskId)) :
    s.Conclusive core decode taskIds :=
  .inr fun id hid => (concludedAt_iff_of_readsBack decode (hback id hid)).mpr
    ((h (core.printTaskId id)).symm.imp_left .inr)

variable {core} in
theorem mem_rereadTaskIds
    {taskIds ids : List core.TaskId}
    (hids : rereadTaskIds core taskIds = .ok ids)
    {id : core.TaskId} :
    id ∈ ids ↔ ∃ taskId ∈ taskIds, core.parseTaskId (core.printTaskId taskId) = .ok id := by
  rw [mem_of_mapM_eq_ok hids]
  simp only [List.mem_map, exists_exists_and_eq_and]

/-- In a run without retries the checks are conclusive, for ids whose texts are
read back as they are. -/
theorem Store.Concluded.conclusiveFor
    {s : Store}
    (h : s.Concluded)
    {taskIds : List core.TaskId}
    (hback : ∀ taskId ∈ taskIds, core.ReadsBack (core.printTaskId taskId)) :
    s.ConclusiveFor core decode taskIds := by
  refine ⟨h.conclusive core decode hback, fun ids hids => h.conclusive core decode ?_⟩
  intro id hid
  obtain ⟨taskId, htaskId, hparse⟩ := (mem_rereadTaskIds hids).mp hid
  rw [(hback taskId htaskId).print hparse]
  exact hback taskId htaskId

variable (rt : Runtime)

/-- The task is finished, with the status, the attempt and the result of the
acknowledgement that finished it. -/
def FinishedWith (calls : List Call) (reported : TaskResult core Outcome) : Prop :=
  (run rt queue calls Store.empty).Finished (core.printTaskId reported.taskId) ∧
    ∃ r, FinishedBy rt queue calls (core.printTaskId reported.taskId) r ∧
      core.parseStatus r.status = .ok reported.status ∧
      reported.attempt = r.attempt ∧ decode r.resultData = .ok reported.result

/-- What `check_status` reports, and what a round of `wait_for` yields, is of
finished tasks. -/
structure ReportsFinished (calls : List Call) (taskIds : List core.TaskId) : Prop where
  checked : ∀ results : List (TaskResult core Outcome),
    ((checkStatus core decode queue taskIds).run (run rt queue calls Store.empty)).1 =
      .ok (.ok results) →
    ∀ reported ∈ results, FinishedWith core decode queue rt calls reported
  yielded : ∀ (order : HashOrder) (items : List (Except String (TaskResult core Outcome)))
    (pendingIds : Finset String),
    ((waitFor core decode queue order (taskIds.map core.printTaskId).toFinset).run
      (run rt queue calls Store.empty)).1 = .ok (some (items, pendingIds)) →
    ∀ reported, .ok reported ∈ items → FinishedWith core decode queue rt calls reported

variable {core decode} in
/-- The stored outcome is read from the three fields. -/
theorem outcomeAt_of_fields
    {s : Store}
    {text statusStr attempts data : String}
    (hstatus : (s.jobMeta text).lookup "status" = some statusStr)
    (hattempts : (s.jobMeta text).lookup "attempts" = some attempts)
    (hdata : (s.jobMeta text).lookup "result" = some data)
    {outcome : core.Status × Nat × Outcome} :
    s.outcomeAt core decode text = .ok (some outcome) ↔
      core.parseStatus statusStr = .ok outcome.1 ∧
        Rust.parseUnsigned 64 attempts = .ok outcome.2.1 ∧ decode data = .ok outcome.2.2 := by
  obtain ⟨status, attempt, result⟩ := outcome
  have hread : s.outcomeAt core decode text = (do
      let status ← core.parseStatus statusStr
      let attempt ← Rust.parseUnsigned 64 attempts
      let result ← decode data
      .ok (some (status, attempt, result))) := by
    simp only [Store.outcomeAt, hstatus, hattempts, hdata, Option.mapM_some]
    cases core.parseStatus statusStr with
    | error e => rfl
    | ok status => cases Rust.parseUnsigned 64 attempts <;> rfl
  rw [hread]
  simp only [bind_eq_ok, Except.ok.injEq, Option.some.injEq, Prod.mk.injEq]
  constructor
  · rintro ⟨status', hstatus', attempt', hattempt', result', hresult', rfl, rfl, rfl⟩
    exact ⟨hstatus', hattempt', hresult'⟩
  · rintro ⟨hstatus', hattempt', hresult'⟩
    exact ⟨status, hstatus', attempt, hattempt', result, hresult', rfl, rfl, rfl⟩

/-- The attempt of a stored outcome is a `u64`. -/
theorem attempt_lt
    {s : Store}
    {text : String}
    {outcome : core.Status × Nat × Outcome}
    (h : s.outcomeAt core decode text = .ok (some outcome)) :
    outcome.2.1 < 2 ^ 64 := by
  unfold Store.outcomeAt at h
  dsimp only at h
  split at h
  · cases h
  · obtain ⟨status, -, h⟩ := bind_eq_ok.mp h
    obtain ⟨attempt, hattempt, h⟩ := bind_eq_ok.mp h
    split at h
    · cases h
    · obtain ⟨result, -, h⟩ := bind_eq_ok.mp h
      cases h
      rcases readAttempt_cases ((s.jobMeta text).lookup "attempts") with
        ⟨text', e, -, -, herror⟩ | ⟨read, hread, hparse⟩
      · cases herror.symm.trans hattempt
      · cases hread.symm.trans hattempt
        cases hattempts : (s.jobMeta text).lookup "attempts" with
        | none =>
            rw [hattempts] at hread
            cases hread
            exact Nat.one_lt_two_pow (by decide)
        | some text' => exact Rust.lt_of_parseUnsigned (hparse text' hattempts)

/-- A result is that of a finished task exactly when the task is finished, and
stores the reported outcome. -/
theorem finishedWith_iff
    {calls : List Call}
    {reported : TaskResult core Outcome}
    {text : String}
    (hstored : (run rt queue calls Store.empty).outcomeAt core decode text =
      .ok (some reported.outcome)) :
    FinishedWith core decode queue rt calls reported ↔
      (run rt queue calls Store.empty).Finished (core.printTaskId reported.taskId) ∧
        (run rt queue calls Store.empty).outcomeAt core decode
            (core.printTaskId reported.taskId) = .ok (some reported.outcome) := by
  refine and_congr_right fun hfinished => ?_
  have hfields : ∀ r, (∀ f ∈ ackMeta r, ((run rt queue calls Store.empty).jobMeta
      (core.printTaskId reported.taskId)).lookup f.1 = some f.2) →
      ((run rt queue calls Store.empty).outcomeAt core decode
          (core.printTaskId reported.taskId) = .ok (some reported.outcome) ↔
        core.parseStatus r.status = .ok reported.status ∧
          reported.attempt = r.attempt ∧ decode r.resultData = .ok reported.result) := by
    intro r hmeta
    rw [outcomeAt_of_fields (hmeta ("status", r.status) (by simp [ackMeta]))
      (hmeta ("attempts", toString r.attempt) (by simp [ackMeta]))
      (hmeta ("result", r.resultData) (by simp [ackMeta]))]
    refine and_congr_right fun _ => and_congr_left fun _ => ?_
    have hlt : reported.attempt < 2 ^ 64 := attempt_lt core decode hstored
    rw [show toString r.attempt = r.attempt.repr from rfl, Rust.parseUnsigned_repr]
    constructor
    · intro h
      split at h
      · exact (Except.ok.inj h).symm
      · cases h
    · intro h
      rw [← h, if_pos hlt]
      rfl
  constructor
  · rintro ⟨r, hby, hsame⟩
    exact (hfields r (fields_of_finishedBy rt queue calls hby)).mpr hsame
  · intro hsame
    obtain ⟨r, hby, hmeta⟩ := finished_by rt queue calls hfinished
    exact ⟨r, hby, (hfields r hmeta).mp hsame⟩

/-- A check reports finished tasks only exactly when it is conclusive. -/
theorem checked_iff
    (calls : List Call)
    (taskIds : List core.TaskId) :
    (∀ results : List (TaskResult core Outcome),
      ((checkStatus core decode queue taskIds).run (run rt queue calls Store.empty)).1 =
        .ok (.ok results) →
      ∀ reported ∈ results, FinishedWith core decode queue rt calls reported) ↔
        (run rt queue calls Store.empty).Conclusive core decode taskIds := by
  have hwhen : ∀ id reported, (run rt queue calls Store.empty).report core decode id =
      .ok (some reported) → (FinishedWith core decode queue rt calls reported ↔
        (run rt queue calls Store.empty).ConcludedAt core decode id) := by
    intro id reported hrow
    rcases report_cases core decode (run rt queue calls Store.empty) id with
      ⟨-, e, herror⟩ | ⟨-, -, hnone⟩ | ⟨-, hreportable, reported', hsome, hparse, hstored⟩
    · cases herror.symm.trans hrow
    · cases hnone.symm.trans hrow
    · cases hsome.symm.trans hrow
      rw [finishedWith_iff core decode queue rt hstored, Store.ConcludedAt,
        or_iff_right hreportable, hstored]
      constructor
      · exact fun h => ⟨_, Core.reread_of_parse hparse, h⟩
      · rintro ⟨text, htext, h⟩
        rw [Core.reread_of_parse hparse] at htext
        cases htext
        exact h
  rcases em (∃ id ∈ taskIds, (run rt queue calls Store.empty).Unreadable core decode id) with
    hbad | hgood
  · refine iff_of_true (fun results hok => ?_) (.inl hbad)
    obtain ⟨id, hid, hunreadable⟩ := hbad
    exact absurd hunreadable
      ((exists_checked_iff core decode queue taskIds _).mp ⟨results, hok⟩ id hid)
  · obtain ⟨results, hok⟩ := (exists_checked_iff core decode queue taskIds _).mpr
      fun id hid hunreadable => hgood ⟨id, hid, hunreadable⟩
    rw [Store.Conclusive, or_iff_right hgood]
    constructor
    · intro h id hid
      rcases report_cases core decode (run rt queue calls Store.empty) id with
        ⟨hunreadable, -⟩ | ⟨-, hunreported, -⟩ | ⟨-, -, reported, hsome, -⟩
      · exact absurd ⟨id, hid, hunreadable⟩ hgood
      · exact .inl hunreported
      · exact (hwhen id reported hsome).mp (h results hok reported
          ((mem_checked core decode queue hok reported).mpr ⟨id, hid, hsome⟩))
    · intro h results' hok' reported hreported
      obtain ⟨id, hid, hrow⟩ := (mem_checked core decode queue hok' reported).mp hreported
      exact (hwhen id reported hrow).mpr (h id hid)

/-- Being conclusive depends on which tasks are listed only. -/
theorem Store.Conclusive.congr
    {s : Store}
    {taskIds ids : List core.TaskId}
    (hids : ∀ id, id ∈ ids ↔ id ∈ taskIds)
    (h : s.Conclusive core decode taskIds) :
    s.Conclusive core decode ids := by
  rcases h with ⟨bad, hbad, hunreadable⟩ | hall
  · exact .inl ⟨bad, (hids bad).mpr hbad, hunreadable⟩
  · exact .inr fun id hid => hall id ((hids id).mp hid)

variable {core decode queue} in
/-- What a round yields are the results of a check of the pending tasks. -/
theorem yielded_iff
    {order : HashOrder}
    {pending : Finset String}
    {s : Store}
    {reported : TaskResult core Outcome} :
    (∃ items pendingIds,
      ((waitFor core decode queue order pending).run s).1 = .ok (some (items, pendingIds)) ∧
        .ok reported ∈ items) ↔
      ∃ ids results, (order.iter pending).mapM core.parseTaskId = .ok ids ∧
        ((checkStatus core decode queue ids).run s).1 = .ok (.ok results) ∧
        reported ∈ results := by
  constructor
  · rintro ⟨items, pendingIds, hround, hitem⟩
    unfold waitFor at hround
    split at hround
    · cases hround
    · cases hids : (order.iter pending).mapM core.parseTaskId with
      | error e =>
          rw [hids, run_bind_error (run_fallible _ s)] at hround
          cases hround
      | ok ids =>
          rw [hids, run_bind_ok (run_fallible _ s), run_bind_ok (run_catching _ s)] at hround
          cases hchecked : ((checkStatus core decode queue ids).run s).1 with
          | error e =>
              rw [hchecked] at hround
              cases hround
              cases List.mem_singleton.mp hitem
          | ok checked =>
              rw [hchecked] at hround
              cases checked with
              | error panic => cases hround
              | ok results =>
                  dsimp only at hround
                  split at hround
                  · cases hround
                    cases hitem
                  · cases hround
                    obtain ⟨reported', hreported, heq⟩ := List.mem_map.mp hitem
                    cases heq
                    exact ⟨ids, results, rfl, hchecked, hreported⟩
  · rintro ⟨ids, results, hids, hchecked, hreported⟩
    have hsome : pending ≠ ∅ := by
      rintro rfl
      have hnone : order.iter ∅ = [] :=
        List.eq_nil_iff_forall_not_mem.mpr fun text htext =>
          Finset.notMem_empty text (order.mem_iter.mp htext)
      rw [hnone] at hids
      cases hids
      obtain ⟨id, hid, -⟩ := (mem_checked core decode queue hchecked reported).mp hreported
      cases hid
    have hnonempty : results.isEmpty = false :=
      List.isEmpty_eq_false_iff.mpr (List.ne_nil_of_mem hreported)
    unfold waitFor
    rw [if_neg hsome, hids, run_bind_ok (run_fallible _ s), run_bind_ok (run_catching _ s),
      hchecked]
    dsimp only
    rw [hnonempty]
    exact ⟨_, _, rfl, List.mem_map_of_mem hreported⟩

/-- The ids that a round asks for are the pending ones, read back. -/
theorem mem_of_parsed
    {order : HashOrder}
    {taskIds ids : List core.TaskId}
    (hids : (order.iter (taskIds.map core.printTaskId).toFinset).mapM core.parseTaskId = .ok ids)
    (id : core.TaskId) :
    id ∈ ids ↔ ∃ taskId ∈ taskIds, core.parseTaskId (core.printTaskId taskId) = .ok id := by
  rw [mem_of_mapM_eq_ok hids]
  simp only [order.mem_iter, List.mem_toFinset, List.mem_map, exists_exists_and_eq_and]

/-- A round asks for ids when every pending text parses. -/
theorem exists_parsed_iff
    (order : HashOrder)
    (taskIds : List core.TaskId) :
    (∃ ids, (order.iter (taskIds.map core.printTaskId).toFinset).mapM core.parseTaskId =
      .ok ids) ↔ ∃ ids, rereadTaskIds core taskIds = .ok ids := by
  rw [rereadTaskIds, exists_mapM_eq_ok, exists_mapM_eq_ok]
  simp only [order.mem_iter, List.mem_toFinset]

/-- A round of `wait_for` yields finished tasks only exactly when the check of the
ids that it asks for is conclusive. -/
theorem yielded_finished_iff
    (calls : List Call)
    (taskIds : List core.TaskId) :
    (∀ (order : HashOrder) (items : List (Except String (TaskResult core Outcome)))
      (pendingIds : Finset String),
      ((waitFor core decode queue order (taskIds.map core.printTaskId).toFinset).run
        (run rt queue calls Store.empty)).1 = .ok (some (items, pendingIds)) →
      ∀ reported, .ok reported ∈ items → FinishedWith core decode queue rt calls reported) ↔
        ∀ ids, rereadTaskIds core taskIds = .ok ids →
          (run rt queue calls Store.empty).Conclusive core decode ids := by
  constructor
  · intro h ids hids
    obtain ⟨asked, hasked⟩ := (exists_parsed_iff core .ascending taskIds).mpr ⟨ids, hids⟩
    have hsame : ∀ id, id ∈ ids ↔ id ∈ asked := fun id =>
      (mem_rereadTaskIds hids).trans (mem_of_parsed core hasked id).symm
    refine Store.Conclusive.congr core decode hsame ((checked_iff core decode queue rt calls
      asked).mp fun results hok reported hreported => ?_)
    obtain ⟨items, pendingIds, hround, hitem⟩ :=
      yielded_iff.mpr ⟨asked, results, hasked, hok, hreported⟩
    exact h .ascending items pendingIds hround reported hitem
  · intro h order items pendingIds hround reported hitem
    obtain ⟨asked, results, hasked, hok, hreported⟩ :=
      yielded_iff.mp ⟨items, pendingIds, hround, hitem⟩
    obtain ⟨ids, hids⟩ := (exists_parsed_iff core order taskIds).mp ⟨asked, hasked⟩
    have hsame : ∀ id, id ∈ asked ↔ id ∈ ids := fun id =>
      (mem_of_parsed core hasked id).trans (mem_rereadTaskIds hids).symm
    exact (checked_iff core decode queue rt calls asked).mpr
      (Store.Conclusive.congr core decode hsame (h ids hids)) results hok reported hreported

/-- **When finished tasks only are reported**: when every listed task that has a
status and a result is finished, or some listed task cannot be read, and so for
the ids that the texts of the listed ones are read as; so it is in every run that
pushes no results and records no outcome that is retried, for ids that are read
back as they are. -/
theorem reports_finished_iff
    (calls : List Call)
    (taskIds : List core.TaskId) :
    (ReportsFinished core decode queue rt calls taskIds ↔
        (run rt queue calls Store.empty).ConclusiveFor core decode taskIds) ∧
      (ConcludingRun rt queue calls Store.empty →
        (∀ taskId ∈ taskIds, core.ReadsBack (core.printTaskId taskId)) →
        (run rt queue calls Store.empty).ConclusiveFor core decode taskIds) := by
  refine ⟨?_, fun hrun hback =>
    (concluded_run queue calls (fun _ => .inr rfl) hrun).conclusiveFor core decode hback⟩
  rw [Store.ConclusiveFor, ← checked_iff core decode queue rt calls taskIds,
    ← yielded_finished_iff core decode queue rt calls taskIds]
  exact ⟨fun h => ⟨h.checked, h.yielded⟩, fun h => ⟨h.1, h.2⟩⟩

end Queries

/-- The stored form of one error, as a `Result<(), String>`. -/
def decodeBoom (text : String) : Except String (Except String Unit) :=
  if text = "\x7b\"Err\":\"boom\"\x7d" then .ok (.error "boom") else .error "expected value"

/-- The first attempt at a task failed, and the task waits to be tried again. -/
def retried : List Call :=
  [registerW, .submit 0 true [plainPush "t" ∅], .fetchNext 12 10 "w",
    .handleResults "w" true [⟨"t", 13, "\x7b\"Err\":\"boom\"\x7d", "Failed", 1⟩]]

/-- Its failure is reported as the result of the task. -/
theorem retry_reported :
    ¬ReportsFinished Core.text decodeBoom Config.default.queue (.ascending none) retried ["t"] := by
  intro h
  have hids : (((checkStatus Core.text decodeBoom Config.default.queue ["t"]).run
      (run (.ascending none) Config.default.queue retried Store.empty)).1.toOption.bind
        Except.toOption).map (List.map fun reported => Core.text.printTaskId reported.taskId) =
          some ["t"] := by
    decide +kernel
  have hunfinished : ¬(run (.ascending none) Config.default.queue retried Store.empty).Finished
      "t" := by
    unfold Store.Finished
    decide +kernel
  obtain ⟨results, hresults, hmap⟩ := Option.map_eq_some_iff.mp hids
  obtain ⟨checked, hchecked, hok⟩ := Option.bind_eq_some_iff.mp hresults
  rw [toOption_eq_some] at hchecked hok
  subst hok
  obtain ⟨reported, hreported, hid⟩ := List.mem_map.mp (hmap ▸ List.mem_singleton_self "t")
  refine hunfinished ?_
  exact hid ▸ (h.checked results hchecked reported hreported).1

end ApalisRedis
