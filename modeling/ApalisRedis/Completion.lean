import ApalisRedis.Clients

/-!
# The results of finished tasks, among other clients

`check_status` reads three fields of every task with a command each, and
`wait_for` checks again and again, so what they read may have been written in
between.  But nobody writes to the metadata of a finished task, short of a vacuum.

**Results.**
* `yields_checkTask`: a finished task is reported as it is stored.
* `wait_for_ends`: once all tasks are finished, the first poll that meets no
  error yields all results, and the stream is over.
-/

namespace ApalisRedis

open Lua Redis Script Rust Systems

/-- The listed tasks are finished, with the metadata that they have in `s`. -/
def World.Rests (w : World) (s : Store) (texts : Finset String) : Prop :=
  ∀ text ∈ texts, ∃ p : Place, p.Final ∧ w.store.Settled text p (s.jobMeta text)

namespace Deployment

variable {core : Core} {Outcome : Type} {d : Deployment core Outcome}
variable {s : Store} {texts : Finset String}
variable {sweeps : Nat → Option String → World → Prop}

theorem rests_of_leads
    {w w' : World}
    (h : d.Leads w w')
    (hrests : w.Rests s texts) :
    w'.Rests s texts := by
  obtain ⟨-, calls, -, hstore⟩ := h
  intro text htext
  obtain ⟨p, hp, hsettled⟩ := hrests text htext
  refine ⟨p, hp, ?_⟩
  rw [hstore]
  exact settled_run d.rt d.queue calls hp hsettled

/-- What is read of a finished task is what is stored. -/
theorem yields_field
    {text : String}
    (htext : text ∈ texts)
    (field : String)
    {w : World}
    (hrests : w.Rests s texts) :
    Async.Yields d.Answers d.Leads (Instruction.Admitted d.Issues sweeps)
      (fun data w' => w'.Rests s texts ∧ data = (s.jobMeta text).lookup field)
      (Async.hget text field) w := by
  refine Async.yields_hget (fun _ _ => trivial) fun t data u u' ht hanswer hu => ?_
  obtain ⟨hrun, -⟩ := executed_of_transmits hanswer
  have hsame : u = t := eq_of_transmits hanswer rfl
  have ht' := rests_of_leads ht hrests
  rw [hsame] at hu
  refine ⟨rests_of_leads hu ht', ?_⟩
  obtain ⟨-, -, b, -, -, hmeta⟩ := ht' text htext
  have hdata : (t.store.jobMeta text).lookup field = data :=
    Except.ok.inj (congrArg Prod.fst hrun)
  rw [← hdata, hmeta]

/-- A step on no state. -/
theorem yields_fallible
    {α : Type}
    (x : Except String α)
    {w : World}
    (hrests : w.Rests s texts) :
    Async.Yields d.Answers d.Leads (Instruction.Admitted d.Issues sweeps)
      (fun a w' => w'.Rests s texts ∧ x = .ok a) (Async.fallible x) w :=
  Async.yields_fallible fun _ ha _ ht => ⟨rests_of_leads ht hrests, ha⟩

variable {decode : String → Except String Outcome}

/-- **A finished task is reported as it is stored**, whatever is written meanwhile. -/
theorem yields_checkTask
    {taskId : core.TaskId}
    (htext : core.printTaskId taskId ∈ texts)
    {w : World}
    (hrests : w.Rests s texts) :
    Async.Yields d.Answers d.Leads (Instruction.Admitted d.Issues sweeps)
      (fun row w' => w'.Rests s texts ∧ s.row core decode taskId = .ok row)
      (Async.checkTask decode taskId) w := by
  unfold Async.checkTask
  refine (yields_field htext "status" hrests).bind d.leads_refl fun statusStr w ⟨hw, hstatus⟩ => ?_
  unfold Store.row Store.outcomeAt
  dsimp only
  rw [← hstatus]
  cases statusStr with
  | none => exact Async.yields_pure fun _ ht => ⟨rests_of_leads ht hw, rfl⟩
  | some statusStr =>
      refine (yields_fallible _ hw).bind d.leads_refl fun status w ⟨hw, hparse⟩ => ?_
      refine (yields_field htext "result" hw).bind d.leads_refl fun data w ⟨hw, hresult⟩ => ?_
      refine (yields_field htext "attempts" hw).bind d.leads_refl fun attempt w ⟨hw, hattempt⟩ => ?_
      refine (yields_fallible _ hw).bind d.leads_refl fun attempt w ⟨hw, hcount⟩ => ?_
      rw [hattempt] at hcount
      dsimp only
      rw [hparse, ok_bind, hcount, ok_bind, ← hresult]
      cases data with
      | none => exact Async.yields_pure fun _ ht => ⟨rests_of_leads ht hw, rfl⟩
      | some data =>
          refine (yields_fallible _ hw).bind d.leads_refl fun result w ⟨hw, hdecode⟩ => ?_
          dsimp only
          rw [hdecode]
          exact Async.yields_pure fun _ ht => ⟨rests_of_leads ht hw, rfl⟩

/-- A check of finished tasks, whose ids have texts that parse. -/
theorem yields_checkStatus
    {taskIds : List core.TaskId}
    (htexts : ∀ taskId ∈ taskIds, core.printTaskId taskId ∈ texts)
    (hparses : ∀ taskId ∈ taskIds, ∃ again, core.parseTaskId (core.printTaskId taskId) = .ok again)
    {w : World}
    (hrests : w.Rests s texts) :
    Async.Yields d.Answers d.Leads (Instruction.Admitted d.Issues sweeps)
      (fun checked w' => w'.Rests s texts ∧ ∃ rows, checked = .ok (rows.filterMap id) ∧
        List.Forall₂ (fun taskId row => s.report core decode taskId = .ok row) taskIds rows)
      (Async.checkStatus decode taskIds) w := by
  have hrow : ∀ taskId ∈ taskIds, ∀ w : World, w.Rests s texts →
      Async.Yields d.Answers d.Leads (Instruction.Admitted d.Issues sweeps)
        (fun row w' => w'.Rests s texts ∧ s.row core decode taskId = .ok row)
        (Async.checkTask decode taskId) w :=
    fun taskId htaskId w hw => yields_checkTask (htexts taskId htaskId) hw
  refine (Async.yields_checkTasks d.leads_refl (fun _ _ => rests_of_leads) hrow hrests).imp
    fun reply w' hreply checked hchecked => ?_
  obtain ⟨hw', hresults, hpanics⟩ := hreply checked hchecked
  refine ⟨hw', ?_⟩
  cases checked with
  | error panic =>
      obtain ⟨taskId, htaskId, hrow⟩ := hpanics panic rfl
      obtain ⟨again, hagain⟩ := hparses taskId htaskId
      cases (parse_of_row_panics hrow).symm.trans hagain
  | ok results =>
      obtain ⟨rows, rfl, hrows⟩ := hresults results rfl
      exact ⟨rows, rfl, hrows.imp fun _ _ hrow => report_eq_ok.mpr hrow⟩

variable (core decode) in
/-- The results of the pending tasks, one each, as they are stored. -/
structure Reports (s : Store) (pendingIds : Finset String)
    (results : List (TaskResult core Outcome)) : Prop where
  nodup : (results.map fun result => core.printTaskId result.taskId).Nodup
  complete : ∀ text, text ∈ pendingIds ↔
    ∃ result ∈ results, core.printTaskId result.taskId = text
  stored : ∀ result ∈ results, s.report core decode result.taskId = .ok (some result)

variable (core decode) in
/-- Every task that a poll asks for has a result that can be read. -/
def Readable (s : Store) (pendingIds : Finset String) : Prop :=
  ∀ text ∈ pendingIds, ∀ taskId, core.parseTaskId text = .ok taskId →
    ∃ result, s.report core decode taskId = .ok (some result) ∧ result.taskId = taskId

/-- The rows of readable tasks are their results. -/
theorem results_of_rows
    {taskIds : List core.TaskId}
    {rows : List (Option (TaskResult core Outcome))}
    (hrows : List.Forall₂ (fun taskId row => s.report core decode taskId = .ok row) taskIds rows)
    (hreadable : ∀ taskId ∈ taskIds,
      ∃ result, s.report core decode taskId = .ok (some result) ∧ result.taskId = taskId) :
    (rows.filterMap id).map TaskResult.taskId = taskIds ∧
      ∀ result ∈ rows.filterMap id, s.report core decode result.taskId = .ok (some result) := by
  induction hrows with
  | nil => exact ⟨rfl, by simp⟩
  | @cons taskId row taskIds rows hrow hrows ih =>
      rw [List.forall_mem_cons] at hreadable
      obtain ⟨⟨result, hresult, hid⟩, hrest⟩ := hreadable
      obtain ⟨hids, hstored⟩ := ih hrest
      obtain rfl : row = some result := Except.ok.inj (hrow.symm.trans hresult)
      have hcons : (some result :: rows).filterMap id = result :: rows.filterMap id := rfl
      rw [hcons, List.map_cons, hids, hid, List.forall_mem_cons, hid]
      exact ⟨rfl, hresult, hstored⟩

/-- Results of the ids that a poll asks for leave nothing pending. -/
theorem reports_of_asked
    {pendingIds : Finset String}
    {taskIds : List core.TaskId}
    (hback : ReadBack core pendingIds)
    (hnodup : taskIds.Nodup)
    (hasked : ∀ taskId, taskId ∈ taskIds ↔
      ∃ text ∈ pendingIds, core.parseTaskId text = .ok taskId)
    {results : List (TaskResult core Outcome)}
    (hids : results.map TaskResult.taskId = taskIds)
    (hstored : ∀ result ∈ results, s.report core decode result.taskId = .ok (some result)) :
    Reports core decode s pendingIds results ∧ remaining pendingIds results = ∅ := by
  have hcomplete : ∀ text, text ∈ pendingIds ↔
      ∃ result ∈ results, core.printTaskId result.taskId = text := by
    intro text
    constructor
    · intro htext
      obtain ⟨taskId, hparse, hprint⟩ := Core.reread_eq_ok.mp (hback text htext)
      have hmem := (hasked taskId).mpr ⟨text, htext, hparse⟩
      rw [← hids] at hmem
      obtain ⟨result, hresult, rfl⟩ := List.mem_map.mp hmem
      exact ⟨result, hresult, hprint⟩
    · rintro ⟨result, hresult, rfl⟩
      refine print_mem_of_parse hback ((hasked _).mp ?_)
      rw [← hids]
      exact List.mem_map_of_mem hresult
  refine ⟨⟨?_, hcomplete, hstored⟩, ?_⟩
  · have htexts : (results.map fun result => core.printTaskId result.taskId) =
        taskIds.map core.printTaskId := by
      rw [← hids, List.map_map]
      rfl
    rw [htexts]
    refine hnodup.map_on fun taskId htaskId taskId' htaskId' hsame => ?_
    obtain ⟨text, htext, hparse⟩ := (hasked taskId).mp htaskId
    obtain ⟨text', htext', hparse'⟩ := (hasked taskId').mp htaskId'
    rw [(hback text htext).print hparse, (hback text' htext').print hparse'] at hsame
    rw [hsame, hparse'] at hparse
    exact (Except.ok.inj hparse).symm
  · refine Finset.eq_empty_of_forall_notMem fun text hleft => ?_
    obtain ⟨htext, hnone⟩ := (mem_remaining results).mp hleft
    obtain ⟨result, hresult, heq⟩ := (hcomplete text).mp htext
    exact hnone result hresult heq

/-- **One poll** meets an error and changes nothing, or yields all results. -/
theorem returns_waitFor
    {pendingIds : Finset String}
    (hsome : pendingIds ≠ ∅)
    (hback : ReadBack core pendingIds)
    (hpending : pendingIds ⊆ texts)
    (hreadable : Readable core decode s pendingIds)
    (order : HashOrder)
    {w : World}
    (hrests : w.Rests s texts) :
    Async.Returns d.Answers d.Leads (Instruction.Admitted d.Issues fun _ _ _ => True)
      (fun polled w' => w'.Rests s texts ∧
        ((∃ e, polled = some ([.error e], pendingIds)) ∨
          ∃ results, polled = some (results.map .ok, ∅) ∧
            Reports core decode s pendingIds results))
      (Async.waitFor decode order pendingIds) w := by
  obtain ⟨taskIds, hparsed, hnodup, hasked⟩ := exists_idsToCheck hback order
  unfold Async.waitFor
  rw [if_neg hsome, hparsed]
  have hread : Async.Returns d.Answers d.Leads (Instruction.Admitted d.Issues fun _ _ _ => True)
      (fun ids w' => w'.Rests s texts ∧ taskIds = ids) (Async.fallible (.ok taskIds)) w :=
    Async.returns_pure fun _ ht => ⟨rests_of_leads ht hrests, rfl⟩
  refine hread.bind d.leads_refl fun ids w ⟨hw, hids⟩ => ?_
  subst hids
  have hparses : ∀ taskId ∈ taskIds, ∃ again,
      core.parseTaskId (core.printTaskId taskId) = .ok again := by
    intro taskId htaskId
    obtain ⟨text, htext, hparse⟩ := (hasked taskId).mp htaskId
    rw [(hback text htext).print hparse]
    exact ⟨taskId, hparse⟩
  have hcheck : Async.Returns d.Answers d.Leads (Instruction.Admitted d.Issues fun _ _ _ => True)
      (fun checked w' => w'.Rests s texts ∧ ∀ outcome, checked = .ok outcome →
        ∃ results, outcome = .ok results ∧
          Reports core decode s pendingIds results ∧ remaining pendingIds results = ∅)
      (Async.catching (Async.checkStatus decode taskIds)) w := by
    have hyields : Async.Yields d.Answers d.Leads (Instruction.Admitted d.Issues fun _ _ _ => True)
        _ (Async.checkStatus decode taskIds) w :=
      yields_checkStatus (fun taskId hmem => hpending
        (print_mem_of_parse hback ((hasked taskId).mp hmem))) hparses hw
    have hwithin := Program.Meets.within d.leads_trans (d.leads_of_answers _) (d.leads_refl w)
      hyields
    refine Async.returns_catching d.leads_refl
      (fun _ _ _ ht hw' => ⟨rests_of_leads ht hw'.1, hw'.2⟩)
      (hwithin.imp fun checked w' ⟨hok, hleads⟩ => ⟨rests_of_leads hleads hw, ?_⟩)
    intro outcome houtcome
    obtain ⟨-, rows, rfl, hrows⟩ := hok outcome houtcome
    obtain ⟨hids, hstored⟩ := results_of_rows hrows fun taskId hmem => by
      obtain ⟨text, htext, hparse⟩ := (hasked taskId).mp hmem
      exact hreadable text htext taskId hparse
    exact ⟨_, rfl, reports_of_asked hback hnodup hasked hids hstored⟩
  refine hcheck.bind d.leads_refl fun checked w ⟨hw, houtcome⟩ => ?_
  cases checked with
  | error e =>
      exact Async.returns_pure fun _ ht => ⟨rests_of_leads ht hw, .inl ⟨e, rfl⟩⟩
  | ok outcome =>
      obtain ⟨results, rfl, hreports, hleft⟩ := houtcome outcome rfl
      have hnonempty : results.isEmpty = false := by
        obtain ⟨text, htext⟩ := Finset.nonempty_of_ne_empty hsome
        obtain ⟨result, hresult, -⟩ := (hreports.complete text).mp htext
        rw [List.isEmpty_eq_false_iff]
        exact List.ne_nil_of_mem hresult
      dsimp only
      rw [hnonempty, hleft]
      exact Async.returns_pure fun _ ht =>
        ⟨rests_of_leads ht hw, .inr ⟨results, rfl, hreports⟩⟩

variable (core decode) in
/-- The items of the stream: errors of polls, and then all results unless the
polls are used up. -/
def Ends (s : Store) (pendingIds : Finset String) (polls : Nat)
    (items : List (Except String (TaskResult core Outcome))) : Prop :=
  ∃ (errors : List String) (results : List (TaskResult core Outcome)),
    items = errors.map .error ++ results.map .ok ∧
      ((errors.length = polls ∧ results = []) ∨
        (errors.length < polls ∧ Reports core decode s pendingIds results))

theorem returns_stream_empty
    (orders : List HashOrder)
    (w : World) :
    Async.Returns d.Answers d.Leads (Instruction.Admitted d.Issues fun _ _ _ => True)
      (fun items _ => items = []) (Async.stream decode orders ∅ :
        Async (List (Except String (TaskResult core Outcome)))) w := by
  cases orders with
  | nil => exact Async.returns_pure fun _ _ => rfl
  | cons order orders => exact Async.returns_pure fun _ _ => rfl

/-- **The stream over finished tasks.** -/
theorem returns_stream
    {pendingIds : Finset String}
    (hsome : pendingIds ≠ ∅)
    (hback : ReadBack core pendingIds)
    (hpending : pendingIds ⊆ texts)
    (hreadable : Readable core decode s pendingIds)
    (orders : List HashOrder) :
    ∀ {w : World}, w.Rests s texts →
      Async.Returns d.Answers d.Leads (Instruction.Admitted d.Issues fun _ _ _ => True)
        (fun items _ => Ends core decode s pendingIds orders.length items)
        (Async.stream decode orders pendingIds) w := by
  induction orders with
  | nil => exact fun _ => Async.returns_pure fun _ _ => ⟨[], [], rfl, .inl ⟨rfl, rfl⟩⟩
  | cons order orders ih =>
      intro w hrests
      refine (returns_waitFor hsome hback hpending hreadable order hrests).bind d.leads_refl
        fun polled w ⟨hw, hpolled⟩ => ?_
      rcases hpolled with ⟨e, rfl⟩ | ⟨results, rfl, hreports⟩
      · refine (ih hw).bind d.leads_refl fun later w hlater => Async.returns_pure fun _ _ => ?_
        obtain ⟨errors, results, rfl, hends⟩ := hlater
        refine ⟨e :: errors, results, rfl, ?_⟩
        rw [List.length_cons, List.length_cons]
        exact hends.imp (fun h => ⟨by rw [h.1], h.2⟩) fun h => ⟨by omega, h.2⟩
      · refine (returns_stream_empty orders w).bind d.leads_refl fun later w hlater =>
          Async.returns_pure fun _ _ => ?_
        rw [hlater]
        exact ⟨[], results, List.append_nil _, .inr ⟨by simp, hreports⟩⟩

end Deployment

/-- What is reported depends on the text of the id only. -/
theorem report_congr
    {core : Core}
    {Outcome : Type}
    {decode : String → Except String Outcome}
    {s : Store}
    {taskId taskId' : core.TaskId}
    (hsame : core.printTaskId taskId = core.printTaskId taskId') :
    s.report core decode taskId = s.report core decode taskId' := by
  rw [Store.report, Store.report, Store.row, Store.row, hsame]

/-- A finished task that can be read has the result of the acknowledgement that
finished it. -/
theorem exists_result
    {core : Core}
    {Outcome : Type}
    (decode : String → Except String Outcome)
    (rt : Runtime)
    (queue : String)
    (calls : List Call)
    {taskId : core.TaskId}
    (hcodec : core.parseTaskId (core.printTaskId taskId) = .ok taskId)
    (hfinished : (run rt queue calls Store.empty).Finished (core.printTaskId taskId))
    (hreadable : ¬(run rt queue calls Store.empty).Unreadable core decode taskId) :
    ∃ result, (run rt queue calls Store.empty).report core decode taskId = .ok (some result) ∧
      result.taskId = taskId ∧ FinishedWith core decode queue rt calls result := by
  rcases report_cases core decode (run rt queue calls Store.empty) taskId with
    ⟨hbad, -⟩ | ⟨-, hnone, -⟩ | ⟨-, -, result, hreport, hparse, hstored⟩
  · exact absurd hbad hreadable
  · obtain ⟨r, -, hmeta⟩ := finished_by rt queue calls hfinished
    have hstatus := hmeta ("status", r.status) (by simp [ackMeta])
    have hresult := hmeta ("result", r.resultData) (by simp [ackMeta])
    rcases hnone with hnone | hnone
    · cases hstatus.symm.trans hnone
    · cases hresult.symm.trans hnone
  · obtain rfl := Except.ok.inj (hcodec.symm.trans hparse)
    exact ⟨result, hreport, rfl,
      (finishedWith_iff core decode queue rt hstored).mpr ⟨hfinished, hstored⟩⟩

/-- The worker has completed its task. -/
def doneWorld : World :=
  twoWorkers.after .default (.handleEvents "w" [.complete ⟨"a", 1, .done, "ok"⟩]) fetchedWorld

theorem reaches_doneWorld :
    twoWorkers.Reaches ⟨⟨Store.empty, 100⟩, []⟩ ⟨doneWorld, []⟩ :=
  (reaches_pushedWorld.trans reaches_fetchedWorld).trans
    (Deployment.reaches_after twoWorkers rfl ⟨rfl, by trivial, by simp⟩ _)

/-- Two polls of the stream of its result. -/
def streamOutcome : Except String (List (Except String (TaskResult Core.text String))) × World :=
  (Async.stream twoWorkers.decode [.ascending, .ascending] (requestedIds Core.text ["a"])).run.alone
    twoWorkers.answer doneWorld

theorem finished_doneWorld :
    doneWorld.store.Finished "a" := by
  unfold Store.Finished
  decide +kernel

theorem readable_doneWorld :
    ¬doneWorld.store.Unreadable Core.text twoWorkers.decode "a" := by
  have hreport : (doneWorld.store.report Core.text twoWorkers.decode "a").isOk = true := by
    decide +kernel
  rcases report_cases Core.text twoWorkers.decode doneWorld.store "a" with
    ⟨-, e, he⟩ | ⟨hreadable, -⟩ | ⟨hreadable, -⟩
  · rw [he] at hreport
    cases hreport
  · exact hreadable
  · exact hreadable

end ApalisRedis
