import ApalisRedis.Acknowledgement
import ApalisRedis.Lifecycle
import ApalisRedis.Persist

/-!
# Acquiring and renewing leases

`acquire_leases.lua` and `renew_leases.lua` validate every listed task before
they write.  Acquiring also takes each task off the active list and puts it into
the worker's inflight set, where the validation has just found it.

**Results.**
* `acquire_all_or_nothing`: acquiring writes locks on all tasks or nothing, and
  moves no task.
* `renewsAllOrNothing_iff`: when renewing is all or nothing as well.
-/

namespace ApalisRedis

open Lua Redis Script

/-- `queries::acquire_leases` -/
def Queries.acquireLeases (cfg : Config) (worker : String) (now : Nat)
    (taskIds : List String) : Script Store Nat :=
  if taskIds.isEmpty then
    pure 0
  else
    acquireLeasesScript cfg.queue worker now cfg.emitEvents taskIds

/-- The fields that a lock writes. -/
def lockFields (worker : String) (now : Nat) : List (String × String) :=
  [("locked_at", toString now), ("locked_by", worker), ("status", "Running")]

/-- The same fields are set on every listed task. -/
def Store.mark (s : Store) (fields : List (String × String)) (taskIds : List String) : Store :=
  { s with
    jobMeta := fun id =>
      if id ∈ taskIds then Hash.setAll (s.jobMeta id) fields else s.jobMeta id }

/-- What acquiring the listed tasks writes: locks, and the messages about them. -/
structure Store.Leased (s t : Store) (worker : String) (now : Nat) (taskIds : List String) :
    Prop where
  listed : ∀ id ∈ taskIds, ∀ f ∈ lockFields worker now,
    (t.jobMeta id).lookup f.1 = some f.2
  unlisted : ∀ id, id ∉ taskIds → t.jobMeta id = s.jobMeta id
  kept : { t with jobMeta := s.jobMeta, published := s.published } = s

section Leasing

variable (rt : Runtime) (queue : String)

/-- Locking held tasks, one after another. -/
def Store.lockAll (s : Store) (worker : String) (now : Nat) (emitEvents : Bool)
    (taskIds : List String) : Store :=
  taskIds.foldl (fun s id => (s.lock worker now id).say emitEvents
    ("tasks:" ++ (queue ++ ":active") ++ ":lock") id) s

/-- **What `acquire_leases.lua` does.** -/
theorem run_acquireLeases
    (worker : String)
    (now : Nat)
    (emitEvents : Bool)
    (taskIds : List String)
    (s : Store) :
    (acquireLeasesScript queue worker now emitEvents taskIds).run s =
      if worker ∉ s.workers then (.error "Cant acquire lease: worker not registered", s)
      else
        match taskIds.find? fun id => decide (id ∉ s.inflightJobs worker) with
        | none => (.ok taskIds.length, s.lockAll queue worker now emitEvents taskIds)
        | some id => (.error ("task not held by this worker: " ++ id), s) := by
  have hcheck := run_checkHeld_all queue worker "task not held by this worker: " taskIds s
  have hlock := run_foldlM_unit (run_lockTask queue worker now emitEvents) taskIds s
  by_cases hworker : worker ∈ s.workers
  · by_cases hnil : taskIds = []
    · subst hnil
      simp [acquireLeasesScript, acquireLeases, Finmap.lookup_eq_none, hworker, Store.lockAll]
    · cases hfind : taskIds.find? fun id => decide (id ∉ s.inflightJobs worker) with
      | none =>
          rw [hfind] at hcheck
          simp [acquireLeasesScript, acquireLeases, Finmap.lookup_eq_none, hworker, hnil,
            run_bind_ok hcheck, hlock, run_map, Store.lockAll]
      | some id =>
          rw [hfind] at hcheck
          simp [acquireLeasesScript, acquireLeases, Finmap.lookup_eq_none, hworker, hnil,
            run_bind_error hcheck]
  · simp [acquireLeasesScript, acquireLeases, Finmap.lookup_eq_none, hworker]

/-- Locking a held task that is in no list only writes its metadata. -/
theorem lock_eq_mark
    {worker : String}
    (now : Nat)
    {taskId : String}
    {s : Store}
    (hheld : taskId ∈ s.inflightJobs worker)
    (hactive : taskId ∉ s.activeJobs) :
    s.lock worker now taskId = s.mark (lockFields worker now) [taskId] := by
  have hsame : Function.update s.inflightJobs worker (insert taskId (s.inflightJobs worker)) =
      s.inflightJobs := by
    rw [Finset.insert_eq_self.mpr hheld, Function.update_eq_self]
  unfold Store.lock Store.mark
  rw [hsame, List.erase_of_not_mem hactive]
  congr 1
  funext id
  rcases eq_or_ne id taskId with rfl | hne
  · simp [lockFields]
  · simp [hne]

theorem mark_mark
    (s : Store)
    (fields : List (String × String))
    (ids ids' : List String) :
    (s.mark fields ids).mark fields ids' = s.mark fields (ids ++ ids') := by
  unfold Store.mark
  congr 1
  funext id
  by_cases hid : id ∈ ids <;> by_cases hid' : id ∈ ids' <;> simp [hid, hid']

theorem lockAll_eq
    {worker : String}
    (now : Nat)
    (emitEvents : Bool)
    (taskIds : List String)
    {s : Store}
    (hheld : ∀ id ∈ taskIds, id ∈ s.inflightJobs worker)
    (hactive : ∀ id ∈ taskIds, id ∉ s.activeJobs) :
    s.lockAll queue worker now emitEvents taskIds =
      (s.mark (lockFields worker now) taskIds).sayAll emitEvents
        ("tasks:" ++ (queue ++ ":active") ++ ":lock") taskIds := by
  induction taskIds generalizing s with
  | nil => simp [Store.lockAll, Store.mark, Store.sayAll]
  | cons id ids ih =>
      rw [List.forall_mem_cons] at hheld hactive
      have hfirst := lock_eq_mark now hheld.1 hactive.1
      change Store.lockAll queue ((s.lock worker now id).say _ _ id) worker now emitEvents ids = _
      rw [hfirst, ih (s := (s.mark (lockFields worker now) [id]).say _ _ _) hheld.2 hactive.2]
      have hmarked := mark_mark s (lockFields worker now) [id] ids
      rw [List.singleton_append] at hmarked
      rw [← hmarked]
      cases emitEvents <;> simp [Store.sayAll, Store.say, Store.mark]

/-- Acquiring succeeds exactly when every listed task is held by the registered
worker; then it locks these tasks, and otherwise it changes nothing. -/
structure AcquiresAllOrNothing (cfg : Config) (worker : String) (now : Nat)
    (taskIds : List String) (s : Store) (outcome : Except String Nat × Store) : Prop where
  succeeds : (∃ n, outcome.1 = .ok n) ↔
    taskIds = [] ∨ worker ∈ s.workers ∧ ∀ id ∈ taskIds, id ∈ s.inflightJobs worker
  locks : ∀ n, outcome.1 = .ok n →
    n = taskIds.length ∧ s.Leased outcome.2 worker now taskIds
  refused : ∀ e, outcome.1 = .error e → outcome.2 = s
  activeJobs : outcome.2.activeJobs = s.activeJobs
  scheduledJobs : outcome.2.scheduledJobs = s.scheduledJobs
  inflightJobs : outcome.2.inflightJobs = s.inflightJobs

theorem leased_mark
    (worker : String)
    (now : Nat)
    (emitEvents : Bool)
    (channel : String)
    (taskIds : List String)
    (s : Store) :
    s.Leased ((s.mark (lockFields worker now) taskIds).sayAll emitEvents channel taskIds)
      worker now taskIds := by
  refine ⟨fun id hid f hf => ?_, fun id hid => if_neg hid, rfl⟩
  have hnd : ((lockFields worker now).map Prod.fst).Nodup := by
    change ["locked_at", "locked_by", "status"].Nodup
    decide
  change (if id ∈ taskIds then _ else s.jobMeta id).lookup f.1 = some f.2
  rw [if_pos hid]
  exact Hash.lookup_setAll_of_mem _ hnd hf _

/-- **Acquiring leases is all or nothing, and moves no task.** -/
theorem acquire_all_or_nothing
    (cfg : Config)
    (calls : List Call)
    (worker : String)
    (now : Nat)
    (taskIds : List String) :
    let s := run rt cfg.queue calls Store.empty
    AcquiresAllOrNothing cfg worker now taskIds s
      ((Queries.acquireLeases cfg worker now taskIds).run s) := by
  intro s
  obtain ⟨b, -, hb⟩ := reflects_run rt cfg.queue calls reflects_empty
  have hrun := run_acquireLeases cfg.queue worker now cfg.emitEvents taskIds s
  by_cases hnil : taskIds = []
  · subst hnil
    exact ⟨by simp [Queries.acquireLeases],
      fun n hn => ⟨by cases hn; rfl, by simp, fun _ _ => rfl, rfl⟩, fun _ _ => rfl, rfl, rfl, rfl⟩
  · have hscript : (Queries.acquireLeases cfg worker now taskIds).run s =
        (acquireLeasesScript cfg.queue worker now cfg.emitEvents taskIds).run s := by
      simp [Queries.acquireLeases, hnil]
    rw [hscript, hrun]
    by_cases hworker : worker ∈ s.workers
    · rw [if_neg (not_not.mpr hworker)]
      cases hfind : taskIds.find? fun id => decide (id ∉ s.inflightJobs worker) with
      | none =>
          have hheld : ∀ id ∈ taskIds, id ∈ s.inflightJobs worker := by
            simpa using hfind
          -- What a worker holds is in no list, so only metadata are written.
          have hactive : ∀ id ∈ taskIds, id ∉ s.activeJobs := fun id hid hmem =>
            hb.ne_of_waiting (.inl hmem) (hheld id hid) rfl
          have hlocked := lockAll_eq cfg.queue now cfg.emitEvents taskIds hheld hactive
          dsimp only
          rw [hlocked]
          refine ⟨iff_of_true ⟨_, rfl⟩ (.inr ⟨hworker, hheld⟩), fun n hn => ?_, ?_, rfl, rfl, rfl⟩
          · cases hn
            exact ⟨rfl, leased_mark worker now _ _ taskIds s⟩
          · rintro e ⟨⟩
      | some id =>
          obtain ⟨hid, hmissing⟩ := And.intro (List.mem_of_find?_eq_some hfind)
            (List.find?_some hfind)
          have hrefused : ¬(taskIds = [] ∨
              worker ∈ s.workers ∧ ∀ id ∈ taskIds, id ∈ s.inflightJobs worker) := by
            rintro (h | ⟨-, hheld⟩)
            · exact hnil h
            · simp [hheld id hid] at hmissing
          refine ⟨iff_of_false (by simp) hrefused, ?_, fun _ _ => rfl, rfl, rfl, rfl⟩
          rintro n ⟨⟩
    · rw [if_pos hworker]
      refine ⟨iff_of_false (by simp) ?_, ?_, fun _ _ => rfl, rfl, rfl, rfl⟩
      · rintro (h | ⟨h, -⟩)
        · exact hnil h
        · exact hworker h
      · rintro n ⟨⟩

/-- The field that a renewal writes. -/
def renewFields (now : Nat) : List (String × String) :=
  [("locked_at", toString now)]

/-- Renewing held tasks renews all of them and reports their number; with a task
that is not held it fails and leaves the metadata alone. -/
structure RenewsAllOrNothing (worker : String) (now : Nat) (taskIds : List String)
    (s : Store) (outcome : Except String Nat × Store) : Prop where
  held : (∀ id ∈ taskIds, id ∈ s.inflightJobs worker) →
    outcome.1 = .ok taskIds.length ∧
      { outcome.2 with published := s.published } = s.mark (renewFields now) taskIds
  unheld : ∀ id ∈ taskIds, id ∉ s.inflightJobs worker →
    (∃ e, outcome.1 = .error e) ∧ outcome.2.jobMeta = s.jobMeta

theorem renew_eq_mark
    (now : Nat)
    (taskId : String)
    (s : Store) :
    s.renew now taskId = s.mark (renewFields now) [taskId] := by
  unfold Store.renew Store.mark
  congr 1
  funext id
  rcases eq_or_ne id taskId with rfl | hne
  · simp [renewFields]
  · simp [hne]

theorem renewAll_eq
    (now : Nat)
    (taskIds : List String)
    (s : Store) :
    taskIds.foldl (fun s id => s.renew now id) s = s.mark (renewFields now) taskIds := by
  induction taskIds generalizing s with
  | nil => simp [Store.mark]
  | cons id ids ih =>
      rw [List.foldl_cons, ih, renew_eq_mark, mark_mark, List.singleton_append]

/-- Without `KEYS[4]` and with events on, the first renewal raises after its write. -/
theorem renewLoop_eq
    (worker : String)
    (now : Nat)
    (emitEvents : Bool)
    (taskIds : List String)
    (s : Store) :
    (taskIds.foldlM (fun _ id =>
        renewTask (Keys.jobMetaHash queue) worker now emitEvents none id) ()).run s =
      if emitEvents = true ∧ taskIds ≠ [] then
        (.error "attempt to concatenate field '?' (a nil value)",
          s.mark (renewFields now) (taskIds.take 1))
      else (.ok (), s.mark (renewFields now) taskIds) := by
  cases emitEvents with
  | true =>
      cases taskIds with
      | nil => simp [Store.mark]
      | cons first rest =>
          rw [List.foldlM_cons, run_bind_error (run_renewTask queue worker now true first s),
            renew_eq_mark]
          simp
  | false =>
      rw [run_foldlM_unit (run_renewTask queue worker now false) taskIds s, renewAll_eq]
      simp

/-- **What `renew_leases.lua` does** for a registered worker. -/
theorem renewLeases_eq
    {worker : String}
    (now : Nat)
    (emitEvents : Bool)
    (taskIds : List String)
    {s : Store}
    (hworker : worker ∈ s.workers) :
    (renewLeasesScript queue worker now emitEvents taskIds).run s =
      match taskIds.find? fun id => decide (id ∉ s.inflightJobs worker) with
      | some id => (.error ("lease not held for task: " ++ id), s)
      | none =>
          if emitEvents = true ∧ taskIds ≠ [] then
            (.error "attempt to concatenate field '?' (a nil value)",
              s.mark (renewFields now) (taskIds.take 1))
          else
            (.ok taskIds.length, s.mark (renewFields now) taskIds) := by
  have hcheck := run_checkHeld_all queue worker "lease not held for task: " taskIds s
  by_cases hnil : taskIds = []
  · subst hnil
    simp [renewLeasesScript, renewLeases, Finmap.lookup_eq_none, hworker, Store.mark]
  · cases hfind : taskIds.find? fun id => decide (id ∉ s.inflightJobs worker) with
    | some id =>
        rw [hfind] at hcheck
        simp [renewLeasesScript, renewLeases, Finmap.lookup_eq_none, hworker, hnil,
          run_bind_error hcheck]
    | none =>
        have hloop := renewLoop_eq queue worker now emitEvents taskIds s
        rw [hfind] at hcheck
        cases emitEvents with
        | true =>
            rw [if_pos ⟨rfl, hnil⟩] at hloop
            simp [renewLeasesScript, renewLeases, Finmap.lookup_eq_none, hworker, hnil,
              run_bind_ok hcheck, run_map, hloop]
        | false =>
            rw [if_neg (by simp)] at hloop
            simp [renewLeasesScript, renewLeases, Finmap.lookup_eq_none, hworker, hnil,
              run_bind_ok hcheck, run_map, hloop]

/-- **When renewing leases is all or nothing**: exactly when events are off,
nothing is tracked, or some tracked task is not held. -/
theorem renewsAllOrNothing_iff
    (cfg : Config)
    {worker : String}
    (now : Nat)
    (taskIds : List String)
    {s : Store}
    (hworker : worker ∈ s.workers) :
    RenewsAllOrNothing worker now taskIds s
        ((renewTracked cfg now worker taskIds.length (some taskIds)).run s) ↔
      cfg.emitEvents = false ∨ taskIds = [] ∨ ∃ id ∈ taskIds, id ∉ s.inflightJobs worker := by
  have hrun := renewLeases_eq cfg.queue now cfg.emitEvents taskIds hworker
  rcases taskIds with _ | ⟨first, rest⟩
  · refine iff_of_true ⟨fun _ => ⟨rfl, ?_⟩, by simp⟩ (.inr (.inl rfl))
    simp [renewTracked, Store.mark]
  · have hscript : (renewTracked cfg now worker (first :: rest).length
          (some (first :: rest))).run s =
        (renewLeasesScript cfg.queue worker now cfg.emitEvents (first :: rest)).run s := rfl
    rw [hscript, hrun]
    cases hfind : (first :: rest).find? fun id => decide (id ∉ s.inflightJobs worker) with
    | some id =>
        have hid : id ∈ first :: rest := List.mem_of_find?_eq_some hfind
        have hmissing : id ∉ s.inflightJobs worker := by
          simpa using List.find?_some hfind
        refine iff_of_true ⟨fun hheld => absurd (hheld id hid) hmissing, ?_⟩
          (.inr (.inr ⟨id, hid, hmissing⟩))
        exact fun _ _ _ => ⟨⟨_, rfl⟩, rfl⟩
    | none =>
        have hheld : ∀ id ∈ first :: rest, id ∈ s.inflightJobs worker := by
          simpa using hfind
        cases hevents : cfg.emitEvents with
        | true =>
            refine iff_of_false (fun h => ?_) ?_
            · have hok := (h.held hheld).1
              cases hok
            · rintro (h | h | ⟨id, hid, hmissing⟩)
              · cases h
              · cases h
              · exact hmissing (hheld id hid)
        | false =>
            refine iff_of_true ⟨fun _ => ⟨rfl, rfl⟩, fun id hid hmissing => ?_⟩ (.inl rfl)
            exact absurd (hheld id hid) hmissing

/-- The configuration of the queue that `oneFetched` is a state of. -/
def Config.q : Config :=
  { Config.default with queue := "q" }

/-- A held task is renewed when events are off. -/
theorem renewed_without_events :
    RenewsAllOrNothing "w" 130 ["held"] oneFetched
      ((renewTracked { Config.q with emitEvents := false } 130 "w" 1
        (some ["held"])).run oneFetched) :=
  (renewsAllOrNothing_iff { Config.q with emitEvents := false } 130 ["held"]
    (by decide +kernel)).mpr (.inl rfl)

/-- With events on, renewing the one task that a worker holds fails after the write. -/
theorem renewal_fails_after_write :
    "w" ∈ oneFetched.workers ∧
      ¬RenewsAllOrNothing "w" 130 ["held"] oneFetched
        ((renewTracked Config.q 130 "w" 1 (some ["held"])).run oneFetched) := by
  refine ⟨by decide +kernel, fun h => ?_⟩
  have hok := (h.held (by decide +kernel)).1
  revert hok
  decide +kernel

end Leasing

end ApalisRedis
