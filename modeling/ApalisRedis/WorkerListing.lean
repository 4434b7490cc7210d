import ApalisRedis.Decode
import ApalisRedis.Lua.ListWorkers

/-!
# The workers that registered and the workers that are listed

`register_worker.lua` stores the backend and the service of a worker at
`{queue}:workers:metadata:{worker}`.  `list_workers.lua` is given the prefix
`{queue}:workers:`, and `list_all_workers.lua` looks for a field of the worker's
name in a hash `{queue}:workers:workers:metadata:`.

**Results.**
* `view_registerWorkerAt`: over all of Redis, registering does to the queue what
  it does to its store.
* `listings_disagree`: after no calls do both listings show what was registered.
-/

namespace ApalisRedis

open Lua Redis Script

/-- A call of one queue, with the time that it reads. -/
inductive WorkerCall where
  | registerWorker (queue worker service : String) (now threshold : Nat)
  | keepAlive (queue worker : String) (now : Nat)

/-- `queries::register_worker` and `queries::keep_alive`. -/
def WorkerCall.exec : WorkerCall → Script Keyspace Unit
  | registerWorker queue worker service now threshold =>
      registerWorkerAt (Keys.workersSet queue).name (Keys.workerMetadataKey queue worker).name
        now worker threshold "RedisStorage" service
  | keepAlive queue worker now => keepAliveAt (Keys.workersSet queue).name now worker

/-- The state after some calls, whether or not they succeed. -/
def afterCalls (calls : List WorkerCall) : Keyspace :=
  calls.foldl (fun k call => (call.exec.run k).2) Keyspace.empty

theorem afterCalls_append
    (calls : List WorkerCall)
    (call : WorkerCall) :
    afterCalls (calls ++ [call]) = (call.exec.run (afterCalls calls)).2 := by
  rw [afterCalls, List.foldl_append]
  rfl

section View

variable (k : Keyspace) (queue : String)

theorem write_name
    (c d : Cell)
    (v : Value) :
    (k.write (c.name queue) v).keys (d.name queue) =
      if d = c then v else k.keys (d.name queue) := by
  by_cases h : d = c
  · rw [if_pos h, h, write_self]
  · rw [if_neg h, write_of_ne k fun hname => h (Cell.name_injective queue hname)]

theorem write_name_registry
    (c : Cell)
    (v : Value) :
    (k.write (c.name queue) v).keys queuesList.name = k.keys queuesList.name :=
  write_of_ne k (c.name_ne_queuesList queue).symm v

theorem write_registry_name
    (c : Cell)
    (v : Value) :
    (k.write queuesList.name v).keys (c.name queue) = k.keys (c.name queue) :=
  write_of_ne k (c.name_ne_queuesList queue) v

theorem view_write_workers
    (z : ZSet) :
    (k.write ((Cell.plain .workers).name queue) (.sortedSet z)).view queue =
      { k.view queue with workers := z } := by
  unfold Keyspace.view
  simp only [write_name, write_name_registry]
  rfl

theorem view_write_queues
    (z : ZSet) :
    (k.write queuesList.name (.sortedSet z)).view queue = { k.view queue with queues := z } := by
  unfold Keyspace.view
  simp only [write_registry_name, write_self]
  rfl

theorem view_write_metadata
    (worker : String)
    (h : Hash String) :
    (k.write ((Cell.indexed .workersMetadata worker).name queue) (.fields h)).view queue =
      { k.view queue with
        workerMetadata := Function.update (k.view queue).workerMetadata worker h } := by
  have hmetadata : (fun worker' => ((k.write ((Cell.indexed .workersMetadata worker).name queue)
      (.fields h)).keys ((Cell.indexed .workersMetadata worker').name queue)).asFields) =
        Function.update (fun worker' =>
          (k.keys ((Cell.indexed .workersMetadata worker').name queue)).asFields) worker h := by
    funext worker'
    rw [write_name]
    by_cases hworker : worker' = worker
    · simp [hworker, Value.asFields]
    · simp [hworker]
  unfold Keyspace.view
  simp only [hmetadata]
  simp only [write_name, write_name_registry]
  rfl

/-- The keys of a registration hold values of their types. -/
structure Typed (worker : String) : Prop where
  workers : Kind.sortedSet.unwrap (k.keys ((Cell.plain .workers).name queue)) =
    some (k.view queue).workers
  queues : Kind.sortedSet.unwrap (k.keys queuesList.name) = some (k.view queue).queues
  metadata : Kind.fields.unwrap (k.keys ((Cell.indexed .workersMetadata worker).name queue)) =
    some ((k.view queue).workerMetadata worker)

variable {k queue}

/-- The three writes go to three different keys. -/
theorem run_enrollAt
    {worker : String}
    (htyped : Typed k queue worker)
    (now : Nat)
    (backendName service : String) :
    ∃ t, (enrollAt (Keys.workersSet queue).name (Keys.workerMetadataKey queue worker).name now
        worker backendName service).run k = (.ok (), t) ∧
      t.view queue =
        ((k.view queue).beat now worker).enroll queue now worker backendName service := by
  obtain ⟨hworkers, hqueues, hmetadata⟩ := htyped
  let workers := (k.view queue).workers.insert worker now
  let k₁ := k.write ((Cell.plain .workers).name queue) (.sortedSet workers)
  have h₁ : (updateAt .sortedSet (Keys.workersSet queue).name fun z => z.insert worker now).run k =
      (.ok (), k₁) := run_updateAt_ok hworkers _
  let queues := (k.view queue).queues.insert (Keys.workersSet queue).name
    (max now (((k.view queue).queues.lookup (Keys.workersSet queue).name).getD now))
  let k₂ := k₁.write queuesList.name (.sortedSet queues)
  have hqueues₁ : Kind.sortedSet.unwrap (k₁.keys queuesList.name) =
      some (k.view queue).queues := by
    rw [write_name_registry, hqueues]
  have h₂ : (updateAt .sortedSet queuesList.name fun z => z.insert (Keys.workersSet queue).name
      (max now ((z.lookup (Keys.workersSet queue).name).getD now))).run k₁ = (.ok (), k₂) :=
    run_updateAt_ok hqueues₁ _
  let metadata := Hash.setAll ((k.view queue).workerMetadata worker)
    [("backend_name", backendName), ("service", service)]
  have hmetadata₂ : Kind.fields.unwrap
      (k₂.keys ((Cell.indexed .workersMetadata worker).name queue)) =
        some ((k.view queue).workerMetadata worker) := by
    rw [write_registry_name, write_name, if_neg (by simp), hmetadata]
  have h₃ : (updateAt .fields (Keys.workerMetadataKey queue worker).name fun h =>
      Hash.setAll h [("backend_name", backendName), ("service", service)]).run k₂ =
        (.ok (), k₂.write ((Cell.indexed .workersMetadata worker).name queue)
          (.fields metadata)) :=
    run_updateAt_ok hmetadata₂ _
  refine ⟨k₂.write ((Cell.indexed .workersMetadata worker).name queue) (.fields metadata), ?_, ?_⟩
  · rw [enrollAt, run_bind_ok h₁, run_bind_ok h₂, h₃]
  · rw [view_write_metadata, view_write_queues, view_write_workers]
    rfl

/-- **Registering over all of Redis does to the queue what it does to its store.** -/
theorem view_registerWorkerAt
    {worker : String}
    (htyped : Typed k queue worker)
    (now threshold : Nat)
    (backendName service : String) :
    Prod.map id (fun t => t.view queue) ((registerWorkerAt (Keys.workersSet queue).name
        (Keys.workerMetadataKey queue worker).name now worker threshold backendName
        service).run k) =
      (registerWorkerScript queue now worker threshold backendName service).run
        (k.view queue) := by
  obtain ⟨t, henroll, hview⟩ := run_enrollAt htyped now backendName service
  have hstore : (registerWorkerScript queue now worker threshold backendName service).run
      (k.view queue) = if (k.view queue).StillActive now threshold worker then
        (.error "worker is still active within threshold", k.view queue)
      else
        (.ok (), ((k.view queue).beat now worker).enroll queue now worker backendName service) :=
    run_registerWorker queue now worker threshold backendName service _
  have hactive : (((k.view queue).workers.lookup worker).any fun t : Nat =>
      (now : Int) - t < threshold) = true ↔ (k.view queue).StillActive now threshold worker := by
    simp [Store.StillActive, Option.any_eq_true]
  have hraw := run_registerWorkerAt htyped.workers (Keys.workerMetadataKey queue worker).name now
    worker threshold backendName service
  change (registerWorkerAt (Keys.workersSet queue).name _ _ _ _ _ _).run k = _ at hraw
  rw [hstore, hraw]
  by_cases h : (k.view queue).StillActive now threshold worker
  · rw [if_pos (hactive.mpr h), if_pos h]
    rfl
  · rw [if_neg (mt hactive.mp h), if_neg h, ← hview]
    exact congrArg _ henroll

end View

/-- A sorted set at the key has the member. -/
def Keyspace.HasMember (k : Keyspace) (key member : String) : Prop :=
  member ∈ (k.keys key).asSortedSet

/-- The worker is in the workers set of the queue, which is in the registry. -/
def Enrolled (k : Keyspace) (queue worker : String) : Prop :=
  k.HasMember (Keys.workersSet queue).name worker ∧
    k.HasMember queuesList.name (Keys.workersSet queue).name

/-- Hashes hold metadata of enrolled workers only, in two fields. -/
def MetadataOfEnrolled (k : Keyspace) : Prop :=
  ∀ key h, k.keys key = .fields h → ∀ field ∈ h,
    (field = "backend_name" ∨ field = "service") ∧
      ∃ queue worker, key = (Keys.workerMetadataKey queue worker).name ∧ Enrolled k queue worker

theorem eq_empty_of_keys_eq_empty
    {β : Type}
    {h : Hash β}
    (hkeys : h.keys = ∅) :
    h = ∅ := by
  refine Finmap.ext_lookup fun field => ?_
  rw [Finmap.lookup_empty, Finmap.lookup_eq_none, ← Finmap.mem_keys, hkeys]
  exact Finset.notMem_empty field

theorem asSortedSet_of_absent
    {v : Value}
    (h : v.absent = true) :
    v.asSortedSet = ∅ := by
  cases v with
  | sortedSet z => exact eq_empty_of_keys_eq_empty (of_decide_eq_true h)
  | _ => rfl

/-- A value that reads as a sorted set is the sorted set. -/
theorem asSortedSet_of_unwrap
    {v : Value}
    {z : ZSet}
    (h : Kind.sortedSet.unwrap v = some z) :
    v.asSortedSet = z := by
  cases v with
  | sortedSet z' => exact Option.some.inj h
  | _ =>
      change (if _ then _ else _) = _ at h
      split at h
      · cases h
        rfl
      · cases h

/-- A value that reads as a hash has no members. -/
theorem asSortedSet_of_unwrap_fields
    {v : Value}
    {h : Hash String}
    (hunwrap : Kind.fields.unwrap v = some h) :
    v.asSortedSet = ∅ := by
  cases v with
  | sortedSet z =>
      change (if _ then _ else _) = _ at hunwrap
      split at hunwrap
      · next habsent => exact asSortedSet_of_absent habsent
      · cases hunwrap
  | _ => rfl

/-- A value that reads as a hash with fields is the hash. -/
theorem eq_fields_of_unwrap
    {v : Value}
    {h : Hash String}
    {field : String}
    (hunwrap : Kind.fields.unwrap v = some h)
    (hfield : field ∈ h) :
    v = .fields h := by
  cases v with
  | fields h' => rw [Option.some.inj hunwrap]
  | _ =>
      change (if _ then _ else _) = _ at hunwrap
      split at hunwrap
      · cases hunwrap
        exact absurd hfield Finmap.notMem_empty
      · cases hunwrap

/-- What was inserted is a member. -/
theorem hasMember_write
    (k : Keyspace)
    (key member : String)
    (z : ZSet)
    (score : Nat) :
    (k.write key (.sortedSet (z.insert member score))).HasMember key member := by
  unfold Keyspace.HasMember
  rw [write_self]
  exact Finmap.mem_insert.mpr (.inl rfl)

section Writes

variable {k : Keyspace} {key member : String}

/-- Sorted sets only grow. -/
theorem Keyspace.HasMember.write_sortedSet
    {key' : String}
    (h : k.HasMember key member)
    {z : ZSet}
    (hunwrap : Kind.sortedSet.unwrap (k.keys key') = some z)
    (added : String)
    (score : Nat) :
    (k.write key' (.sortedSet (z.insert added score))).HasMember key member := by
  unfold Keyspace.HasMember at h ⊢
  rcases eq_or_ne key key' with rfl | hne
  · rw [write_self]
    rw [asSortedSet_of_unwrap hunwrap] at h
    exact Finmap.mem_insert.mpr (.inr h)
  · rwa [write_of_ne k hne]

/-- A hash is not written over a sorted set. -/
theorem Keyspace.HasMember.write_fields
    {key' : String}
    (h : k.HasMember key member)
    {fields : Hash String}
    (hunwrap : Kind.fields.unwrap (k.keys key') = some fields)
    (fields' : Hash String) :
    (k.write key' (.fields fields')).HasMember key member := by
  have hne : key ≠ key' := by
    rintro rfl
    unfold Keyspace.HasMember at h
    rw [asSortedSet_of_unwrap_fields hunwrap] at h
    exact Finmap.notMem_empty h
  unfold Keyspace.HasMember at h ⊢
  rwa [write_of_ne k hne]

theorem MetadataOfEnrolled.write_sortedSet
    (h : MetadataOfEnrolled k)
    {z : ZSet}
    (hunwrap : Kind.sortedSet.unwrap (k.keys key) = some z)
    (added : String)
    (score : Nat) :
    MetadataOfEnrolled (k.write key (.sortedSet (z.insert added score))) := by
  intro key' fields hfields field hfield
  have hne : key' ≠ key := by
    rintro rfl
    rw [write_self] at hfields
    cases hfields
  rw [write_of_ne k hne] at hfields
  obtain ⟨hname, queue, worker, hkey, hworkers, hregistry⟩ := h key' fields hfields field hfield
  exact ⟨hname, queue, worker, hkey, hworkers.write_sortedSet hunwrap added score,
    hregistry.write_sortedSet hunwrap added score⟩

theorem MetadataOfEnrolled.write_fields
    (h : MetadataOfEnrolled k)
    {queue worker : String}
    (henrolled : Enrolled k queue worker)
    {fields : Hash String}
    (hunwrap : Kind.fields.unwrap (k.keys (Keys.workerMetadataKey queue worker).name) =
      some fields)
    (backendName service : String) :
    MetadataOfEnrolled (k.write (Keys.workerMetadataKey queue worker).name
      (.fields (Hash.setAll fields [("backend_name", backendName), ("service", service)]))) := by
  have hkept : ∀ {queue' worker'}, Enrolled k queue' worker' → Enrolled (k.write
      (Keys.workerMetadataKey queue worker).name (.fields (Hash.setAll fields
        [("backend_name", backendName), ("service", service)]))) queue' worker' :=
    fun h => ⟨h.1.write_fields hunwrap _, h.2.write_fields hunwrap _⟩
  intro key' fields' hfields field hfield
  rcases eq_or_ne key' (Keys.workerMetadataKey queue worker).name with rfl | hne
  · rw [write_self] at hfields
    cases hfields
    refine ⟨?_, queue, worker, rfl, hkept henrolled⟩
    rcases (Hash.mem_setAll _ _).mp hfield with hnew | hold
    · simpa using hnew
    · exact (h _ fields (eq_fields_of_unwrap hunwrap hold) field hold).1
  · rw [write_of_ne k hne] at hfields
    obtain ⟨hname, queue', worker', hkey, henrolled'⟩ := h key' fields' hfields field hfield
    exact ⟨hname, queue', worker', hkey, hkept henrolled'⟩

end Writes

section Calls

variable {k : Keyspace}

/-- A worker is entered in the sets before its metadata are written. -/
theorem metadataOfEnrolled_enrollAt
    (h : MetadataOfEnrolled k)
    (queue worker : String)
    (now : Nat)
    (backendName service : String) :
    MetadataOfEnrolled ((enrollAt (Keys.workersSet queue).name
      (Keys.workerMetadataKey queue worker).name now worker backendName service).run k).2 := by
  refine run_bind_keeps (run_updateAt_keeps h fun z hz => h.write_sortedSet hz worker now)
    fun _ k₁ hrun₁ => ?_
  obtain ⟨z, hz, rfl⟩ := run_updateAt_eq_ok.mp hrun₁
  have h₁ := h.write_sortedSet hz worker now
  have hworker₁ := hasMember_write k (Keys.workersSet queue).name worker z now
  refine run_bind_keeps (run_updateAt_keeps h₁ fun z' hz' => h₁.write_sortedSet hz' _ _)
    fun _ k₂ hrun₂ => ?_
  obtain ⟨z', hz', rfl⟩ := run_updateAt_eq_ok.mp hrun₂
  refine run_updateAt_keeps (h₁.write_sortedSet hz' _ _) fun fields hfields => ?_
  exact (h₁.write_sortedSet hz' _ _).write_fields
    ⟨hworker₁.write_sortedSet hz' _ _, hasMember_write _ _ _ z' _⟩ hfields backendName service

theorem metadataOfEnrolled_exec
    (h : MetadataOfEnrolled k)
    (call : WorkerCall) :
    MetadataOfEnrolled (call.exec.run k).2 := by
  cases call with
  | registerWorker queue worker service now threshold =>
      cases hz : Kind.sortedSet.unwrap (k.keys (Keys.workersSet queue).name) with
      | none =>
          rw [WorkerCall.exec, registerWorkerAt, run_bind_error (run_readAt_error hz _)]
          exact h
      | some z =>
          rw [WorkerCall.exec, run_registerWorkerAt hz]
          split
          · exact h
          · exact metadataOfEnrolled_enrollAt h queue worker now "RedisStorage" service
  | keepAlive queue worker now =>
      cases hz : Kind.sortedSet.unwrap (k.keys (Keys.workersSet queue).name) with
      | none =>
          rw [WorkerCall.exec, keepAliveAt, run_bind_error (run_readAt_error hz _)]
          exact h
      | some z =>
          rw [WorkerCall.exec, keepAliveAt, run_bind_ok (run_readAt_ok hz _)]
          cases z.lookup worker with
          | none => exact h
          | some seen => exact run_updateAt_keeps h fun z hz => h.write_sortedSet hz worker now

/-- After any calls, hashes hold metadata of enrolled workers only. -/
theorem metadataOfEnrolled_afterCalls
    (calls : List WorkerCall) :
    MetadataOfEnrolled (afterCalls calls) := by
  induction calls using List.reverseRecOn with
  | nil =>
      intro key h hkey
      cases hkey
  | append_singleton calls call ih =>
      rw [afterCalls_append]
      exact metadataOfEnrolled_exec ih call

end Calls

/-- `RunningWorker` of `apalis_core`. -/
structure RunningWorker where
  id : String
  queue : String
  lastHeartbeat : Nat
  startedAt : Nat
  backend : String
  layers : String

/-- One element of the array: `backend` and `layers` must be texts. -/
def decodeRunningWorker (row : WorkerRow) : Except String RunningWorker :=
  match row.backend, row.layers with
  | .text backend, .text layers =>
      .ok ⟨row.id, row.queue, row.lastHeartbeat, row.startedAt, backend, layers⟩
  | _, _ => .error "invalid type, expected a string"

/-- `serde_json::from_str` for a list of workers. -/
def decodeRunningWorkers : EncodedRows → Except String (List RunningWorker)
  | .emptyObject => .error "invalid type: map, expected a sequence"
  | .array rows => rows.mapM decodeRunningWorker

/-- `list_workers` -/
def RedisStorage.listWorkers (queue : String) : Script Keyspace (List RunningWorker) := do
  let json ← Lua.listWorkers (Keys.workersSet queue).name (queue ++ ":workers:")
  fallible (decodeRunningWorkers json)

/-- `list_all_workers` -/
def RedisStorage.listAllWorkers (decode : String → DecodedMeta) :
    Script Keyspace (List RunningWorker) := do
  let json ← Lua.listAllWorkers decode
  fallible (decodeRunningWorkers json)

/-- The service that a call stores for the worker, when it succeeds. -/
def WorkerCall.stores (k : Keyspace) (queue worker : String) : WorkerCall → Option String
  | call@(registerWorker queue' worker' service _ _) =>
      if queue' = queue ∧ worker' = worker ∧ (call.exec.run k).1.isOk then some service else none
  | keepAlive .. => none

/-- The service that the latest registration among the calls stored. -/
def latestService (queue worker : String) (k : Keyspace) (latest : Option String) :
    List WorkerCall → Option String
  | [] => latest
  | call :: calls =>
      latestService queue worker (call.exec.run k).2
        ((call.stores k queue worker).or latest) calls

/-- The entry is the one of the member: its last heartbeat, and what its latest
registration stored. -/
structure Shows (calls : List WorkerCall) (queue worker : String) (e : RunningWorker) : Prop where
  id : e.id = worker
  heartbeat : ((afterCalls calls).view queue).workers.lookup worker = some e.lastHeartbeat
  backend : e.backend = "RedisStorage"
  layers : latestService queue worker Keyspace.empty none calls = some e.layers

/-- One entry for each member of the workers sets of the queues. -/
def ListsMembers (calls : List WorkerCall) (queues : Set String) (es : List RunningWorker) :
    Prop :=
  ∃ members : List (String × String),
    members.Nodup ∧
      (∀ queue worker, (queue, worker) ∈ members ↔
        queue ∈ queues ∧ worker ∈ ((afterCalls calls).view queue).workers) ∧
      List.Forall₂ (fun member e => Shows calls member.1 member.2 e) members es

/-- The queues that some registration announced. -/
def registered (calls : List WorkerCall) : Set String :=
  {queue | (afterCalls calls).HasMember queuesList.name (Keys.workersSet queue).name}

/-- Both listings succeed and show what was registered. -/
structure ListingsAgree (decode : String → DecodedMeta) (calls : List WorkerCall)
    (queue : String) : Prop where
  own : ∃ es, ((RedisStorage.listWorkers queue).run (afterCalls calls)).1 = .ok es ∧
    ListsMembers calls {queue} es
  all : ∃ es, ((RedisStorage.listAllWorkers decode).run (afterCalls calls)).1 = .ok es ∧
    ListsMembers calls (registered calls) es

section Listing

/-- An empty Lua table is no array. -/
theorem decodeRunningWorkers_encodeRows
    {rows : List WorkerRow}
    {es : List RunningWorker} :
    decodeRunningWorkers (encodeRows rows) = .ok es ↔
      rows ≠ [] ∧ rows.mapM decodeRunningWorker = .ok es := by
  cases rows with
  | nil => simp [encodeRows, decodeRunningWorkers]
  | cons row rows => simp [encodeRows, decodeRunningWorkers]

theorem decode_row_backend
    {row : WorkerRow}
    {e : RunningWorker}
    (h : decodeRunningWorker row = .ok e) :
    row.id = e.id ∧ row.backend = .text e.backend := by
  unfold decodeRunningWorker at h
  split at h
  · next hbackend _ =>
      cases h
      exact ⟨rfl, hbackend⟩
  · cases h

/-- A backend is shown for a worker whose name is a field of the hash that is looked at. -/
def FoundIn (k : Keyspace) (row : WorkerRow) : Prop :=
  row.backend = .text "" ∨
    ∃ queueKey h, k.keys (queueKey ++ ":workers:metadata:") = .fields h ∧ row.id ∈ h

variable (decode : String → DecodedMeta) {k : Keyspace}

theorem anyWorkerRow_found
    (queueKey : String)
    (entry : Nat ×ₗ String)
    (row : WorkerRow)
    (t : Keyspace)
    (h : (anyWorkerRow decode queueKey (queueKey ++ ":workers:metadata:") entry).run k =
      (.ok row, t)) :
    t = k ∧ FoundIn k row := by
  obtain ⟨metaJson, u, hread, h⟩ := run_bind_eq_ok.mp h
  obtain ⟨⟨backend, service⟩, u', hfound, h⟩ := run_bind_eq_ok.mp h
  cases h
  obtain ⟨fields, hfields, rfl, rfl⟩ := run_readAt_eq_ok.mp hread
  rw [run_fallible, Prod.mk.injEq] at hfound
  obtain ⟨hfound, rfl⟩ := hfound
  refine ⟨rfl, ?_⟩
  by_cases hmem : (ofLex entry).2 ∈ fields
  · exact .inr ⟨queueKey, fields, eq_fields_of_unwrap hfields hmem, hmem⟩
  · have hnone : fields.lookup (ofLex entry).2 = none := Finmap.lookup_eq_none.mpr hmem
    change backendAndService decode (fields.lookup (ofLex entry).2) = _ at hfound
    rw [hnone] at hfound
    cases hfound
    exact .inl rfl

theorem listAllWorkers_found
    {rows : EncodedRows}
    {t : Keyspace}
    (h : (Lua.listAllWorkers decode).run k = (.ok rows, t)) :
    ∃ found : List WorkerRow, rows = encodeRows found ∧ ∀ row ∈ found, FoundIn k row := by
  obtain ⟨queues, u, hread, h⟩ := run_bind_eq_ok.mp h
  obtain ⟨result, u', hrows, h⟩ := run_bind_eq_ok.mp h
  cases h
  obtain ⟨z, -, -, rfl⟩ := run_readAt_eq_ok.mp hread
  have hqueue : ∀ queueKey block v, (queueRows decode queueKey).run u = (.ok block, v) →
      v = u ∧ ∀ row ∈ block, FoundIn u row := by
    intro queueKey block v hblock
    obtain ⟨workers, v', hworkers, hloop⟩ := run_bind_eq_ok.mp hblock
    obtain ⟨z, -, -, rfl⟩ := run_readAt_eq_ok.mp hworkers
    exact mapM_replies (anyWorkerRow_found decode queueKey) hloop
  obtain ⟨-, hall⟩ := mapM_replies hqueue hrows
  refine ⟨result.flatten, rfl, fun row hrow => ?_⟩
  obtain ⟨block, hblock, hrow⟩ := List.mem_flatten.mp hrow
  exact hall block hblock row hrow

/-- Every entry was found, and there is one. -/
theorem run_listAllWorkers_ok
    {es : List RunningWorker}
    (h : ((RedisStorage.listAllWorkers decode).run k).1 = .ok es) :
    es ≠ [] ∧ ∀ e ∈ es, e.backend = "" ∨
      ∃ queueKey fields, k.keys (queueKey ++ ":workers:metadata:") = .fields fields ∧
        e.id ∈ fields := by
  obtain ⟨json, u, hscript, hjson⟩ := run_bind_eq_ok.mp (Prod.ext h rfl)
  obtain ⟨rows, rfl, hfound⟩ := listAllWorkers_found decode hscript
  obtain ⟨hne, hrows⟩ := decodeRunningWorkers_encodeRows.mp (congrArg Prod.fst hjson)
  have hdecoded := mapM_eq_ok.mp hrows
  refine ⟨?_, fun e he => ?_⟩
  · rintro rfl
    exact hne (List.map_eq_nil_iff.mp hdecoded)
  · have hmem : Except.ok e ∈ rows.map decodeRunningWorker := hdecoded ▸ List.mem_map_of_mem he
    obtain ⟨row, hrow, hrun⟩ := List.mem_map.mp hmem
    obtain ⟨hid, hbackend⟩ := decode_row_backend hrun
    rcases hfound row hrow with hempty | hfields
    · rw [hbackend] at hempty
      exact .inl (JsonField.text.inj hempty)
    · rw [hid] at hfields
      exact .inr hfields

end Listing

section Disagreement

theorem exists_of_forall₂
    {α β : Type}
    {R : α → β → Prop}
    {xs : List α}
    {ys : List β}
    (h : List.Forall₂ R xs ys) :
    (∀ x ∈ xs, ∃ y ∈ ys, R x y) ∧ ∀ y ∈ ys, ∃ x ∈ xs, R x y := by
  induction h with
  | nil => simp
  | @cons x y xs ys hxy _ ih =>
      obtain ⟨hl, hr⟩ := ih
      constructor
      · rintro x' (_ | ⟨_, hx'⟩)
        · exact ⟨y, by simp, hxy⟩
        · obtain ⟨y', hy', hR⟩ := hl x' hx'
          exact ⟨y', List.mem_cons_of_mem _ hy', hR⟩
      · rintro y' (_ | ⟨_, hy'⟩)
        · exact ⟨x, by simp, hxy⟩
        · obtain ⟨x', hx', hR⟩ := hr y' hy'
          exact ⟨x', List.mem_cons_of_mem _ hx', hR⟩

/-- The hash that is looked at is not the metadata of a worker of such a name. -/
theorem metadataKey_ne
    (queueKey queue : String)
    {worker : String}
    (hworker : worker = "backend_name" ∨ worker = "service") :
    queueKey ++ ":workers:metadata:" ≠ (Keys.workerMetadataKey queue worker).name := by
  intro heq
  have hlast := congrArg (fun name : String => name.toList.getLast?) heq
  rcases hworker with rfl | rfl
  all_goals
    simp [Keys.workerMetadataKey, String.toList_append] at hlast

/-- **After no calls do both listings show what was registered.** -/
theorem listings_disagree
    (decode : String → DecodedMeta)
    (calls : List WorkerCall)
    (queue : String) :
    ¬ListingsAgree decode calls queue := by
  rintro ⟨-, es, hrun, members, -, hmembers, hshows⟩
  obtain ⟨hne, hfound⟩ := run_listAllWorkers_ok decode hrun
  obtain ⟨hentry, hmember⟩ := exists_of_forall₂ hshows
  -- A listed worker's name is a field of a hash, so it is one of two names, and the
  -- owner of that hash is listed as well.
  have hname : ∀ queue worker, (queue, worker) ∈ members →
      (worker = "backend_name" ∨ worker = "service") ∧
        ∃ queueKey queue' worker',
          queueKey ++ ":workers:metadata:" = (Keys.workerMetadataKey queue' worker').name ∧
            (queue', worker') ∈ members := by
    intro queue worker hmem
    obtain ⟨e, he, hid, -, hbackend, -⟩ := hentry _ hmem
    rcases hfound e he with hempty | ⟨queueKey, fields, hkey, hfield⟩
    · rw [hbackend] at hempty
      exact absurd hempty (by decide)
    · obtain ⟨hworker, queue', worker', howner, henrolled⟩ :=
        metadataOfEnrolled_afterCalls calls _ fields hkey e.id hfield
      rw [hid] at hworker
      exact ⟨hworker, queueKey, queue', worker', howner,
        (hmembers queue' worker').mpr ⟨henrolled.2, henrolled.1⟩⟩
  obtain ⟨e, es', rfl⟩ := List.exists_cons_of_ne_nil hne
  obtain ⟨⟨queue₀, worker₀⟩, hmem, -⟩ := hmember e (by simp)
  obtain ⟨-, queueKey, queue', worker', howner, hmem'⟩ := hname queue₀ worker₀ hmem
  obtain ⟨hworker', -⟩ := hname queue' worker' hmem'
  exact metadataKey_ne queueKey queue' hworker' howner

end Disagreement

/-- One worker of the default queue registered. -/
def oneWorker : List WorkerCall :=
  [.registerWorker Config.default.queue "w" "tower" 100 30]

/-- Its metadata are not where `list_workers` looks for them. -/
theorem oneWorker_not_listed :
    ¬ListingsAgree (fun _ => .invalid) oneWorker Config.default.queue := by
  rintro ⟨⟨es, hrun, -⟩, -⟩
  have herror : ((RedisStorage.listWorkers Config.default.queue).run
      (afterCalls oneWorker)).1.isOk = false := by
    decide +kernel
  rw [hrun] at herror
  cases herror

end ApalisRedis
