import ApalisRedis.Rust.Strings
import ApalisRedis.WorkerListing
import Mathlib.Algebra.Order.BigOperators.Group.List
import Mathlib.Data.Set.List

/-!
# The queues that registered and the names that are listed

`register_worker.lua` announces a queue by the key of its workers set, which is
the queue's name with `:workers` at its end.  `list_queues` takes the names back
by removing every `:workers` from the announced keys.

**Results.**
* `WorkerCall.exec_cases`: what a call over all of Redis does.
* `announced_afterCalls`: who is announced after some calls.
* `readsBack_iff`: when the names are those of the queues that registered.
-/

namespace ApalisRedis

open Lua Redis Script

/-- The names that `list_queues` derives from the registry. -/
def RedisStorage.queueNames : Script Keyspace (List String) := do
  let names ← readAt .sortedSet queuesList.name fun z => z.sorted.map fun e => (ofLex e).2
  pure (names.map fun name => Rust.replace name ":workers" "")

/-- The name that is derived from a queue's announcement. -/
def derivedName (queue : String) : String :=
  Rust.replace (Keys.workersSet queue).name ":workers" ""

/-- The queue's own name has what is removed. -/
def NamesWorkers (queue : String) : Prop :=
  ":workers".toList <:+: queue.toList

theorem toList_derivedName
    (queue : String) :
    (derivedName queue).toList = Rust.replaceFrom ":workers".toList [] 0 queue.toList := by
  have hname : (Keys.workersSet queue).name.toList = queue.toList ++ ":workers".toList := by
    simp
  rw [derivedName, Rust.replace, String.toList_ofList, hname]
  exact Rust.removed_append_self (by decide) (Nat.zero_le _)

theorem derivedName_eq_self
    {queue : String}
    (h : ¬NamesWorkers queue) :
    derivedName queue = queue := by
  rw [← String.toList_inj, toList_derivedName, Rust.replaceFrom_of_not_infix [] h]

theorem length_derivedName_le
    (queue : String) :
    (derivedName queue).toList.length ≤ queue.toList.length := by
  rw [toList_derivedName]
  exact Rust.length_removed_le _ 0 _

theorem length_derivedName_lt
    {queue : String}
    (h : NamesWorkers queue) :
    (derivedName queue).toList.length < queue.toList.length := by
  rw [toList_derivedName]
  exact Rust.length_removed_lt (by decide) h

/-- A worker is entered and its queue is announced. -/
def Announces (k : Keyspace) (queue worker : String) (t : Keyspace) : Prop :=
  ∃ z z' score score',
    Kind.sortedSet.unwrap (k.keys (Keys.workersSet queue).name) = some z ∧
      Kind.sortedSet.unwrap (k.keys queuesList.name) = some z' ∧
      t = (k.write (Keys.workersSet queue).name (.sortedSet (z.insert worker score))).write
        queuesList.name (.sortedSet (z'.insert (Keys.workersSet queue).name score'))

theorem run_enrollAt_cases
    {k : Keyspace}
    {queue : String}
    {z z' : ZSet}
    (hz : Kind.sortedSet.unwrap (k.keys (Keys.workersSet queue).name) = some z)
    (hz' : Kind.sortedSet.unwrap (k.keys queuesList.name) = some z')
    (now : Nat)
    (worker backendName service : String) :
    let metadataKey := (Keys.workerMetadataKey queue worker).name
    let outcome := (enrollAt (Keys.workersSet queue).name metadataKey now worker backendName
      service).run k
    ∃ t, Announces k queue worker t ∧
      ((Kind.fields.unwrap (t.keys metadataKey) = none ∧ outcome = (.error wrongType, t)) ∨
        ∃ h h', Kind.fields.unwrap (t.keys metadataKey) = some h ∧
          outcome = (.ok (), t.write metadataKey (.fields h'))) := by
  intro metadataKey outcome
  let k₁ := k.write (Keys.workersSet queue).name (.sortedSet (z.insert worker now))
  have h₁ : (updateAt .sortedSet (Keys.workersSet queue).name fun z => z.insert worker now).run k =
      (.ok (), k₁) := run_updateAt_ok hz _
  have hregistry : Kind.sortedSet.unwrap (k₁.keys queuesList.name) = some z' :=
    (congrArg _ (write_of_ne k ((Cell.plain .workers).name_ne_queuesList queue).symm _)).trans hz'
  let score := max now ((z'.lookup (Keys.workersSet queue).name).getD now)
  let t := k₁.write queuesList.name (.sortedSet (z'.insert (Keys.workersSet queue).name score))
  have h₂ : (updateAt .sortedSet queuesList.name fun z => z.insert (Keys.workersSet queue).name
      (max now ((z.lookup (Keys.workersSet queue).name).getD now))).run k₁ = (.ok (), t) :=
    run_updateAt_ok hregistry _
  have houtcome : outcome = (updateAt .fields metadataKey fun h =>
      Hash.setAll h [("backend_name", backendName), ("service", service)]).run t := by
    change (enrollAt _ _ _ _ _ _).run k = _
    rw [enrollAt, run_bind_ok h₁, run_bind_ok h₂]
  refine ⟨t, ⟨z, z', now, score, hz, hz', rfl⟩, ?_⟩
  cases h : Kind.fields.unwrap (t.keys metadataKey) with
  | none => exact .inl ⟨rfl, houtcome.trans (run_updateAt_error h _)⟩
  | some fields => exact .inr ⟨fields, _, rfl, houtcome.trans (run_updateAt_ok h _)⟩

/-- **What a call over all of Redis does**: it fails and writes nothing, it beats
for a worker that is entered, or it announces a queue; then it may still fail. -/
theorem WorkerCall.exec_cases
    {k : Keyspace}
    (hregistry : ∃ z, Kind.sortedSet.unwrap (k.keys queuesList.name) = some z)
    (call : WorkerCall) :
    (∃ e, call.exec.run k = (.error e, k)) ∨
    (∃ queue worker now z, call = .keepAlive queue worker now ∧
      Kind.sortedSet.unwrap (k.keys (Keys.workersSet queue).name) = some z ∧ worker ∈ z ∧
      call.exec.run k =
        (.ok (), k.write (Keys.workersSet queue).name (.sortedSet (z.insert worker now)))) ∨
    (∃ queue worker service now threshold t,
      call = .registerWorker queue worker service now threshold ∧ Announces k queue worker t ∧
      ((Kind.fields.unwrap (t.keys (Keys.workerMetadataKey queue worker).name) = none ∧
          call.exec.run k = (.error wrongType, t)) ∨
        ∃ h h', Kind.fields.unwrap (t.keys (Keys.workerMetadataKey queue worker).name) = some h ∧
          call.exec.run k =
            (.ok (), t.write (Keys.workerMetadataKey queue worker).name (.fields h')))) := by
  obtain ⟨z', hz'⟩ := hregistry
  cases call with
  | registerWorker queue worker service now threshold =>
      cases hz : Kind.sortedSet.unwrap (k.keys (Keys.workersSet queue).name) with
      | none => exact .inl ⟨wrongType, run_bind_error (run_readAt_error hz _) _⟩
      | some z =>
          have hrun := run_registerWorkerAt hz (Keys.workerMetadataKey queue worker).name now
            worker threshold "RedisStorage" service
          split at hrun
          · exact .inl ⟨_, hrun⟩
          · obtain ⟨t, ht, houtcome⟩ := run_enrollAt_cases hz hz' now worker "RedisStorage" service
            rw [← hrun] at houtcome
            exact .inr (.inr ⟨queue, worker, service, now, threshold, t, rfl, ht, houtcome⟩)
  | keepAlive queue worker now =>
      cases hz : Kind.sortedSet.unwrap (k.keys (Keys.workersSet queue).name) with
      | none => exact .inl ⟨wrongType, run_bind_error (run_readAt_error hz _) _⟩
      | some z =>
          have hrun : (WorkerCall.keepAlive queue worker now).exec.run k = _ :=
            run_bind_ok (run_readAt_ok hz _) _
          by_cases hworker : worker ∈ z
          · refine .inr (.inl ⟨queue, worker, now, z, rfl, hz, hworker, ?_⟩)
            have hseen : (z.lookup worker).isNone = false := by
              rw [Option.isNone_eq_false_iff]
              exact Finmap.lookup_isSome.mpr hworker
            rw [hrun, hseen]
            exact run_updateAt_ok hz _
          · have hunseen : (z.lookup worker).isNone = true := by
              rw [Finmap.lookup_eq_none.mpr hworker]
              rfl
            rw [hunseen] at hrun
            exact .inl ⟨_, hrun⟩

section Writes

variable {k : Keyspace} {key key' member : String}

/-- A sorted set gains the one member that is inserted. -/
theorem hasMember_write_sortedSet_iff
    {z : ZSet}
    (hunwrap : Kind.sortedSet.unwrap (k.keys key) = some z)
    (added : String)
    (score : Nat) :
    (k.write key (.sortedSet (z.insert added score))).HasMember key' member ↔
      key' = key ∧ member = added ∨ k.HasMember key' member := by
  unfold Keyspace.HasMember
  rcases eq_or_ne key' key with rfl | hne
  · rw [write_self, asSortedSet_of_unwrap hunwrap]
    exact Finmap.mem_insert.trans (or_congr (and_iff_right rfl).symm Iff.rfl)
  · rw [write_of_ne k hne, or_iff_right fun h => hne h.1]

/-- A hash gives no sorted set a member, and takes none away. -/
theorem hasMember_write_fields_iff
    {h : Hash String}
    (hunwrap : Kind.fields.unwrap (k.keys key) = some h)
    (h' : Hash String) :
    (k.write key (.fields h')).HasMember key' member ↔ k.HasMember key' member := by
  refine ⟨fun hmem => ?_, fun hmem => hmem.write_fields hunwrap h'⟩
  unfold Keyspace.HasMember at hmem ⊢
  rcases eq_or_ne key' key with rfl | hne
  · rw [write_self] at hmem
    exact absurd hmem Finmap.notMem_empty
  · rwa [write_of_ne k hne] at hmem

end Writes

/-- The queues with workers are announced, by the keys of their workers sets, and
no other sorted sets are there. -/
structure Announcing (k : Keyspace) : Prop where
  registry : ∃ z, Kind.sortedSet.unwrap (k.keys queuesList.name) = some z
  announced : ∀ member, k.HasMember queuesList.name member →
    ∃ queue worker, member = (Keys.workersSet queue).name ∧ k.HasMember member worker
  typed : ∀ key, Kind.fields.unwrap (k.keys key) = none →
    key = queuesList.name ∨
      ∃ queue worker, key = (Keys.workersSet queue).name ∧ k.HasMember key worker

namespace Announcing

variable {k : Keyspace}

theorem workersSet_ne_registry
    (queue : String) :
    (Keys.workersSet queue).name ≠ queuesList.name :=
  (Cell.plain .workers).name_ne_queuesList queue

theorem write_workers
    (h : Announcing k)
    {queue : String}
    {z : ZSet}
    (hz : Kind.sortedSet.unwrap (k.keys (Keys.workersSet queue).name) = some z)
    (worker : String)
    (score : Nat) :
    Announcing (k.write (Keys.workersSet queue).name (.sortedSet (z.insert worker score))) := by
  have hmember := @hasMember_write_sortedSet_iff k (Keys.workersSet queue).name
  refine ⟨?_, fun member hmem => ?_, fun key hkey => ?_⟩
  · rw [write_of_ne k (workersSet_ne_registry queue).symm]
    exact h.registry
  · rcases (hmember hz worker score).mp hmem with ⟨hname, -⟩ | hold
    · exact absurd hname.symm (workersSet_ne_registry queue)
    · obtain ⟨queue', worker', hname, hworker⟩ := h.announced member hold
      exact ⟨queue', worker', hname, (hmember hz worker score).mpr (.inr hworker)⟩
  · rcases eq_or_ne key (Keys.workersSet queue).name with rfl | hne
    · exact .inr ⟨queue, worker, rfl, hasMember_write k _ worker z score⟩
    · rw [write_of_ne k hne] at hkey
      refine (h.typed key hkey).imp_right ?_
      rintro ⟨queue', worker', hname, hworker⟩
      exact ⟨queue', worker', hname, (hmember hz worker score).mpr (.inr hworker)⟩

theorem write_registry
    (h : Announcing k)
    {queue worker : String}
    (hworker : k.HasMember (Keys.workersSet queue).name worker)
    {z : ZSet}
    (hz : Kind.sortedSet.unwrap (k.keys queuesList.name) = some z)
    (score : Nat) :
    Announcing (k.write queuesList.name
      (.sortedSet (z.insert (Keys.workersSet queue).name score))) := by
  have hmember := @hasMember_write_sortedSet_iff k queuesList.name
  refine ⟨⟨_, congrArg _ (write_self k _ _)⟩, fun member hmem => ?_, fun key hkey => ?_⟩
  · rcases (hmember hz _ score).mp hmem with ⟨-, rfl⟩ | hold
    · exact ⟨queue, worker, rfl, (hmember hz _ score).mpr (.inr hworker)⟩
    · obtain ⟨queue', worker', hname, hworker'⟩ := h.announced member hold
      exact ⟨queue', worker', hname, (hmember hz _ score).mpr (.inr hworker')⟩
  · rcases eq_or_ne key queuesList.name with rfl | hne
    · exact .inl rfl
    · rw [write_of_ne k hne] at hkey
      refine (h.typed key hkey).imp_right ?_
      rintro ⟨queue', worker', hname, hworker'⟩
      exact ⟨queue', worker', hname, (hmember hz _ score).mpr (.inr hworker')⟩

theorem write_metadata
    (h : Announcing k)
    {queue worker : String}
    {fields : Hash String}
    (hunwrap : Kind.fields.unwrap (k.keys (Keys.workerMetadataKey queue worker).name) =
      some fields)
    (fields' : Hash String) :
    Announcing (k.write (Keys.workerMetadataKey queue worker).name (.fields fields')) := by
  have hmember := @hasMember_write_fields_iff k (Keys.workerMetadataKey queue worker).name
  have hne : queuesList.name ≠ (Keys.workerMetadataKey queue worker).name :=
    ((Cell.indexed .workersMetadata worker).name_ne_queuesList queue).symm
  refine ⟨?_, fun member hmem => ?_, fun key hkey => ?_⟩
  · rw [write_of_ne k hne]
    exact h.registry
  · obtain ⟨queue', worker', hname, hworker⟩ := h.announced member ((hmember hunwrap _).mp hmem)
    exact ⟨queue', worker', hname, (hmember hunwrap _).mpr hworker⟩
  · have hne' : key ≠ (Keys.workerMetadataKey queue worker).name := by
      rintro rfl
      rw [write_self] at hkey
      cases hkey
    rw [write_of_ne k hne'] at hkey
    refine (h.typed key hkey).imp_right ?_
    rintro ⟨queue', worker', hname, hworker⟩
    exact ⟨queue', worker', hname, (hmember hunwrap _).mpr hworker⟩

end Announcing

/-- What announcing a queue adds to the sorted sets. -/
theorem Announces.hasMember_iff
    {k t : Keyspace}
    {queue worker key member : String}
    (h : Announces k queue worker t) :
    t.HasMember key member ↔
      key = queuesList.name ∧ member = (Keys.workersSet queue).name ∨
        key = (Keys.workersSet queue).name ∧ member = worker ∨ k.HasMember key member := by
  obtain ⟨z, z', score, score', hz, hz', rfl⟩ := h
  have hregistry := write_of_ne k (Announcing.workersSet_ne_registry queue).symm
    (.sortedSet (z.insert worker score))
  rw [hasMember_write_sortedSet_iff ((congrArg _ hregistry).trans hz'),
    hasMember_write_sortedSet_iff hz]

theorem Announcing.announces
    {k t : Keyspace}
    {queue worker : String}
    (h : Announcing k)
    (ht : Announces k queue worker t) :
    Announcing t := by
  obtain ⟨z, z', score, score', hz, hz', rfl⟩ := ht
  have hregistry := write_of_ne k (Announcing.workersSet_ne_registry queue).symm
    (.sortedSet (z.insert worker score))
  exact (h.write_workers hz worker score).write_registry (hasMember_write k _ worker z score)
    ((congrArg _ hregistry).trans hz') score'

/-- The call is a registration on the queue, and it succeeds. -/
def WorkerCall.Registers (k : Keyspace) (queue : String) : WorkerCall → Prop
  | call@(registerWorker queue' _ _ _ _) => queue' = queue ∧ (call.exec.run k).1.isOk
  | keepAlive .. => False

/-- One of the calls registered a worker on the queue. -/
def RegisteredOn (calls : List WorkerCall) (queue : String) : Prop :=
  ∃ before call after, calls = before ++ call :: after ∧ call.Registers (afterCalls before) queue

theorem registeredOn_append_singleton
    {calls : List WorkerCall}
    {call : WorkerCall}
    {queue : String} :
    RegisteredOn (calls ++ [call]) queue ↔
      RegisteredOn calls queue ∨ call.Registers (afterCalls calls) queue := by
  constructor
  · rintro ⟨before, call', after, heq, hcall⟩
    rcases List.eq_nil_or_concat after with rfl | ⟨after, last, rfl⟩
    · obtain ⟨rfl, hlast⟩ := List.append_inj' heq rfl
      cases hlast
      exact .inr hcall
    · have hsplit : calls ++ [call] = (before ++ call' :: after) ++ [last] := by
        rw [heq]
        simp
      exact .inl ⟨before, call', after, (List.append_inj' hsplit rfl).1, hcall⟩
  · rintro (⟨before, call', after, rfl, hcall⟩ | hcall)
    · exact ⟨before, call', after ++ [call], by simp, hcall⟩
    · exact ⟨calls, call, [], rfl, hcall⟩

/-- A hash of metadata at the key of a workers set means that the latter's queue
has what is removed from the names. -/
theorem namesWorkers_of_metadata
    {queue queue' worker : String}
    (h : (Keys.workerMetadataKey queue worker).name = (Keys.workersSet queue').name) :
    NamesWorkers queue' := by
  have hchars : queue.toList ++ ":workers".toList ++ (":metadata:".toList ++ worker.toList) =
      queue'.toList ++ ":workers".toList := by
    have htoList := congrArg String.toList h
    simpa using htoList
  rcases List.append_eq_append_iff.mp hchars with ⟨more, hqueue, -⟩ | ⟨more, -, htail⟩
  · exact ⟨queue.toList, more, hqueue.symm⟩
  · have hlength := congrArg List.length htail
    simp only [List.length_append] at hlength
    have hshort : ":workers".toList.length < ":metadata:".toList.length := by decide
    omega

/-- Who is announced, and who registered. -/
structure Announced (calls : List WorkerCall) : Prop where
  announcing : Announcing (afterCalls calls)
  listed : ∀ queue, RegisteredOn calls queue →
    (afterCalls calls).HasMember queuesList.name (Keys.workersSet queue).name
  told : (∀ queue worker, (afterCalls calls).HasMember (Keys.workersSet queue).name worker →
      RegisteredOn calls queue) ∨ ∃ queue, RegisteredOn calls queue ∧ NamesWorkers queue

/-- A call that registers nobody, and takes no member away. -/
theorem Announced.unregistered
    {calls : List WorkerCall}
    (h : Announced calls)
    {call : WorkerCall}
    (hcall : ∀ queue, ¬call.Registers (afterCalls calls) queue)
    (hannouncing : Announcing (afterCalls (calls ++ [call])))
    (hgrows : ∀ key member, (afterCalls calls).HasMember key member →
      (afterCalls (calls ++ [call])).HasMember key member)
    (htold : (∀ queue worker,
        (afterCalls (calls ++ [call])).HasMember (Keys.workersSet queue).name worker →
          RegisteredOn calls queue) ∨ ∃ queue, RegisteredOn calls queue ∧ NamesWorkers queue) :
    Announced (calls ++ [call]) := by
  have hregistered : ∀ queue, RegisteredOn (calls ++ [call]) queue ↔ RegisteredOn calls queue :=
    fun queue => registeredOn_append_singleton.trans (or_iff_left (hcall queue))
  refine ⟨hannouncing, fun queue hqueue => ?_, ?_⟩
  · exact hgrows _ _ (h.listed queue ((hregistered queue).mp hqueue))
  · rcases htold with hall | ⟨queue, hqueue, hnames⟩
    · exact .inl fun queue worker hmem => (hregistered queue).mpr (hall queue worker hmem)
    · exact .inr ⟨queue, (hregistered queue).mpr hqueue, hnames⟩

/-- A registration that fails after it announced its queue found a workers set where
its metadata belong. -/
theorem Announced.told_of_wrongType
    {calls : List WorkerCall}
    (h : Announced calls)
    {queue worker : String}
    {t : Keyspace}
    (ht : Announces (afterCalls calls) queue worker t)
    (hunwrap : Kind.fields.unwrap (t.keys (Keys.workerMetadataKey queue worker).name) = none) :
    ∃ queue, RegisteredOn calls queue ∧ NamesWorkers queue := by
  rcases h.told with htold | hnames
  · have hregistry : (Keys.workerMetadataKey queue worker).name ≠ queuesList.name :=
      (Cell.indexed .workersMetadata worker).name_ne_queuesList queue
    have hworkers : (Keys.workerMetadataKey queue worker).name ≠ (Keys.workersSet queue).name := by
      intro hname
      have hcell := @Cell.name_injective queue (.indexed .workersMetadata worker)
        (.plain .workers) hname
      cases hcell
    obtain ⟨queue', worker', hname, hmem⟩ :=
      ((h.announcing.announces ht).typed _ hunwrap).resolve_left hregistry
    have hold := ((ht.hasMember_iff.mp hmem).resolve_left fun hnew => hregistry hnew.1).resolve_left
      fun hnew => hworkers hnew.1
    rw [hname] at hold
    exact ⟨queue', htold queue' worker' hold, namesWorkers_of_metadata hname⟩
  · exact hnames

/-- A registration that succeeds. -/
theorem Announced.registers
    {calls : List WorkerCall}
    (h : Announced calls)
    {queue worker : String}
    {t : Keyspace}
    (ht : Announces (afterCalls calls) queue worker t)
    {call : WorkerCall}
    (hcall : ∀ queue', call.Registers (afterCalls calls) queue' ↔ queue = queue')
    (hannouncing : Announcing (afterCalls (calls ++ [call])))
    (hmember : ∀ key member,
      (afterCalls (calls ++ [call])).HasMember key member ↔ t.HasMember key member) :
    Announced (calls ++ [call]) := by
  have hregistered : ∀ queue', RegisteredOn (calls ++ [call]) queue' ↔
      RegisteredOn calls queue' ∨ queue = queue' :=
    fun queue' => registeredOn_append_singleton.trans (or_congr_right (hcall queue'))
  refine ⟨hannouncing, fun queue' hqueue' => ?_, ?_⟩
  · refine (hmember _ _).mpr (ht.hasMember_iff.mpr ?_)
    rcases (hregistered queue').mp hqueue' with hold | rfl
    · exact .inr (.inr (h.listed queue' hold))
    · exact .inl ⟨rfl, rfl⟩
  · rcases h.told with htold | ⟨queue', hqueue', hnames⟩
    · refine .inl fun queue' worker' hmem => (hregistered queue').mpr ?_
      rcases ht.hasMember_iff.mp ((hmember _ _).mp hmem) with ⟨hname, -⟩ | ⟨hname, -⟩ | hold
      · exact absurd hname (Announcing.workersSet_ne_registry queue')
      · exact .inr (workersSet_injective hname.symm)
      · exact .inl (htold queue' worker' hold)
    · exact .inr ⟨queue', (hregistered queue').mpr (.inl hqueue'), hnames⟩

theorem not_registers_of_error
    {k t : Keyspace}
    {call : WorkerCall}
    {e : String}
    (h : call.exec.run k = (.error e, t))
    (queue : String) :
    ¬call.Registers k queue := by
  intro hcall
  cases call with
  | registerWorker queue' worker service now threshold =>
      have hok : Except.isOk (Except.error e : Except String Unit) = true := by
        have hreply := hcall.2
        rwa [h] at hreply
      cases hok
  | keepAlive queue' worker now => exact hcall

/-- **Who is announced, and who registered**, one call later. -/
theorem Announced.step
    {calls : List WorkerCall}
    (h : Announced calls)
    (call : WorkerCall) :
    Announced (calls ++ [call]) := by
  have hlater := afterCalls_append calls call
  rcases call.exec_cases h.announcing.registry with
    ⟨e, hrun⟩ | ⟨queue, worker, now, z, rfl, hz, hworker, hrun⟩ |
    ⟨queue, worker, service, now, threshold, t, rfl, ht, hrun⟩
  · -- Nothing is written.
    rw [hrun] at hlater
    refine h.unregistered (not_registers_of_error hrun) ?_ ?_ ?_
    · rw [hlater]
      exact h.announcing
    · rw [hlater]
      exact fun _ _ hmem => hmem
    · rw [hlater]
      exact h.told
  · -- The worker that beats was a member already.
    rw [hrun] at hlater
    have hmem : (afterCalls calls).HasMember (Keys.workersSet queue).name worker := by
      unfold Keyspace.HasMember
      rwa [asSortedSet_of_unwrap hz]
    have hsame : ∀ key member, (afterCalls (calls ++ [.keepAlive queue worker now])).HasMember
        key member ↔ (afterCalls calls).HasMember key member := by
      intro key member
      rw [hlater, hasMember_write_sortedSet_iff hz]
      refine or_iff_right_of_imp ?_
      rintro ⟨rfl, rfl⟩
      exact hmem
    refine h.unregistered (fun queue' hcall => hcall) ?_ (fun key member => (hsame key member).mpr)
      (h.told.imp_left fun htold queue' worker' hmem' =>
        htold queue' worker' ((hsame _ _).mp hmem'))
    rw [hlater]
    exact h.announcing.write_workers hz worker now
  · rcases hrun with ⟨hunwrap, hrun⟩ | ⟨fields, fields', hunwrap, hrun⟩
    · -- The queue is announced, but the registration fails.
      rw [hrun] at hlater
      refine h.unregistered (not_registers_of_error hrun) ?_ ?_
        (.inr (h.told_of_wrongType ht hunwrap))
      · rw [hlater]
        exact h.announcing.announces ht
      · rw [hlater]
        exact fun _ _ hmem => ht.hasMember_iff.mpr (.inr (.inr hmem))
    · rw [hrun] at hlater
      refine h.registers ht (fun queue' => ?_) ?_ fun key member => ?_
      · refine and_iff_left ?_
        rw [hrun]
        rfl
      · rw [hlater]
        exact (h.announcing.announces ht).write_metadata hunwrap fields'
      · rw [hlater]
        exact hasMember_write_fields_iff hunwrap fields'

/-- **Who is announced after some calls, and who registered.** -/
theorem announced_afterCalls
    (calls : List WorkerCall) :
    Announced calls := by
  induction calls using List.reverseRecOn with
  | nil =>
      have hnone : ∀ key member, ¬(afterCalls []).HasMember key member :=
        fun key member hmem => Finmap.notMem_empty hmem
      refine ⟨⟨⟨∅, rfl⟩, fun member hmem => absurd hmem (hnone _ _), ?_⟩, ?_, ?_⟩
      · intro key hkey
        cases hkey
      · rintro queue ⟨before, call, after, heq, -⟩
        cases before <;> cases heq
      · exact .inl fun queue worker hmem => absurd hmem (hnone _ _)
  | append_singleton calls call ih => exact ih.step call

/-- The names are those of the queues that registered, each once. -/
def ReadsBack (calls : List WorkerCall) : Prop :=
  ∃ names, (RedisStorage.queueNames.run (afterCalls calls)).1 = .ok names ∧ names.Nodup ∧
    ∀ queue, queue ∈ names ↔ RegisteredOn calls queue

/-- What the registry says, as queues. -/
theorem exists_announced_queues
    {k : Keyspace}
    (h : Announcing k) :
    ∃ queues : List String, queues.Nodup ∧
      (∀ queue, queue ∈ queues ↔ k.HasMember queuesList.name (Keys.workersSet queue).name) ∧
      RedisStorage.queueNames.run k = (.ok (queues.map derivedName), k) := by
  obtain ⟨z, hz⟩ := h.registry
  have hmember : ∀ member, member ∈ z.sorted.map (fun e => (ofLex e).2) ↔
      k.HasMember queuesList.name member := by
    intro member
    unfold Keyspace.HasMember
    rw [asSortedSet_of_unwrap hz, List.mem_map, ← Finmap.lookup_isSome, Option.isSome_iff_exists]
    constructor
    · rintro ⟨e, he, rfl⟩
      exact ⟨_, ZSet.mem_sorted.mp he⟩
    · rintro ⟨score, hscore⟩
      exact ⟨_, ZSet.mem_sorted.mpr hscore, rfl⟩
  obtain ⟨queues, hqueues⟩ : z.sorted.map (fun e => (ofLex e).2) ∈
      Set.range (List.map fun queue => (Keys.workersSet queue).name) := by
    rw [Set.range_list_map]
    intro member hmem
    obtain ⟨queue, -, hname, -⟩ := h.announced member ((hmember member).mp hmem)
    exact ⟨queue, hname.symm⟩
  refine ⟨queues, ?_, fun queue => ?_, ?_⟩
  · refine List.Nodup.of_map (fun queue => (Keys.workersSet queue).name) ?_
    rw [hqueues]
    exact z.nodup_members
  · rw [← hmember, ← hqueues, List.mem_map_of_injective workersSet_injective]
  · rw [RedisStorage.queueNames, run_bind_ok (run_readAt_ok hz _), run_pure, ← hqueues,
      List.map_map]
    rfl

/-- **When the registry can be read back**: when no name of a registered queue has
what is removed. -/
theorem readsBack_iff
    (calls : List WorkerCall) :
    ReadsBack calls ↔ ∀ queue, RegisteredOn calls queue → ¬NamesWorkers queue := by
  obtain ⟨hannouncing, hlisted, htold⟩ := announced_afterCalls calls
  obtain ⟨queues, hnodup, hqueues, hrun⟩ := exists_announced_queues hannouncing
  unfold ReadsBack
  rw [hrun]
  constructor
  · rintro ⟨names, hok, hnames, hall⟩ queue hqueue hremoved
    cases hok
    -- The names are the announced queues in another order, but altogether shorter.
    have hsubset : queues.map derivedName ⊆ queues := fun name hname =>
      (hqueues name).mpr (hlisted name ((hall name).mp hname))
    have hperm : (queues.map derivedName).Perm queues :=
      (List.subperm_of_subset hnames hsubset).perm_of_length_le (by rw [List.length_map])
    have hsum : ((queues.map derivedName).map fun name => name.toList.length).sum =
        (queues.map fun name => name.toList.length).sum := (hperm.map _).sum_eq
    rw [List.map_map] at hsum
    have hnone : ∀ name ∈ queues, (derivedName name).toList.length ≤ name.toList.length :=
      fun name _ => length_derivedName_le name
    have hone : ∃ name ∈ queues, (derivedName name).toList.length < name.toList.length :=
      ⟨queue, (hqueues queue).mpr (hlisted queue hqueue), length_derivedName_lt hremoved⟩
    have hshorter := List.sum_lt_sum (fun name => (derivedName name).toList.length)
      (fun name => name.toList.length) hnone hone
    exact absurd hsum (Nat.ne_of_lt hshorter)
  · intro hnames
    have hregistered : ∀ queue, queue ∈ queues ↔ RegisteredOn calls queue := by
      have hall := htold.resolve_right fun ⟨queue, hqueue, hremoved⟩ => hnames queue hqueue hremoved
      refine fun queue => ⟨fun hmem => ?_, fun hqueue => (hqueues queue).mpr (hlisted queue hqueue)⟩
      obtain ⟨queue', worker, hname, hworker⟩ := hannouncing.announced _ ((hqueues queue).mp hmem)
      exact hall queue worker hworker
    have hderived : queues.map derivedName = queues := by
      refine (List.map_congr_left fun queue hqueue => ?_).trans (List.map_id queues)
      exact derivedName_eq_self (hnames queue ((hregistered queue).mp hqueue))
    rw [hderived]
    exact ⟨queues, rfl, hnodup, hregistered⟩

/-- One worker registered, on a queue whose name ends like a workers set. -/
def workersQueue : List WorkerCall :=
  [.registerWorker "a:workers" "w" "tower" 100 30]

/-- Its name is not read back. -/
theorem workersQueue_not_readBack :
    ¬ReadsBack workersQueue := by
  rintro ⟨names, hok, -, hall⟩
  have hrun : (RedisStorage.queueNames.run (afterCalls workersQueue)).1 = .ok ["a"] := by
    decide +kernel
  rw [hrun] at hok
  cases hok
  have hregistered : RegisteredOn workersQueue "a:workers" := by
    refine ⟨[], _, [], rfl, rfl, ?_⟩
    decide +kernel
  exact absurd ((hall "a:workers").mpr hregistered) (by decide)

end ApalisRedis
