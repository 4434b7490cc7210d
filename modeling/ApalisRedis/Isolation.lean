import ApalisRedis.Calls

/-!
# Several queues in one Redis

Every key of a queue is the queue's name, a `:`, a role, and for some roles one
more `:` and a suffix that the caller chooses.  A queue whose own name goes on
like such a key of another queue shares keys with it.

**Results.**
* `collides_iff`: which queues have a key in common.
* `Keyspace.view_exec`: a queue's operations on all of Redis are those on its store.
* `isolated_iff`: which queues are isolated from each other.
-/

namespace ApalisRedis

open Redis Script

/-- The roles with one key each. -/
inductive PlainRole where
  | active
  | workers
  | dead
  | done
  | data
  | scheduled
  | signal
deriving DecidableEq

/-- The roles with one key for each worker, task or idempotency key. -/
inductive IndexedRole where
  | inflight
  | jobMeta
  | idempotency
  | workersMetadata
deriving DecidableEq

def PlainRole.word : PlainRole → String
  | active => "active"
  | workers => "workers"
  | dead => "dead"
  | done => "done"
  | data => "data"
  | scheduled => "scheduled"
  | signal => "signal"

def IndexedRole.word : IndexedRole → String
  | inflight => "inflight"
  | jobMeta => "meta"
  | idempotency => "idempotency"
  | workersMetadata => "workers:metadata"

/-- A key that the operations of a queue read or write, besides the registry. -/
inductive Cell where
  | plain (role : PlainRole)
  | indexed (role : IndexedRole) (suffix : String)
deriving DecidableEq

namespace Cell

/-- The key that `Config` and the scripts build. -/
def name (queue : String) : Cell → String
  | plain .active => (Keys.activeJobsList queue).name
  | plain .workers => (Keys.workersSet queue).name
  | plain .dead => (Keys.deadJobsSet queue).name
  | plain .done => (Keys.doneJobsSet queue).name
  | plain .data => (Keys.jobDataHash queue).name
  | plain .scheduled => (Keys.scheduledJobsSet queue).name
  | plain .signal => (Keys.signalList queue).name
  | indexed .inflight worker => (Keys.inflightSetFor queue worker).name
  | indexed .jobMeta taskId => (Keys.jobMetaHash queue taskId).name
  | indexed .idempotency key => (Keys.idempotencyKeySet queue key).name
  | indexed .workersMetadata worker => (Keys.workerMetadataKey queue worker).name

/-- What stands after the queue's name and a `:`. -/
def tail : Cell → List Char
  | plain role => role.word.toList
  | indexed role suffix => role.word.toList ++ ':' :: suffix.toList

/-- Only idempotency keys that are not empty have a Redis key. -/
def Proper : Cell → Prop
  | indexed .idempotency key => key ≠ ""
  | _ => True

theorem toList_name
    (queue : String)
    (c : Cell) :
    (c.name queue).toList = queue.toList ++ ':' :: c.tail := by
  cases c with
  | plain role =>
      cases role <;> simp [name, tail, PlainRole.word]
  | indexed role suffix =>
      cases role <;> simp [name, tail, IndexedRole.word]

end Cell

theorem PlainRole.word_injective
    {role role' : PlainRole}
    (h : role.word.toList = role'.word.toList) :
    role = role' := by
  cases role <;> cases role' <;> first | rfl | exact absurd h (by decide)

theorem PlainRole.no_colon
    (role : PlainRole) :
    ':' ∉ role.word.toList := by
  cases role <;> decide

/-- The suffix starts where the role ends. -/
theorem IndexedRole.word_injective
    {role role' : IndexedRole}
    {suffix suffix' : List Char}
    (h : role.word.toList ++ ':' :: suffix = role'.word.toList ++ ':' :: suffix') :
    role = role' ∧ suffix = suffix' := by
  cases role <;> cases role' <;> simp [IndexedRole.word] at h ⊢ <;> exact h

/-- Different keys of a queue have different names. -/
theorem Cell.name_injective
    (queue : String)
    {c d : Cell}
    (h : c.name queue = d.name queue) :
    c = d := by
  have htail : c.tail = d.tail := by
    have hchars := congrArg String.toList h
    rw [c.toList_name, d.toList_name, List.append_cancel_left_eq, List.cons_inj_right] at hchars
    exact hchars
  cases c with
  | plain role =>
      cases d with
      | plain role' => rw [PlainRole.word_injective htail]
      | indexed role' suffix' =>
          refine absurd ?_ role.no_colon
          rw [show role.word.toList = _ from htail]
          exact List.mem_append_right _ List.mem_cons_self
  | indexed role suffix =>
      cases d with
      | plain role' =>
          refine absurd ?_ role'.no_colon
          rw [show role'.word.toList = _ from htail.symm]
          exact List.mem_append_right _ List.mem_cons_self
      | indexed role' suffix' =>
          obtain ⟨hrole, hsuffix⟩ := IndexedRole.word_injective htail
          rw [hrole, String.toList_inj.mp hsuffix]

/-- The name of the second queue goes on like an indexed key of the first one. -/
def Nested (queue queue' : String) : Prop :=
  ∃ role : IndexedRole,
    queue.toList ++ ':' :: (role.word.toList ++ [':']) <+: queue'.toList ++ [':']

/-- No role starts with the second word of `workers:metadata`. -/
theorem Cell.tail_ne_metadata
    (c : Cell)
    (suffix : List Char) :
    c.tail ≠ "metadata".toList ++ ':' :: suffix := by
  intro h
  cases c with
  | plain role => cases role <;> simp [Cell.tail, PlainRole.word] at h
  | indexed role suffix' => cases role <;> simp [Cell.tail, IndexedRole.word] at h

/-- Only the word `workers:metadata` has a `:`. -/
theorem IndexedRole.split_word
    {role : IndexedRole}
    {before after : List Char}
    (h : role.word.toList = before ++ ':' :: after) :
    after = "metadata".toList := by
  have hmem : ':' ∈ role.word.toList := by
    rw [h]
    exact List.mem_append_right _ List.mem_cons_self
  cases role with
  | inflight => exact absurd hmem (by decide)
  | jobMeta => exact absurd hmem (by decide)
  | idempotency => exact absurd hmem (by decide)
  | workersMetadata =>
      have hword : "workers".toList ++ ':' :: "metadata".toList = before ++ ':' :: after := h
      have hparts := (List.append_cons_inj_of_notMem (by decide) (by decide)).mp hword
      exact hparts.2.2.symm

/-- When a key of the first queue is one of the longer-named second queue, the
second queue is nested in the first. -/
theorem nested_of_tail_eq
    {queue queue' : String}
    {rest : List Char}
    (hqueue : queue'.toList = queue.toList ++ ':' :: rest)
    {c d : Cell}
    (htail : c.tail = rest ++ ':' :: d.tail) :
    Nested queue queue' := by
  cases c with
  | plain role =>
      refine absurd ?_ role.no_colon
      rw [show role.word.toList = _ from htail]
      exact List.mem_append_right _ List.mem_cons_self
  | indexed role suffix =>
      refine ⟨role, ?_⟩
      rw [hqueue, List.append_assoc, List.prefix_append_right_inj, List.cons_append,
        List.cons_prefix_cons]
      refine ⟨rfl, ?_⟩
      change role.word.toList ++ ':' :: suffix.toList = _ at htail
      rcases List.append_eq_append_iff.mp htail with ⟨more, hrest, hsuffix⟩ | ⟨more, hword, hsuffix⟩
      · cases more with
        | nil => rw [hrest, List.append_nil]
        | cons ch more =>
            obtain ⟨rfl, -⟩ := List.cons.inj hsuffix
            rw [hrest, List.append_assoc, List.prefix_append_right_inj]
            exact ⟨more ++ [':'], rfl⟩
      · cases more with
        | nil => rw [hword, List.append_nil]
        | cons ch more =>
            obtain ⟨rfl, hrest⟩ := List.cons.inj hsuffix
            refine absurd hrest ?_
            rw [IndexedRole.split_word hword]
            exact d.tail_ne_metadata _

theorem nested_of_name_eq
    {queue queue' : String}
    (hne : queue ≠ queue')
    {c d : Cell}
    (hname : c.name queue = d.name queue') :
    Nested queue queue' ∨ Nested queue' queue := by
  have hchars := congrArg String.toList hname
  rw [c.toList_name, d.toList_name] at hchars
  rcases List.append_eq_append_iff.mp hchars with ⟨more, hqueue, htail⟩ | ⟨more, hqueue, htail⟩
  · cases more with
    | nil => exact absurd (String.toList_inj.mp (by rw [hqueue, List.append_nil])) hne.symm
    | cons ch more =>
        obtain ⟨rfl, hrest⟩ := List.cons.inj htail
        exact .inl (nested_of_tail_eq hqueue hrest)
  · cases more with
    | nil => exact absurd (String.toList_inj.mp (by rw [hqueue, List.append_nil])) hne
    | cons ch more =>
        obtain ⟨rfl, hrest⟩ := List.cons.inj htail
        exact .inr (nested_of_tail_eq hqueue hrest)

/-- The data hash of a nested queue is an indexed key of the other one. -/
theorem Nested.exists_cell
    {queue queue' : String}
    (h : Nested queue queue') :
    ∃ c : Cell, c.Proper ∧ c.name queue = (Cell.plain .data).name queue' := by
  obtain ⟨role, rest, hrest⟩ := h
  have hproper : (Cell.indexed role (String.ofList (rest ++ "data".toList))).Proper := by
    have hlast : String.ofList (rest ++ "data".toList) ≠ "" := by
      simp
    cases role <;> first | exact hlast | exact trivial
  refine ⟨_, hproper, String.toList_inj.mp ?_⟩
  rw [Cell.toList_name, Cell.toList_name]
  change _ = queue'.toList ++ ([':'] ++ "data".toList)
  rw [← List.append_assoc, ← hrest]
  simp [Cell.tail]

/-- **Which queues have a key in common**: those of which one is nested in the other. -/
theorem collides_iff
    {queue queue' : String}
    (hne : queue ≠ queue') :
    (∃ c d : Cell, c.Proper ∧ d.Proper ∧ c.name queue = d.name queue') ↔
      Nested queue queue' ∨ Nested queue' queue := by
  constructor
  · rintro ⟨c, d, -, -, hname⟩
    exact nested_of_name_eq hne hname
  · rintro (hnested | hnested)
    · obtain ⟨c, hc, hname⟩ := hnested.exists_cell
      exact ⟨c, .plain .data, hc, trivial, hname⟩
    · obtain ⟨c, hc, hname⟩ := hnested.exists_cell
      exact ⟨.plain .data, c, trivial, hc, hname.symm⟩

/-- What a Redis key holds. -/
inductive Value where
  | list (xs : List String)
  | set (xs : Finset String)
  | sortedSet (z : ZSet)
  | fields (h : Hash String)
  | data (h : Hash Bytes)
  | string (claim : Option Claim)

namespace Value

/-- An absent key is the empty value of every type. -/
def asList : Value → List String
  | list xs => xs
  | _ => []

def asSet : Value → Finset String
  | set xs => xs
  | _ => ∅

def asSortedSet : Value → ZSet
  | sortedSet z => z
  | _ => ∅

def asFields : Value → Hash String
  | fields h => h
  | _ => ∅

def asData : Value → Hash Bytes
  | data h => h
  | _ => ∅

def asString : Value → Option Claim
  | string claim => claim
  | _ => none

end Value

/-- What a queue's store keeps under one of its keys. -/
def Cell.value (s : Store) : Cell → Value
  | plain .active => .list s.activeJobs
  | plain .workers => .sortedSet s.workers
  | plain .dead => .set s.deadJobs
  | plain .done => .set s.doneJobs
  | plain .data => .data s.jobData
  | plain .scheduled => .sortedSet s.scheduledJobs
  | plain .signal => .list s.signal
  | indexed .inflight worker => .set (s.inflightJobs worker)
  | indexed .jobMeta taskId => .fields (s.jobMeta taskId)
  | indexed .idempotency key => .string (s.idempotency key)
  | indexed .workersMetadata worker => .fields (s.workerMetadata worker)

/-- A value as the cell takes it: one of another type is taken for an empty one. -/
def Cell.cast : Cell → Value → Value
  | plain .active, v => .list v.asList
  | plain .workers, v => .sortedSet v.asSortedSet
  | plain .dead, v => .set v.asSet
  | plain .done, v => .set v.asSet
  | plain .data, v => .data v.asData
  | plain .scheduled, v => .sortedSet v.asSortedSet
  | plain .signal, v => .list v.asList
  | indexed .inflight _, v => .set v.asSet
  | indexed .jobMeta _, v => .fields v.asFields
  | indexed .idempotency _, v => .string v.asString
  | indexed .workersMetadata _, v => .fields v.asFields

theorem Cell.cast_value
    (s : Store)
    (c : Cell) :
    c.cast (c.value s) = c.value s := by
  rcases c with role | ⟨role, suffix⟩ <;> cases role <;> rfl

/-- A store is what its cells hold, and what all queues share. -/
theorem Store.eq_of_values
    {s t : Store}
    (hvalue : ∀ c : Cell, c.value s = c.value t)
    (hqueues : s.queues = t.queues)
    (hpublished : s.published = t.published)
    (hclock : s.clock = t.clock) :
    s = t := by
  have hjobMeta : s.jobMeta = t.jobMeta :=
    funext fun id => Value.fields.inj (hvalue (.indexed .jobMeta id))
  have hinflight : s.inflightJobs = t.inflightJobs :=
    funext fun worker => Value.set.inj (hvalue (.indexed .inflight worker))
  have hmetadata : s.workerMetadata = t.workerMetadata :=
    funext fun worker => Value.fields.inj (hvalue (.indexed .workersMetadata worker))
  have hidempotency : s.idempotency = t.idempotency :=
    funext fun key => Value.string.inj (hvalue (.indexed .idempotency key))
  have hdata := Value.data.inj (hvalue (.plain .data))
  have hactive := Value.list.inj (hvalue (.plain .active))
  have hscheduled := Value.sortedSet.inj (hvalue (.plain .scheduled))
  have hdone := Value.set.inj (hvalue (.plain .done))
  have hdead := Value.set.inj (hvalue (.plain .dead))
  have hworkers := Value.sortedSet.inj (hvalue (.plain .workers))
  have hsignal := Value.list.inj (hvalue (.plain .signal))
  cases s
  cases t
  simp_all only

/-- A Redis that several queues share: its keys, messages and clock. -/
structure Keyspace where
  keys : String → Value
  published : List (String × String)
  clock : Nat

namespace Keyspace

/-- What a queue finds at its keys. -/
def view (k : Keyspace) (queue : String) : Store where
  jobData := (k.keys ((Cell.plain .data).name queue)).asData
  jobMeta taskId := (k.keys ((Cell.indexed .jobMeta taskId).name queue)).asFields
  activeJobs := (k.keys ((Cell.plain .active).name queue)).asList
  scheduledJobs := (k.keys ((Cell.plain .scheduled).name queue)).asSortedSet
  inflightJobs worker := (k.keys ((Cell.indexed .inflight worker).name queue)).asSet
  doneJobs := (k.keys ((Cell.plain .done).name queue)).asSet
  deadJobs := (k.keys ((Cell.plain .dead).name queue)).asSet
  workers := (k.keys ((Cell.plain .workers).name queue)).asSortedSet
  workerMetadata worker := (k.keys ((Cell.indexed .workersMetadata worker).name queue)).asFields
  signal := (k.keys ((Cell.plain .signal).name queue)).asList
  idempotency key := (k.keys ((Cell.indexed .idempotency key).name queue)).asString
  queues := (k.keys queuesList.name).asSortedSet
  published := k.published
  clock := k.clock

open Classical in
/-- What has changed in a queue's store is written to the queue's keys and to the
registry.  A key of another type, which Redis would refuse to change, is replaced;
only a queue that shares a key with another one has such keys. -/
noncomputable def put (k : Keyspace) (queue : String) (s : Store) : Keyspace where
  keys key :=
    if h : ∃ c : Cell, c.name queue = key then
      if h.choose.value s = h.choose.value (k.view queue) then k.keys key
      else h.choose.value s
    else if key = queuesList.name then
      if s.queues = (k.view queue).queues then k.keys key else .sortedSet s.queues
    else k.keys key
  published := s.published
  clock := s.clock

/-- An operation that is configured for the queue. -/
noncomputable def exec (k : Keyspace) (rt : Runtime) (queue : String) (op : Op) : Keyspace :=
  k.put queue ((op.exec rt queue).run (k.view queue)).2

/-- A view has every key as its cell takes it. -/
theorem value_view
    (k : Keyspace)
    (queue : String)
    (c : Cell) :
    c.value (k.view queue) = c.cast (k.keys (c.name queue)) := by
  rcases c with role | ⟨role, suffix⟩ <;> cases role <;> rfl

open Classical in
theorem put_name
    (k : Keyspace)
    (queue : String)
    (s : Store)
    (c : Cell) :
    (k.put queue s).keys (c.name queue) =
      if c.value s = c.value (k.view queue) then k.keys (c.name queue) else c.value s := by
  have h : ∃ d : Cell, d.name queue = c.name queue := ⟨c, rfl⟩
  unfold put
  dsimp only
  rw [dif_pos h, Cell.name_injective queue h.choose_spec]

theorem put_of_foreign
    (k : Keyspace)
    (queue : String)
    (s : Store)
    {key : String}
    (hcells : ∀ c : Cell, c.name queue ≠ key)
    (hregistry : key ≠ queuesList.name) :
    (k.put queue s).keys key = k.keys key := by
  have h : ¬∃ c : Cell, c.name queue = key := fun ⟨c, hc⟩ => hcells c hc
  unfold put
  dsimp only
  rw [dif_neg h, if_neg hregistry]

end Keyspace

/-- Every key of a queue has a word that the registry's name has not. -/
theorem Cell.exists_word
    (c : Cell) :
    ∃ word ∈ c.tail.splitOn ':', word ∉ queuesList.name.toList.splitOn ':' := by
  cases c with
  | plain role =>
      refine ⟨role.word.toList, ?_, ?_⟩
      · rw [Cell.tail, List.splitOn_eq_singleton role.no_colon]
        exact List.mem_singleton_self _
      · cases role <;> decide +kernel
  | indexed role suffix =>
      have hword : ∃ word ∈ role.word.toList.splitOn ':',
          word ∉ queuesList.name.toList.splitOn ':' := by
        cases role <;> decide +kernel
      obtain ⟨word, hmem, hnew⟩ := hword
      refine ⟨word, ?_, hnew⟩
      rw [Cell.tail, List.splitOn_append_cons_self]
      exact List.mem_append_left _ hmem

/-- No key of a queue is the registry. -/
theorem Cell.name_ne_queuesList
    (queue : String)
    (c : Cell) :
    c.name queue ≠ queuesList.name := by
  intro h
  obtain ⟨word, hmem, hnew⟩ := c.exists_word
  refine hnew ?_
  rw [← h, c.toList_name, List.splitOn_append_cons_self]
  exact List.mem_append_right _ hmem

/-- Different queues have different names in the registry. -/
theorem workersSet_injective :
    Function.Injective fun queue => (Keys.workersSet queue).name := by
  intro queue queue' h
  have hchars := congrArg String.toList h
  simp only [Keys.workersSet_name, String.toList_append, List.append_cancel_right_eq] at hchars
  exact String.toList_inj.mp hchars

/-- What was put is what the queue finds. -/
theorem Keyspace.view_put
    (k : Keyspace)
    (queue : String)
    (s : Store) :
    (k.put queue s).view queue = s := by
  classical
  have hregistry : ((k.put queue s).view queue).queues = s.queues := by
    have hnone : ¬∃ c : Cell, c.name queue = queuesList.name :=
      fun ⟨c, hc⟩ => c.name_ne_queuesList queue hc
    change ((k.put queue s).keys queuesList.name).asSortedSet = s.queues
    unfold Keyspace.put
    dsimp only
    rw [dif_neg hnone, if_pos rfl]
    split
    · next hsame => exact hsame.symm
    · rfl
  refine Store.eq_of_values (fun c => ?_) hregistry rfl rfl
  rw [Keyspace.value_view, Keyspace.put_name]
  split
  · next hsame => rw [← Keyspace.value_view, hsame]
  · exact c.cast_value s

/-- **A queue's operations on all of Redis are those on its store.** -/
theorem Keyspace.view_exec
    (k : Keyspace)
    (rt : Runtime)
    (queue : String)
    (op : Op) :
    (k.exec rt queue op).view queue = ((op.exec rt queue).run (k.view queue)).2 :=
  k.view_put queue _

/-- The two stores differ in what all queues share at most. -/
def Store.SameQueue (s t : Store) : Prop :=
  t = { s with queues := t.queues, published := t.published, clock := t.clock }

/-- The queues have no key in common, and no operation on the first one changes
what the second one finds at its keys. -/
structure Isolated (queue queue' : String) : Prop where
  disjoint : ∀ c d : Cell, c.Proper → d.Proper → c.name queue ≠ d.name queue'
  unchanged : ∀ (rt : Runtime) (op : Op) (k : Keyspace),
    (k.view queue').SameQueue ((k.exec rt queue op).view queue')

/-- **Which queues are isolated**: those of which none is nested in the other. -/
theorem isolated_iff
    (queue queue' : String)
    (hne : queue ≠ queue') :
    Isolated queue queue' ↔ ¬Nested queue queue' ∧ ¬Nested queue' queue := by
  rw [← not_or]
  constructor
  · intro h hnested
    obtain ⟨c, d, hc, hd, hname⟩ := (collides_iff hne).mpr hnested
    exact h.disjoint c d hc hd hname
  · intro hnested
    have hforeign : ∀ c d : Cell, c.name queue ≠ d.name queue' :=
      fun c d hname => hnested (nested_of_name_eq hne hname)
    refine ⟨fun c d _ _ => hforeign c d, fun rt op k => ?_⟩
    have hkeys : ∀ d : Cell, (k.exec rt queue op).keys (d.name queue') =
        k.keys (d.name queue') := fun d =>
      k.put_of_foreign queue _ (fun c => hforeign c d) (d.name_ne_queuesList queue')
    unfold Store.SameQueue Keyspace.view
    simp only [hkeys]

/-- Two queues without a `:` in their names are isolated. -/
theorem isolated_email_sms :
    Isolated "email" "sms" := by
  refine (isolated_iff "email" "sms" (by decide)).mpr ⟨?_, ?_⟩
  · rintro ⟨role, hnested⟩
    cases role <;> exact absurd hnested (by decide)
  · rintro ⟨role, hnested⟩
    cases role <;> exact absurd hnested (by decide)

/-- The metadata hash of the task `data` of one queue is the data hash of the other. -/
theorem nested_not_isolated :
    ¬Isolated "q" "q:meta" :=
  fun h => h.disjoint (.indexed .jobMeta "data") (.plain .data) trivial trivial (by decide)

end ApalisRedis
