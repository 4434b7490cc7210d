import ApalisRedis.Isolation

/-!
# Keys by their names

Some scripts are handed keys that are not the queue's, or whose values have
another type than the script expects.  These commands act on all of Redis and
raise on a key of another type.

**Results.**
* `run_readAt_ok`, `run_updateAt_ok`: commands on a key of their type.
* `typedFor_execAll`: a queue that is alone has its keys in its own types.
* `execAll_bare`: no operation of a queue touches the queue's bare name.
-/

namespace ApalisRedis

open Redis Script

/-- Redis keeps no empty list, set or hash. -/
def Value.absent : Value → Bool
  | list xs => xs.isEmpty
  | set xs => decide (xs = ∅)
  | sortedSet z => decide (z.keys = ∅)
  | fields h => decide (h.keys = ∅)
  | data h => decide (h.keys = ∅)
  | string claim => claim.isNone

/-- A type of Redis values, with the values of other types refused. -/
structure Kind (α : Type) where
  wrap : α → Value
  unwrap : Value → Option α

namespace Kind

def list : Kind (List String) where
  wrap := .list
  unwrap
    | .list xs => some xs
    | v => if v.absent then some [] else none

def set : Kind (Finset String) where
  wrap := .set
  unwrap
    | .set xs => some xs
    | v => if v.absent then some ∅ else none

def sortedSet : Kind ZSet where
  wrap := .sortedSet
  unwrap
    | .sortedSet z => some z
    | v => if v.absent then some ∅ else none

def fields : Kind (Hash String) where
  wrap := .fields
  unwrap
    | .fields h => some h
    | v => if v.absent then some ∅ else none

end Kind

/-- One key is written. -/
def Keyspace.write (k : Keyspace) (key : String) (v : Value) : Keyspace :=
  { k with keys := Function.update k.keys key v }

@[simp] theorem write_self
    (k : Keyspace)
    (key : String)
    (v : Value) :
    (k.write key v).keys key = v := by
  simp [Keyspace.write]

theorem write_of_ne
    (k : Keyspace)
    {key key' : String}
    (hne : key' ≠ key)
    (v : Value) :
    (k.write key v).keys key' = k.keys key' := by
  simp [Keyspace.write, hne]

def wrongType : String :=
  "WRONGTYPE Operation against a key holding the wrong kind of value"

section Commands

variable {α β : Type} (kind : Kind α) (key : String)

/-- A command that reads one key. -/
def readAt (f : α → β) : Script Keyspace β :=
  fun k =>
    match kind.unwrap (k.keys key) with
    | some a => (.ok (f a), k)
    | none => (.error wrongType, k)

/-- A command that writes one key. -/
def updateAt (f : α → α) : Script Keyspace Unit :=
  fun k =>
    match kind.unwrap (k.keys key) with
    | some a => (.ok (), k.write key (kind.wrap (f a)))
    | none => (.error wrongType, k)

variable {kind key}

theorem run_readAt_ok
    {k : Keyspace}
    {a : α}
    (h : kind.unwrap (k.keys key) = some a)
    (f : α → β) :
    (readAt kind key f).run k = (.ok (f a), k) := by
  simp only [readAt, Script.run, h]

theorem run_readAt_error
    {k : Keyspace}
    (h : kind.unwrap (k.keys key) = none)
    (f : α → β) :
    (readAt kind key f).run k = (.error wrongType, k) := by
  simp only [readAt, Script.run, h]

/-- A key that is read has its type, and is left as it is. -/
theorem run_readAt_eq_ok
    {k t : Keyspace}
    {f : α → β}
    {b : β} :
    (readAt kind key f).run k = (.ok b, t) ↔
      ∃ a, kind.unwrap (k.keys key) = some a ∧ f a = b ∧ t = k := by
  cases h : kind.unwrap (k.keys key) with
  | none => simp [run_readAt_error h]
  | some a => simp [run_readAt_ok h, eq_comm]

/-- What raises after every reply raises. -/
theorem run_readAt_bind_raises
    {γ : Type}
    {k : Keyspace}
    {f : α → β}
    {g : β → Script Keyspace γ}
    (hraises : ∀ b, ∃ e, (g b).run k = (.error e, k)) :
    ∃ e, (readAt kind key f >>= g).run k = (.error e, k) := by
  cases h : kind.unwrap (k.keys key) with
  | none => exact ⟨wrongType, run_bind_error (run_readAt_error h f) g⟩
  | some a =>
      rw [run_bind_ok (run_readAt_ok h f)]
      exact hraises (f a)

theorem run_updateAt_ok
    {k : Keyspace}
    {a : α}
    (h : kind.unwrap (k.keys key) = some a)
    (f : α → α) :
    (updateAt kind key f).run k =
      (.ok (), k.write key (kind.wrap (f a))) := by
  simp only [updateAt, Script.run, h]

theorem run_updateAt_error
    {k : Keyspace}
    (h : kind.unwrap (k.keys key) = none)
    (f : α → α) :
    (updateAt kind key f).run k = (.error wrongType, k) := by
  simp only [updateAt, Script.run, h]

/-- A key that is written had its type. -/
theorem run_updateAt_eq_ok
    {k t : Keyspace}
    {f : α → α} :
    (updateAt kind key f).run k = (.ok (), t) ↔
      ∃ a, kind.unwrap (k.keys key) = some a ∧ t = k.write key (kind.wrap (f a)) := by
  cases h : kind.unwrap (k.keys key) with
  | none => simp [run_updateAt_error h]
  | some a => simp [run_updateAt_ok h, eq_comm]

/-- What a write keeps is kept when the write is refused, too. -/
theorem run_updateAt_keeps
    {I : Keyspace → Prop}
    {k : Keyspace}
    {f : α → α}
    (hk : I k)
    (hwrite : ∀ a, kind.unwrap (k.keys key) = some a → I (k.write key (kind.wrap (f a)))) :
    I ((updateAt kind key f).run k).2 := by
  cases h : kind.unwrap (k.keys key) with
  | none => rwa [run_updateAt_error h]
  | some a =>
      rw [run_updateAt_ok h]
      exact hwrite a h

end Commands

/-- What a queue's script reads at the queue's own keys. -/
def reading {α : Type} (queue : String) (x : Script Store α) : Script Keyspace α :=
  fun k => ((x.run (k.view queue)).1, k)

/-- A Redis without keys. -/
def Keyspace.empty : Keyspace where
  keys _ := .string none
  published := []
  clock := 0

/-- Several operations that are configured for the queue. -/
noncomputable def Keyspace.execAll (k : Keyspace) (rt : Runtime) (queue : String)
    (ops : List Op) : Keyspace :=
  ops.foldl (fun k op => k.exec rt queue op) k

theorem view_execAll
    (rt : Runtime)
    (queue : String)
    (ops : List Op) :
    ∀ k : Keyspace, (k.execAll rt queue ops).view queue = runOps rt queue ops (k.view queue) := by
  induction ops with
  | nil => exact fun _ => rfl
  | cons op ops ih =>
      intro k
      exact (ih _).trans (congrArg (runOps rt queue ops) (k.view_exec rt queue op))

/-- The queue's keys have the queue's types. -/
def Keyspace.TypedFor (k : Keyspace) (queue : String) : Prop :=
  ∀ c : Cell, k.keys (c.name queue) = Keyspace.empty.keys (c.name queue) ∨
    k.keys (c.name queue) = c.value (k.view queue)

theorem Keyspace.TypedFor.put
    {k : Keyspace}
    {queue : String}
    (h : k.TypedFor queue)
    (s : Store) :
    (k.put queue s).TypedFor queue := by
  classical
  intro c
  rw [k.put_name, k.view_put]
  split
  · next hsame =>
      rw [hsame]
      exact h c
  · exact .inr rfl

/-- A queue that is alone writes its keys as it reads them. -/
theorem typedFor_execAll
    (rt : Runtime)
    (queue : String)
    (ops : List Op) :
    (Keyspace.empty.execAll rt queue ops).TypedFor queue := by
  induction ops using List.reverseRecOn with
  | nil => exact fun c => .inl rfl
  | append_singleton ops op ih =>
      rw [Keyspace.execAll, List.foldl_append]
      exact ih.put _

/-- The keys of a queue are longer than its name. -/
theorem Cell.name_ne_queue
    (queue : String)
    (c : Cell) :
    c.name queue ≠ queue := by
  intro h
  have hlength := congrArg (fun name => name.toList.length) h
  simp only [c.toList_name, List.length_append, List.length_cons] at hlength
  omega

/-- No operation of a queue touches a key that is not the queue's. -/
theorem execAll_foreign
    (rt : Runtime)
    {queue key : String}
    (hcells : ∀ c : Cell, c.name queue ≠ key)
    (hregistry : key ≠ queuesList.name)
    (ops : List Op) :
    ∀ k : Keyspace, (k.execAll rt queue ops).keys key = k.keys key := by
  induction ops with
  | nil => exact fun _ => rfl
  | cons op ops ih =>
      intro k
      rw [Keyspace.execAll, List.foldl_cons]
      exact (ih _).trans (k.put_of_foreign queue _ hcells hregistry)

/-- **No operation of a queue touches the queue's bare name.** -/
theorem execAll_bare
    (rt : Runtime)
    {queue : String}
    (hregistry : queue ≠ queuesList.name)
    (ops : List Op)
    (k : Keyspace) :
    (k.execAll rt queue ops).keys queue = k.keys queue :=
  execAll_foreign rt (Cell.name_ne_queue queue) hregistry ops k

end ApalisRedis
