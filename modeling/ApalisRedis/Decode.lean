import ApalisRedis.Lua.FetchNext

/-!
# Decoding a fetched batch

`deserialize_with_meta` turns the reply of `fetch_next.lua` into tasks.  The
metadata of a task come back as one flat list of fields, in which the fields of
the queue and the user's own fields share their names.

**Results.**
* `readFields_flatten`: a flat list of fields is read back as the hash it lists.
* `deserialize_reply`: decoding a reply is decoding each of its tasks from the store.
* `exists_taskAt`: the tasks that can be decoded.
-/

namespace ApalisRedis

open Lua Redis

section Traversals

variable {ε α β : Type}

theorem bind_eq_ok
    {x : Except ε α}
    {f : α → Except ε β}
    {b : β} :
    (x >>= f) = .ok b ↔ ∃ a, x = .ok a ∧ f a = .ok b := by
  cases x with
  | error e => simp [bind, Except.bind]
  | ok a => simp [bind, Except.bind]

/-- A traversal succeeds with `ys` when every element succeeds with its own. -/
theorem mapM_eq_ok
    {f : α → Except ε β}
    {xs : List α}
    {ys : List β} :
    xs.mapM f = .ok ys ↔ xs.map f = ys.map .ok := by
  induction xs generalizing ys with
  | nil =>
      cases ys <;> simp [pure, Except.pure]
  | cons x xs ih =>
      rw [List.mapM_cons, bind_eq_ok, List.map_cons]
      constructor
      · rintro ⟨y, hy, hrest⟩
        obtain ⟨ys', hys', heq⟩ := bind_eq_ok.mp hrest
        cases heq
        rw [List.map_cons, hy, ih.mp hys']
      · intro h
        cases ys with
        | nil => cases h
        | cons y ys' =>
            obtain ⟨hy, hys'⟩ := List.cons.inj h
            exact ⟨y, hy, bind_eq_ok.mpr ⟨ys', ih.mpr hys', rfl⟩⟩

theorem exists_mapM_eq_ok
    {f : α → Except ε β}
    {xs : List α} :
    (∃ ys, xs.mapM f = .ok ys) ↔ ∀ x ∈ xs, ∃ y, f x = .ok y := by
  constructor
  · rintro ⟨ys, hys⟩ x hx
    have hmem : f x ∈ ys.map .ok := mapM_eq_ok.mp hys ▸ List.mem_map_of_mem hx
    obtain ⟨y, -, hy⟩ := List.mem_map.mp hmem
    exact ⟨y, hy.symm⟩
  · intro h
    induction xs with
    | nil => exact ⟨[], rfl⟩
    | cons x xs ih =>
        obtain ⟨y, hy⟩ := h x (by simp)
        obtain ⟨ys, hys⟩ := ih fun x' hx' => h x' (List.mem_cons_of_mem _ hx')
        refine ⟨y :: ys, mapM_eq_ok.mpr ?_⟩
        rw [List.map_cons, List.map_cons, hy, mapM_eq_ok.mp hys]

theorem mem_of_mapM_eq_ok
    {f : α → Except ε β}
    {xs : List α}
    {ys : List β}
    (h : xs.mapM f = .ok ys)
    {y : β} :
    y ∈ ys ↔ ∃ x ∈ xs, f x = .ok y := by
  rw [← List.mem_map, mapM_eq_ok.mp h]
  simp

/-- A traversal gives at each place what the element there gives. -/
theorem mapM_getElem?
    {f : α → Except ε β}
    {xs : List α}
    {ys : List β}
    (h : xs.mapM f = .ok ys)
    {i : Nat}
    {x : α}
    (hx : xs[i]? = some x)
    {y : β}
    (hy : ys[i]? = some y) :
    f x = .ok y := by
  have hplace := congrArg (fun list : List (Except ε β) => list[i]?) (mapM_eq_ok.mp h)
  rw [List.getElem?_map, List.getElem?_map, hx, hy] at hplace
  exact Option.some.inj hplace

theorem toOption_eq_some
    {outcome : Except ε α}
    {a : α} :
    outcome.toOption = some a ↔ outcome = .ok a := by
  cases outcome with
  | error e => simp [Except.toOption]
  | ok b => simp [Except.toOption]

end Traversals

/-- The types of `apalis_core` that the crate prints and parses. -/
structure Core where
  TaskId : Type
  printTaskId : TaskId → String
  parseTaskId : String → Except String TaskId
  Status : Type
  printStatus : Status → String
  parseStatus : String → Except String Status
  parse_printStatus : ∀ status, parseStatus (printStatus status) = .ok status
  pending : Status
  print_pending : printStatus pending = "Pending"

namespace Core

variable (core : Core)

/-- The text that a text becomes when it is parsed as an id and printed again. -/
def reread (text : String) : Except String String :=
  (core.parseTaskId text).map core.printTaskId

/-- The text is read back as it is.  A text that parses need not be: one such as
`007` may be read as a number. -/
def ReadsBack (text : String) : Prop :=
  core.reread text = .ok text

/-- `TaskId` parses what it prints. -/
def ParsesPrinted : Prop :=
  ∀ id, core.parseTaskId (core.printTaskId id) = .ok id

variable {core}

theorem reread_eq_ok
    {text again : String} :
    core.reread text = .ok again ↔
      ∃ id, core.parseTaskId text = .ok id ∧ core.printTaskId id = again := by
  unfold reread
  cases core.parseTaskId text with
  | error message => simp [Except.map]
  | ok id => simp [Except.map]

theorem reread_of_parse
    {text : String}
    {id : core.TaskId}
    (h : core.parseTaskId text = .ok id) :
    core.reread text = .ok (core.printTaskId id) :=
  reread_eq_ok.mpr ⟨id, h, rfl⟩

/-- A printed id is read back when ids parse as they are printed. -/
theorem ParsesPrinted.readsBack
    (hcodec : core.ParsesPrinted)
    (id : core.TaskId) :
    core.ReadsBack (core.printTaskId id) :=
  reread_of_parse (hcodec id)

theorem ParsesPrinted.injective
    (hcodec : core.ParsesPrinted) :
    Function.Injective core.printTaskId := by
  intro id id' h
  have hparse := hcodec id
  rw [h, hcodec] at hparse
  exact (Except.ok.inj hparse).symm

/-- What a text that is read back parses to prints as the text. -/
theorem ReadsBack.print
    {text : String}
    {id : core.TaskId}
    (h : core.ReadsBack text)
    (hparse : core.parseTaskId text = .ok id) :
    core.printTaskId id = text :=
  Except.ok.inj ((reread_of_parse hparse).symm.trans h)

end Core

/-- `redis::Value`.  The variants that the crate never looks into are `other`. -/
inductive RedisValue where
  | nil
  | int (n : Int)
  | bulkString (bytes : ByteArray)
  | array (values : List RedisValue)
  | other (variant : String)

/-- `str_from_val` -/
def strFromVal (val : RedisValue) (field : String) : Except String String :=
  match val with
  | .bulkString bytes =>
      match String.fromUTF8? bytes with
      | some text => .ok text
      | none => .error (field ++ " not UTF-8")
  | _ => .error (field ++ " not bulk string")

/-- `CompactTask`, whose `meta` is called `metadata` here. -/
structure CompactTask (core : Core) where
  data : Bytes
  attempts : Nat
  maxAttempts : Nat
  status : core.Status
  taskId : core.TaskId
  idempotencyKey : Option String
  metadata : Hash String
  lockBy : Option String
  lockAt : Option Nat

/-- `RedisTask`, with what the crate reads of a task or sets in it. -/
structure RedisTask (core : Core) where
  args : Bytes
  taskId : Option core.TaskId
  status : core.Status
  metadata : Hash String
  lockBy : Option String
  lockAt : Option Nat
  attempt : Nat
  maxAttempts : Option Nat
  idempotencyKey : Option String
  runAt : Option Nat

section Decoder

variable (core : Core)

/-- `CompactTask::into_full_compact` -/
def CompactTask.intoFullCompact {core : Core} (task : CompactTask core) : RedisTask core where
  args := task.data
  taskId := some task.taskId
  status := task.status
  metadata := task.metadata
  lockBy := task.lockBy
  lockAt := task.lockAt
  attempt := task.attempts
  maxAttempts := some task.maxAttempts
  idempotencyKey := task.idempotencyKey
  runAt := none

/-- The loop over the chunks of two: a later field replaces an earlier one. -/
def readFields : List RedisValue → Hash String → Except String (Hash String)
  | key :: value :: rest, fields => do
      let k ← strFromVal key "meta key"
      let v ← strFromVal value "meta value"
      readFields rest (fields.insert k v)
  | _, fields => .ok fields

/-- A field that must be there and must parse. -/
def requiredField {α : Type} (fields : Hash String) (field : String)
    (parse : String → Except String α) : Except String α :=
  match fields.lookup field with
  | none => .error ("Missing " ++ field ++ " in metadata")
  | some text => parse text

/-- The second half of the loop body: the queue's own fields are taken out of
the metadata one by one, and what is left is the user's. -/
def takeFields (data : Bytes) (taskId : core.TaskId) (fields : Hash String) :
    Except String (CompactTask core) := do
  let attempts ← requiredField fields "attempts" (Rust.parseUnsigned 32)
  let fields := fields.erase "attempts"
  let maxAttempts ← requiredField fields "max_attempts" (Rust.parseUnsigned 32)
  let fields := fields.erase "max_attempts"
  let status ← requiredField fields "status" core.parseStatus
  let fields := fields.erase "status"
  let idempotencyKey := (fields.lookup "idempotency_key").filter fun key => key ≠ ""
  let fields := fields.erase "idempotency_key"
  let lockBy := fields.lookup "locked_by"
  let fields := fields.erase "locked_by"
  let lockAt := (fields.lookup "locked_at").map fun text =>
    (Rust.parseUnsigned 64 text).toOption.getD 0
  let fields := fields.erase "locked_at"
  .ok ⟨data, attempts, maxAttempts, status, taskId, idempotencyKey, fields, lockBy, lockAt⟩

/-- The body of the loop over the batch. -/
def deserializeTask : RedisValue × RedisValue → Except String (CompactTask core)
  | (.bulkString data, .array (idVal :: rest)) => do
      let text ← strFromVal idVal "task_id"
      let taskId ← core.parseTaskId text
      if rest.length % 2 ≠ 0 then
        .error "Metadata field/value count is odd"
      else
        let fields ← readFields rest ∅
        takeFields core data taskId fields
  | (.bulkString _, .array []) => .error "Metadata array too short"
  | (.bulkString _, _) => .error "Invalid metadata format"
  | _ => .error "Invalid job data format"

/-- `deserialize_with_meta` -/
def deserializeWithMeta : List RedisValue → Except String (List (CompactTask core))
  | [.array jobDataList, .array metaList] =>
      if jobDataList.length ≠ metaList.length then
        .error "Job data and metadata length mismatch"
      else
        (jobDataList.zip metaList).mapM (deserializeTask core)
  | [.array _, _] => .error "Expected metadata to be array"
  | [_, _] => .error "Expected job_data to be array"
  | [] | [_] => .error "Expected two elements: job_data and metadata"
  | _ => .error "Expected exactly two elements"

end Decoder

/-- A text as Redis sends it. -/
def bulk (text : String) : RedisValue :=
  .bulkString text.toUTF8

/-- An entry of the data array: absent data is `nil`. -/
def dataValue : Option Bytes → RedisValue
  | none => .nil
  | some data => .bulkString data

/-- An entry of the metadata array. -/
def rowValue (row : List String) : RedisValue :=
  .array (row.map bulk)

/-- The reply of `fetch_next.lua` as the client sees it. -/
def Lua.FetchReply.values (reply : FetchReply) : List RedisValue :=
  [.array (reply.1.map dataValue), .array (reply.2.map rowValue)]

/-- A Rust string is valid UTF-8, so it is read back as it was. -/
@[simp] theorem strFromVal_bulk
    (text field : String) :
    strFromVal (bulk text) field = .ok text := by
  have hread : String.fromUTF8? text.toUTF8 = some text := by
    rw [String.fromUTF8?, String.toUTF8_eq_toByteArray, dif_pos text.isValidUTF8]
    rfl
  simp only [strFromVal, bulk, hread]

/-- Reading the fields of a flat list sets them from left to right. -/
theorem readFields_flatten
    (fs : List (String × String))
    (fields : Hash String) :
    readFields ((flatten fs).map bulk) fields = .ok (Hash.setAll fields fs) := by
  induction fs generalizing fields with
  | nil => rfl
  | cons f fs ih =>
      have hflat : flatten (f :: fs) = f.1 :: f.2 :: flatten fs := rfl
      rw [hflat, List.map_cons, List.map_cons, readFields, strFromVal_bulk, strFromVal_bulk]
      exact ih _

theorem length_flatten
    (fs : List (String × String)) :
    (flatten fs).length = 2 * fs.length := by
  induction fs with
  | nil => rfl
  | cons f fs ih =>
      have hflat : flatten (f :: fs) = f.1 :: f.2 :: flatten fs := rfl
      rw [hflat, List.length_cons, List.length_cons, List.length_cons, ih]
      omega

theorem setAll_fields
    (rt : Runtime)
    (h : Hash String) :
    Hash.setAll ∅ (rt.fields h) = h := by
  refine Finmap.ext_lookup fun k => ?_
  rw [rt.lookup_setAll_fields, Finmap.lookup_empty, Option.or_none]

/-- The task that a fetch of `id` decodes. -/
def Store.taskAt (s : Store) (core : Core) (id : String) : Except String (CompactTask core) :=
  match s.jobData.lookup id with
  | none => .error "Invalid job data format"
  | some data => do
      let taskId ← core.parseTaskId id
      takeFields core data taskId (s.jobMeta id)

/-- The fields that decoding takes out of the metadata. -/
def reservedFields : List String :=
  ["attempts", "max_attempts", "status", "idempotency_key", "locked_by", "locked_at"]

/-- The decoded task when the three required fields parse. -/
def takenTask (core : Core) (data : Bytes) (taskId : core.TaskId) (fields : Hash String)
    (attempts maxAttempts : Nat) (status : core.Status) : CompactTask core where
  data := data
  attempts := attempts
  maxAttempts := maxAttempts
  status := status
  taskId := taskId
  idempotencyKey := (fields.lookup "idempotency_key").filter fun key => key ≠ ""
  metadata := Hash.eraseAll fields reservedFields
  lockBy := fields.lookup "locked_by"
  lockAt := (fields.lookup "locked_at").map fun text =>
    (Rust.parseUnsigned 64 text).toOption.getD 0

theorem requiredField_eq_ok
    {α : Type}
    {fields : Hash String}
    {field : String}
    {parse : String → Except String α}
    {a : α} :
    requiredField fields field parse = .ok a ↔
      ∃ text, fields.lookup field = some text ∧ parse text = .ok a := by
  unfold requiredField
  cases fields.lookup field with
  | none => simp
  | some text => simp

theorem requiredField_erase
    {α : Type}
    (fields : Hash String)
    {taken field : String}
    (hne : field ≠ taken)
    (parse : String → Except String α) :
    requiredField (fields.erase taken) field parse = requiredField fields field parse := by
  simp [requiredField, hne]

/-- Taking the fields out one by one does not hide one from another. -/
theorem takeFields_eq
    (core : Core)
    (data : Bytes)
    (taskId : core.TaskId)
    (fields : Hash String) :
    takeFields core data taskId fields = (do
      let attempts ← requiredField fields "attempts" (Rust.parseUnsigned 32)
      let maxAttempts ← requiredField fields "max_attempts" (Rust.parseUnsigned 32)
      let status ← requiredField fields "status" core.parseStatus
      .ok (takenTask core data taskId fields attempts maxAttempts status)) := by
  have hmax : requiredField (fields.erase "attempts") "max_attempts" (Rust.parseUnsigned 32) =
      requiredField fields "max_attempts" (Rust.parseUnsigned 32) :=
    requiredField_erase fields (by decide) _
  have hstatus : requiredField ((fields.erase "attempts").erase "max_attempts") "status"
      core.parseStatus = requiredField fields "status" core.parseStatus := by
    rw [requiredField_erase _ (by decide), requiredField_erase _ (by decide)]
  simp only [takeFields, hmax, hstatus]
  simp [takenTask, reservedFields, Hash.eraseAll]

section Store

variable (core : Core) (rt : Runtime) (s : Store)

theorem deserializeTask_row
    (id : String) :
    deserializeTask core (dataValue (s.jobData.lookup id),
        rowValue (id :: flatten (rt.fields (s.jobMeta id)))) =
      s.taskAt core id := by
  have heven : ((flatten (rt.fields (s.jobMeta id))).map bulk).length % 2 = 0 := by
    rw [List.length_map, length_flatten]
    omega
  have hfields : readFields ((flatten (rt.fields (s.jobMeta id))).map bulk) ∅ =
      .ok (s.jobMeta id) := by
    rw [readFields_flatten, setAll_fields]
  unfold Store.taskAt
  cases s.jobData.lookup id with
  | none => rfl
  | some data =>
      simp only [dataValue, rowValue, List.map_cons, deserializeTask, strFromVal_bulk, heven,
        hfields]
      rfl

/-- **Decoding a reply is decoding each of its tasks.** -/
theorem deserialize_reply
    (ids : List String) :
    deserializeWithMeta core (FetchReply.values (s.reply rt ids)) =
      ids.mapM (s.taskAt core) := by
  have hrow : (fun id => deserializeTask core (dataValue (s.jobData.lookup id),
      rowValue (id :: flatten (rt.fields (s.jobMeta id))))) = s.taskAt core :=
    funext fun id => deserializeTask_row core rt s id
  simp only [FetchReply.values, Store.reply, deserializeWithMeta, List.length_map, List.map_map,
    List.zip_map', ne_eq, not_true, if_false, List.mapM_map]
  exact congrArg (fun decode => ids.mapM decode) hrow

/-- The task can be decoded: its id parses, its data is stored, and the three
required fields are there and parse. -/
structure Store.WellFormed (id : String) : Prop where
  named : ∃ taskId, core.parseTaskId id = .ok taskId
  stored : id ∈ s.jobData
  attempts : ∃ n, requiredField (s.jobMeta id) "attempts" (Rust.parseUnsigned 32) = .ok n
  maxAttempts :
    ∃ n, requiredField (s.jobMeta id) "max_attempts" (Rust.parseUnsigned 32) = .ok n
  status : ∃ status, requiredField (s.jobMeta id) "status" core.parseStatus = .ok status

variable {s core} in
theorem taskAt_eq_ok
    {id : String}
    {task : CompactTask core} :
    s.taskAt core id = .ok task ↔
      ∃ data taskId attempts maxAttempts status,
        s.jobData.lookup id = some data ∧ core.parseTaskId id = .ok taskId ∧
        requiredField (s.jobMeta id) "attempts" (Rust.parseUnsigned 32) = .ok attempts ∧
        requiredField (s.jobMeta id) "max_attempts" (Rust.parseUnsigned 32) = .ok maxAttempts ∧
        requiredField (s.jobMeta id) "status" core.parseStatus = .ok status ∧
        takenTask core data taskId (s.jobMeta id) attempts maxAttempts status = task := by
  unfold Store.taskAt
  cases s.jobData.lookup id with
  | none => simp
  | some data =>
      simp only [takeFields_eq, bind_eq_ok, Except.ok.injEq, Option.some.injEq]
      constructor
      · rintro ⟨taskId, hid, attempts, ha, maxAttempts, hm, status, hs, rfl⟩
        exact ⟨data, taskId, attempts, maxAttempts, status, rfl, hid, ha, hm, hs, rfl⟩
      · rintro ⟨_, taskId, attempts, maxAttempts, status, rfl, hid, ha, hm, hs, rfl⟩
        exact ⟨taskId, hid, attempts, ha, maxAttempts, hm, status, hs, rfl⟩

/-- **The tasks that can be decoded.** -/
theorem exists_taskAt
    {id : String} :
    (∃ task, s.taskAt core id = .ok task) ↔ s.WellFormed core id := by
  constructor
  · rintro ⟨task, htask⟩
    obtain ⟨data, taskId, attempts, maxAttempts, status, hdata, hid, ha, hm, hs, -⟩ :=
      taskAt_eq_ok.mp htask
    exact ⟨⟨taskId, hid⟩, Finmap.mem_of_lookup_eq_some hdata, ⟨attempts, ha⟩,
      ⟨maxAttempts, hm⟩, ⟨status, hs⟩⟩
  · rintro ⟨⟨taskId, hid⟩, hstored, ⟨attempts, ha⟩, ⟨maxAttempts, hm⟩, ⟨status, hs⟩⟩
    obtain ⟨data, hdata⟩ := Finmap.mem_iff.mp hstored
    exact ⟨_, taskAt_eq_ok.mpr
      ⟨data, taskId, attempts, maxAttempts, status, hdata, hid, ha, hm, hs, rfl⟩⟩

end Store

end ApalisRedis
