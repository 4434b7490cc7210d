import ApalisRedis.Events
import ApalisRedis.Idempotency
import ApalisRedis.Systems.Tables

/-!
# Argument vectors

`push_tasks` and `handle_results` flatten their records into one vector of
arguments, and each script cuts it with a loop of its own: `batch_push.lua` walks
it with the stride of a record, `handle_results.lua` computes how many records
there are and where each one starts.

**Results.**
* `length_pushGroups`, `length_resultGroups`: how many groups the loops make of any
  vector.  A group that is cut short is read past the end by the first, and dropped
  by the second.
* `argumentVectors_cut`: the loops give back the records that were flattened.
* `pushCall_pushTasks`, `resultCall_handleResults`: the scripts carry out the calls that
  were encoded.
-/

namespace ApalisRedis

open Lua Redis Script Systems

namespace Lua

/-- The locals that a turn of the loop of `batch_push.lua` takes from `ARGV`. -/
structure PushFields (α : Type) where
  taskId : α
  taskData : α
  attempts : α
  maxAttempts : α
  metadataJson : α
  scheduleTime : α
  idempotencyKey : α

/-- The locals that a turn of the loop of `handle_results.lua` takes from `ARGV`. -/
structure ResultFields (α : Type) where
  taskId : α
  timestamp : α
  resultData : α
  status : α
  attempt : α

/-- A record whose fields are all there. -/
def PushFields.present {α : Type} (f : PushFields α) : PushFields (Option α) where
  taskId := some f.taskId
  taskData := some f.taskData
  attempts := some f.attempts
  maxAttempts := some f.maxAttempts
  metadataJson := some f.metadataJson
  scheduleTime := some f.scheduleTime
  idempotencyKey := some f.idempotencyKey

def ResultFields.present {α : Type} (f : ResultFields α) : ResultFields (Option α) where
  taskId := some f.taskId
  timestamp := some f.timestamp
  resultData := some f.resultData
  status := some f.status
  attempt := some f.attempt

/-- The arguments of one record, in their order. -/
def PushFields.row (f : PushFields Bytes) : List Bytes :=
  [f.taskId, f.taskData, f.attempts, f.maxAttempts, f.metadataJson, f.scheduleTime,
    f.idempotencyKey]

def ResultFields.row (f : ResultFields Bytes) : List Bytes :=
  [f.taskId, f.timestamp, f.resultData, f.status, f.attempt]

section Loops

variable (argv : List Bytes)

/-- The head of the body of `for i = 3, #ARGV, 7`. -/
def pushFieldsAt (i : ℚ) : PushFields (Option Bytes) where
  taskId := tableGet argv i
  taskData := tableGet argv (i + 1)
  attempts := tableGet argv (i + 2)
  maxAttempts := tableGet argv (i + 3)
  metadataJson := tableGet argv (i + 4)
  scheduleTime := tableGet argv (i + 5)
  idempotencyKey := tableGet argv (i + 6)

/-- What the loop of `batch_push.lua` visits. -/
def pushGroups : List (PushFields (Option Bytes)) :=
  (numericFor 3 argv.length 7 (by norm_num)).map (pushFieldsAt argv)

/-- `args_per_task` -/
def argsPerTask : ℚ := 5

/-- `num_tasks`, which need not be whole. -/
def numTasks : ℚ :=
  (argv.length - 1) / argsPerTask

/-- The head of the body of `for i = 0, num_tasks - 1`. -/
def resultFieldsAt (i : ℚ) : ResultFields (Option Bytes) :=
  let base := i * argsPerTask + 1
  { taskId := tableGet argv (base + 1)
    timestamp := tableGet argv (base + 2)
    resultData := tableGet argv (base + 3)
    status := tableGet argv (base + 4)
    attempt := tableGet argv (base + 5) }

/-- What the loop of `handle_results.lua` visits. -/
def resultGroups : List (ResultFields (Option Bytes)) :=
  (numericFor 0 (numTasks argv - 1) 1 one_pos).map (resultFieldsAt argv)

/-- The stride of `batch_push.lua` rounds the number of groups up. -/
theorem pushGroups_eq :
    pushGroups argv = (List.range ((argv.length + 4) / 7)).map fun k : Nat =>
      pushFieldsAt argv (3 + k * 7) := by
  have hgroups : ∀ k < (argv.length + 4) / 7, (3 : ℚ) + k * 7 ≤ argv.length := by
    intro k hk
    have hle : 3 + k * 7 ≤ argv.length := by omega
    exact_mod_cast hle
  have hpast : (argv.length : ℚ) < 3 + ((argv.length + 4) / 7 : Nat) * 7 := by
    have hlt : argv.length < 3 + (argv.length + 4) / 7 * 7 := by omega
    exact_mod_cast hlt
  rw [pushGroups, numericFor_eq (by norm_num) hgroups hpast, List.map_map]
  rfl

/-- The division of `handle_results.lua` rounds it down. -/
theorem resultGroups_eq :
    resultGroups argv = (List.range ((argv.length - 1) / 5)).map fun k : Nat =>
      resultFieldsAt argv k := by
  have hgroups : ∀ k < (argv.length - 1) / 5, (0 : ℚ) + k * 1 ≤ numTasks argv - 1 := by
    intro k hk
    have hle : (k + 1) * 5 + 1 ≤ argv.length := by omega
    have hcast : ((k : ℚ) + 1) * 5 + 1 ≤ argv.length := by exact_mod_cast hle
    have hquotient : (k : ℚ) + 1 ≤ numTasks argv := by
      rw [numTasks, argsPerTask, le_div_iff₀ (by norm_num)]
      linarith
    linarith
  have hpast : numTasks argv - 1 < 0 + ((argv.length - 1) / 5 : Nat) * 1 := by
    have hlt : argv.length < ((argv.length - 1) / 5 + 1) * 5 + 1 := by omega
    have hcast : (argv.length : ℚ) < (((argv.length - 1) / 5 : Nat) + 1) * 5 + 1 := by
      exact_mod_cast hlt
    have hquotient : numTasks argv < ((argv.length - 1) / 5 : Nat) + 1 := by
      rw [numTasks, argsPerTask, div_lt_iff₀ (by norm_num)]
      linarith
    linarith
  rw [resultGroups, numericFor_eq one_pos hgroups hpast, List.map_map]
  refine List.map_congr_left fun k _ => congrArg (resultFieldsAt argv) ?_
  change (0 : ℚ) + k * 1 = k
  rw [zero_add, mul_one]

theorem length_pushGroups : (pushGroups argv).length = (argv.length + 4) / 7 := by
  rw [pushGroups_eq, List.length_map, List.length_range]

theorem length_resultGroups : (resultGroups argv).length = (argv.length - 1) / 5 := by
  rw [resultGroups_eq, List.length_map, List.length_range]

end Loops

end Lua

/-- What `ToRedisArgs` writes for a string, a number and a flag: one argument each,
as for bytes, which it writes as they are. -/
def textArg (text : String) : Bytes :=
  text.toUTF8

def numberArg (n : Nat) : Bytes :=
  textArg n.repr

def flagArg (flag : Bool) : Bytes :=
  textArg (if flag then "1" else "0")

/-- `redis::ScriptInvocation`, of which the arguments are looked at. -/
structure Invocation where
  args : List Bytes

namespace Invocation

def new : Invocation where
  args := []

/-- `ScriptInvocation::arg` -/
def arg (invocation : Invocation) (value : Bytes) : Invocation where
  args := invocation.args ++ [value]

/-- The seven calls of `push_tasks` for one task. -/
def pushArgs (script : Invocation) (f : PushFields Bytes) : Invocation :=
  ((((((script.arg f.taskId).arg f.taskData).arg f.attempts).arg f.maxAttempts).arg
    f.metadataJson).arg f.scheduleTime).arg f.idempotencyKey

/-- The five calls of `handle_results` for one payload. -/
def resultArgs (invocation : Invocation) (f : ResultFields Bytes) : Invocation :=
  ((((invocation.arg f.taskId).arg f.timestamp).arg f.resultData).arg f.status).arg f.attempt

theorem args_pushArgs
    (script : Invocation)
    (f : PushFields Bytes) :
    (script.pushArgs f).args = script.args ++ f.row := by
  simp [pushArgs, arg, PushFields.row]

theorem args_resultArgs
    (invocation : Invocation)
    (f : ResultFields Bytes) :
    (invocation.resultArgs f).args = invocation.args ++ f.row := by
  simp [resultArgs, arg, ResultFields.row]

end Invocation

/-- The fields that `push_tasks` prints for one task. -/
def Lua.PushRecord.fields (r : PushRecord) (metadataJson : String) : PushFields Bytes where
  taskId := textArg r.taskId
  taskData := r.taskData
  attempts := numberArg r.attempts
  maxAttempts := numberArg r.maxAttempts
  metadataJson := textArg metadataJson
  scheduleTime := numberArg r.scheduleTime
  idempotencyKey := textArg r.idempotencyKey

/-- The fields that `handle_results` prints for one payload. -/
def Lua.AckRecord.fields (r : AckRecord) : ResultFields Bytes where
  taskId := textArg r.taskId
  timestamp := numberArg r.timestamp
  resultData := textArg r.resultData
  status := textArg r.status
  attempt := numberArg r.attempt

section Queries

variable {core : Core} {Outcome : Type}
-- `serde_json` on the metadata of a task and on the result of a payload.
variable (metaJson : Hash String → Except String String)
variable (resultJson : Outcome → Except String String)

/-- The arguments of one task, when its metadata can be written. -/
def Submission.fields (sub : Submission core) : Except String (PushFields Bytes) := do
  let metadata ← metaJson sub.request.metadata
  pure (sub.record.fields metadata)

/-- The invocation that `push_tasks` builds. -/
def pushTasksInvocation (cfg : Config) (tasks : List (Submission core)) :
    Except String Invocation :=
  tasks.foldlM (fun script sub => do
      let f ← sub.fields metaJson
      pure (script.pushArgs f))
    ((Invocation.new.arg (numberArg cfg.ttlSeconds)).arg (flagArg cfg.emitEvents))

/-- The invocation that `handle_results` builds, if there is anything to send. -/
def handleResultsInvocation (cfg : Config) (timestamp : Nat)
    (payloads : List (TaskResult core Outcome)) : Except String (Option Invocation) :=
  if payloads.isEmpty then
    .ok none
  else
    some <$> payloads.foldlM (fun invocation payload => do
        let r ← ackRecord resultJson timestamp payload
        pure (invocation.resultArgs r.fields))
      (Invocation.new.arg (flagArg cfg.emitEvents))

end Queries

section Rows

variable {ρ : Type} {build : Invocation → ρ → Invocation} {row : ρ → List Bytes}

/-- Appending the rows in turn appends them all. -/
theorem args_foldl
    (hbuild : ∀ invocation r, (build invocation r).args = invocation.args ++ row r)
    (rows : List ρ) :
    ∀ invocation : Invocation,
      (rows.foldl build invocation).args = invocation.args ++ rows.flatMap row := by
  induction rows with
  | nil =>
      intro invocation
      rw [List.flatMap_nil, List.append_nil]
      rfl
  | cons r rows ih =>
      intro invocation
      rw [List.foldl_cons, ih, hbuild, List.flatMap_cons, List.append_assoc]

/-- A loop that can fail in the preparation of a row prepares all rows first. -/
theorem foldlM_eq_mapM
    {τ σ : Type}
    (prepare : τ → Except String ρ)
    (put : σ → ρ → σ)
    (xs : List τ) :
    ∀ s : σ, (xs.foldlM (fun s x => do
        let r ← prepare x
        pure (put s r)) s) = (fun rows => rows.foldl put s) <$> xs.mapM prepare := by
  induction xs with
  | nil => exact fun _ => rfl
  | cons x xs ih =>
      intro s
      rw [List.foldlM_cons, List.mapM_cons]
      cases hx : prepare x with
      | error e => rfl
      | ok r =>
          change xs.foldlM _ (put s r) = _
          rw [ih (put s r)]
          cases xs.mapM prepare <;> rfl

/-- Rows that read back as what they were prepared from. -/
theorem mapM_of_prepared
    {τ κ : Type}
    {prepare : τ → Except String ρ}
    {read : ρ → Option κ}
    {meant : τ → κ}
    {xs : List τ}
    {rows : List ρ}
    (hrows : xs.mapM prepare = .ok rows)
    (hread : ∀ x ∈ xs, ∀ r, prepare x = .ok r → read r = some (meant x)) :
    rows.mapM read = some (xs.map meant) := by
  replace hrows := mapM_eq_ok.mp hrows
  induction xs generalizing rows with
  | nil =>
      cases rows with
      | nil => rfl
      | cons r rows => cases hrows
  | cons x xs ih =>
      cases rows with
      | nil => cases hrows
      | cons r rows =>
          obtain ⟨hr, hrest⟩ := List.cons.inj hrows
          have hfirst := hread x List.mem_cons_self r hr
          have hlater := ih (fun y hy => hread y (List.mem_cons_of_mem x hy)) hrest
          rw [List.mapM_cons, hfirst, Option.bind_eq_bind, Option.bind_some, hlater]
          rfl

end Rows

namespace Lua

/-- A turn that reads the arguments of a record takes the record. -/
theorem pushFieldsAt_eq_present
    {argv : List Bytes}
    {i : ℚ}
    {f : PushFields Bytes}
    (hread : ∀ (j : Nat) value, f.row[j]? = some value → tableGet argv (i + j) = some value) :
    pushFieldsAt argv i = f.present := by
  unfold pushFieldsAt PushFields.present
  congr 1
  · simpa only [Nat.cast_zero, add_zero] using hread 0 f.taskId rfl
  · exact_mod_cast hread 1 f.taskData rfl
  · exact_mod_cast hread 2 f.attempts rfl
  · exact_mod_cast hread 3 f.maxAttempts rfl
  · exact_mod_cast hread 4 f.metadataJson rfl
  · exact_mod_cast hread 5 f.scheduleTime rfl
  · exact_mod_cast hread 6 f.idempotencyKey rfl

/-- The offsets of `handle_results.lua` start at one. -/
theorem resultFieldsAt_eq_present
    {argv : List Bytes}
    {i : ℚ}
    {f : ResultFields Bytes}
    (hread : ∀ (j : Nat) value, f.row[j]? = some value →
      tableGet argv (i * argsPerTask + 1 + (j + 1 : Nat)) = some value) :
    resultFieldsAt argv i = f.present := by
  unfold resultFieldsAt ResultFields.present
  dsimp only
  congr 1
  · exact_mod_cast hread 0 f.taskId rfl
  · exact_mod_cast hread 1 f.timestamp rfl
  · exact_mod_cast hread 2 f.resultData rfl
  · exact_mod_cast hread 3 f.status rfl
  · exact_mod_cast hread 4 f.attempt rfl

/-- **The loop of `batch_push.lua`** gives back the records behind two arguments. -/
theorem pushGroups_records
    (header : List Bytes)
    (hheader : header.length = 2)
    (records : List (PushFields Bytes)) :
    pushGroups (header ++ records.flatMap PushFields.row) = records.map PushFields.present := by
  have hwidth : ∀ f : PushFields Bytes, f.row.length = 7 := fun _ => rfl
  have hcount : ((header ++ records.flatMap PushFields.row).length + 4) / 7 = records.length := by
    rw [List.length_append, hheader, length_rows hwidth]
    omega
  rw [pushGroups_eq, hcount]
  refine map_range_eq_map fun k f hf => pushFieldsAt_eq_present fun j value hvalue => ?_
  have hget := tableGet_records hwidth header hf hvalue
  have hplace : ((header.length + (7 * k + j) + 1 : Nat) : ℚ) = 3 + k * 7 + j := by
    rw [hheader]
    push_cast
    ring
  rwa [hplace] at hget

/-- **The loop of `handle_results.lua`** gives back the records behind one argument. -/
theorem resultGroups_records
    (header : List Bytes)
    (hheader : header.length = 1)
    (records : List (ResultFields Bytes)) :
    resultGroups (header ++ records.flatMap ResultFields.row) =
      records.map ResultFields.present := by
  have hwidth : ∀ f : ResultFields Bytes, f.row.length = 5 := fun _ => rfl
  have hcount : ((header ++ records.flatMap ResultFields.row).length - 1) / 5 =
      records.length := by
    rw [List.length_append, hheader, length_rows hwidth]
    omega
  rw [resultGroups_eq, hcount]
  refine map_range_eq_map fun k f hf => resultFieldsAt_eq_present fun j value hvalue => ?_
  have hget := tableGet_records hwidth header hf hvalue
  have hplace : ((header.length + (5 * k + j) + 1 : Nat) : ℚ) =
      k * argsPerTask + 1 + (j + 1 : Nat) := by
    rw [hheader, argsPerTask]
    push_cast
    ring
  rwa [hplace] at hget

end Lua

section Queries

variable {core : Core} {Outcome : Type}
variable (metaJson : Hash String → Except String String)
variable (resultJson : Outcome → Except String String)
variable (cfg : Config)

/-- The records are appended behind the two arguments of the header. -/
theorem pushGroups_foldl
    (ttl flag : Bytes)
    (records : List (PushFields Bytes)) :
    pushGroups (records.foldl Invocation.pushArgs ((Invocation.new.arg ttl).arg flag)).args =
      records.map PushFields.present := by
  rw [args_foldl Invocation.args_pushArgs]
  exact pushGroups_records [ttl, flag] rfl records

theorem resultGroups_foldl
    (flag : Bytes)
    (records : List (ResultFields Bytes)) :
    resultGroups (records.foldl Invocation.resultArgs (Invocation.new.arg flag)).args =
      records.map ResultFields.present := by
  rw [args_foldl Invocation.args_resultArgs]
  exact resultGroups_records [flag] rfl records

/-- What `batch_push.lua` takes from the invocation of `push_tasks`. -/
theorem pushGroups_pushTasks
    (tasks : List (Submission core)) :
    (fun script => pushGroups script.args) <$> pushTasksInvocation metaJson cfg tasks =
      List.map PushFields.present <$> tasks.mapM (Submission.fields metaJson) := by
  rw [pushTasksInvocation, foldlM_eq_mapM]
  cases tasks.mapM (Submission.fields metaJson) with
  | error e => rfl
  | ok records => exact congrArg Except.ok (pushGroups_foldl _ _ records)

/-- What `handle_results.lua` takes from the invocation of `handle_results`. -/
theorem resultGroups_handleResults
    (timestamp : Nat)
    (first : TaskResult core Outcome)
    (rest : List (TaskResult core Outcome)) :
    Option.map (fun invocation => resultGroups invocation.args) <$>
        handleResultsInvocation resultJson cfg timestamp (first :: rest) =
      (fun records => some (records.map fun r => r.fields.present)) <$>
        (first :: rest).mapM (ackRecord resultJson timestamp) := by
  have hloop := foldlM_eq_mapM (@ackRecord core Outcome resultJson timestamp)
    (fun invocation r => Invocation.resultArgs invocation r.fields) (first :: rest)
    (Invocation.new.arg (flagArg cfg.emitEvents))
  rw [handleResultsInvocation, List.isEmpty_cons, if_neg Bool.false_ne_true, hloop]
  cases (first :: rest).mapM (ackRecord resultJson timestamp) with
  | error e => rfl
  | ok records =>
      have hgroups := resultGroups_foldl (flagArg cfg.emitEvents) (records.map AckRecord.fields)
      rw [List.foldl_map, List.map_map] at hgroups
      exact congrArg (fun groups => Except.ok (some groups)) hgroups

/-- The vector that `push_tasks` builds, when it builds one. -/
theorem args_pushTasks
    {metaJson : Hash String → Except String String}
    {cfg : Config}
    {tasks : List (Submission core)}
    {script : Invocation}
    (hscript : pushTasksInvocation metaJson cfg tasks = .ok script) :
    ∃ records, tasks.mapM (Submission.fields metaJson) = .ok records ∧
      script.args = [numberArg cfg.ttlSeconds, flagArg cfg.emitEvents] ++
        records.flatMap PushFields.row := by
  rw [pushTasksInvocation, foldlM_eq_mapM] at hscript
  cases hrecords : tasks.mapM (Submission.fields metaJson) with
  | error e =>
      rw [hrecords] at hscript
      cases hscript
  | ok records =>
      rw [hrecords] at hscript
      cases hscript
      exact ⟨records, rfl, args_foldl Invocation.args_pushArgs records _⟩

/-- The vector that `handle_results` builds, when there is anything to send. -/
theorem args_handleResults
    {resultJson : Outcome → Except String String}
    {cfg : Config}
    {timestamp : Nat}
    {payloads : List (TaskResult core Outcome)}
    {batch : List AckRecord}
    (hbatch : payloads.mapM (ackRecord resultJson timestamp) = .ok batch)
    {invocation : Invocation}
    (hinvocation :
      handleResultsInvocation resultJson cfg timestamp payloads = .ok (some invocation)) :
    invocation.args =
      [flagArg cfg.emitEvents] ++ (batch.map AckRecord.fields).flatMap ResultFields.row := by
  unfold handleResultsInvocation at hinvocation
  split at hinvocation
  · cases hinvocation
  · have hloop := foldlM_eq_mapM (@ackRecord core Outcome resultJson timestamp)
      (fun invocation r => Invocation.resultArgs invocation r.fields) payloads
      (Invocation.new.arg (flagArg cfg.emitEvents))
    rw [hloop, hbatch] at hinvocation
    cases hinvocation
    have hargs := args_foldl Invocation.args_resultArgs (batch.map AckRecord.fields)
      (Invocation.new.arg (flagArg cfg.emitEvents))
    rwa [List.foldl_map] at hargs

/-- **The vectors are cut as they were built.**  The groups that a script visits are
the records that were flattened, in their order and with every field there, whatever
the texts and bytes are; so are those of the vectors that `push_tasks` builds for any
tasks and `handle_results` for any results but none. -/
theorem argumentVectors_cut :
    (∀ (ttl flag : Bytes) (records : List (PushFields Bytes)),
      pushGroups (records.foldl Invocation.pushArgs ((Invocation.new.arg ttl).arg flag)).args =
        records.map PushFields.present) ∧
    (∀ tasks : List (Submission core),
      (fun script => pushGroups script.args) <$> pushTasksInvocation metaJson cfg tasks =
        List.map PushFields.present <$> tasks.mapM (Submission.fields metaJson)) ∧
    (∀ (flag : Bytes) (records : List (ResultFields Bytes)),
      resultGroups (records.foldl Invocation.resultArgs (Invocation.new.arg flag)).args =
        records.map ResultFields.present) ∧
    ∀ (timestamp : Nat) (first : TaskResult core Outcome) (rest : List (TaskResult core Outcome)),
      Option.map (fun invocation => resultGroups invocation.args) <$>
          handleResultsInvocation resultJson cfg timestamp (first :: rest) =
        (fun records => some (records.map fun r => r.fields.present)) <$>
          (first :: rest).mapM (ackRecord resultJson timestamp) :=
  ⟨pushGroups_foldl, pushGroups_pushTasks metaJson cfg, resultGroups_foldl,
    resultGroups_handleResults resultJson cfg⟩

end Queries

/-- The numbers of a record are exact in Lua. -/
structure Lua.PushRecord.Exact (r : PushRecord) : Prop where
  attempts : r.attempts < 2 ^ 53
  maxAttempts : r.maxAttempts < 2 ^ 53
  scheduleTime : r.scheduleTime < 2 ^ 53

structure Lua.AckRecord.Exact (r : AckRecord) : Prop where
  timestamp : r.timestamp < 2 ^ 53
  attempt : r.attempt < 2 ^ 53

theorem fromUTF8?_textArg (text : String) : String.fromUTF8? (textArg text) = some text := by
  rw [textArg, String.fromUTF8?, String.toUTF8_eq_toByteArray, dif_pos text.isValidUTF8]
  rfl

/-- `tonumber` and `cjson.decode`, on the texts that the queries print. -/
structure Reading (metaJson : Hash String → Except String String) where
  tonumber : Bytes → Option Nat
  decodeMeta : Bytes → Option (Hash String)
  tonumber_numberArg : ∀ n < 2 ^ 53, tonumber (numberArg n) = some n
  decodeMeta_metaJson : ∀ m text, metaJson m = .ok text → decodeMeta (textArg text) = some m

namespace Reading

variable {core : Core} {Outcome : Type}
variable {metaJson : Hash String → Except String String}
variable {resultJson : Outcome → Except String String}
variable (reading : Reading metaJson)

/-- The record that the rest of a turn of `batch_push.lua` works on. -/
def readTask (f : PushFields (Option Bytes)) : Option PushRecord := do
  let taskId ← f.taskId.bind String.fromUTF8?
  let taskData ← f.taskData
  let attempts ← f.attempts.bind reading.tonumber
  let maxAttempts ← f.maxAttempts.bind reading.tonumber
  let metadata ← f.metadataJson.bind reading.decodeMeta
  let scheduleTime ← f.scheduleTime.bind reading.tonumber
  let idempotencyKey ← f.idempotencyKey.bind String.fromUTF8?
  pure ⟨taskId, taskData, attempts, maxAttempts, metadata, scheduleTime, idempotencyKey⟩

/-- The record that the rest of a turn of `handle_results.lua` works on. -/
def readResult (f : ResultFields (Option Bytes)) : Option AckRecord := do
  let taskId ← f.taskId.bind String.fromUTF8?
  let timestamp ← f.timestamp.bind reading.tonumber
  let resultData ← f.resultData.bind String.fromUTF8?
  let status ← f.status.bind String.fromUTF8?
  let attempt ← f.attempt.bind reading.tonumber
  pure ⟨taskId, timestamp, resultData, status, attempt⟩

theorem readTask_present
    {r : PushRecord}
    (hexact : r.Exact)
    {text : String}
    (htext : metaJson r.metadata = .ok text) :
    reading.readTask (r.fields text).present = some r := by
  simp only [readTask, PushFields.present, PushRecord.fields, Option.bind_eq_bind,
    Option.bind_some, fromUTF8?_textArg, reading.tonumber_numberArg _ hexact.attempts,
    reading.tonumber_numberArg _ hexact.maxAttempts,
    reading.tonumber_numberArg _ hexact.scheduleTime,
    reading.decodeMeta_metaJson _ _ htext, Option.pure_def]

theorem readResult_present
    {r : AckRecord}
    (hexact : r.Exact) :
    reading.readResult r.fields.present = some r := by
  simp only [readResult, ResultFields.present, AckRecord.fields, Option.bind_eq_bind,
    Option.bind_some, fromUTF8?_textArg, reading.tonumber_numberArg _ hexact.timestamp,
    reading.tonumber_numberArg _ hexact.attempt, Option.pure_def]

/-- `ARGV[i] == "1"` -/
def flagAt (argv : List Bytes) (i : ℚ) : Bool :=
  decide ((tableGet argv i).bind String.fromUTF8? = some "1")

/-- The call that `batch_push.lua` carries out on its arguments. -/
def pushCall (argv : List Bytes) : Option Call := do
  let ttl ← (tableGet argv 1).bind reading.tonumber
  let batch ← (pushGroups argv).mapM reading.readTask
  pure (.pushTasks ttl (flagAt argv 2) batch)

/-- The call that `handle_results.lua` carries out on the keys of a worker. -/
def resultCall (worker : String) (argv : List Bytes) : Option Call := do
  let batch ← (resultGroups argv).mapM reading.readResult
  pure (.handleResults worker (flagAt argv 1) batch)

theorem flagAt_eq
    {argv : List Bytes}
    {i : ℚ}
    {flag : Bool}
    (hflag : tableGet argv i = some (flagArg flag)) :
    flagAt argv i = flag := by
  rw [flagAt, hflag, Option.bind_some, flagArg, fromUTF8?_textArg]
  cases flag <;> decide

/-- **`batch_push.lua` carries out the push that was encoded.** -/
theorem pushCall_pushTasks
    {cfg : Config}
    (httl : cfg.ttlSeconds < 2 ^ 53)
    {tasks : List (Submission core)}
    (hexact : ∀ sub ∈ tasks, sub.record.Exact)
    {script : Invocation}
    (hscript : pushTasksInvocation metaJson cfg tasks = .ok script) :
    reading.pushCall script.args = some (Call.submit cfg.ttlSeconds cfg.emitEvents tasks) := by
  obtain ⟨records, hrecords, hargs⟩ := args_pushTasks hscript
  have hfirst : tableGet script.args 1 = some (numberArg cfg.ttlSeconds) := by
    rw [hargs]
    exact_mod_cast tableGet_succ _ 0
  have hsecond : tableGet script.args 2 = some (flagArg cfg.emitEvents) := by
    rw [hargs]
    exact_mod_cast tableGet_succ _ 1
  have hbatch : (pushGroups script.args).mapM reading.readTask =
      some (tasks.map Submission.record) := by
    rw [hargs, pushGroups_records _ rfl, List.mapM_map]
    refine mapM_of_prepared hrecords fun sub hsub f hf => ?_
    obtain ⟨text, htext, hfields⟩ := bind_eq_ok.mp hf
    cases hfields
    exact reading.readTask_present (hexact sub hsub) htext
  rw [pushCall, hfirst, hbatch, flagAt_eq hsecond]
  change (reading.tonumber (numberArg cfg.ttlSeconds)).bind _ = _
  rw [reading.tonumber_numberArg _ httl]
  rfl

/-- **`handle_results.lua` carries out the acknowledgement that was encoded.** -/
theorem resultCall_handleResults
    {cfg : Config}
    {worker : String}
    {timestamp : Nat}
    {payloads : List (TaskResult core Outcome)}
    {batch : List AckRecord}
    (hbatch : payloads.mapM (ackRecord resultJson timestamp) = .ok batch)
    (hexact : ∀ r ∈ batch, r.Exact)
    {invocation : Invocation}
    (hinvocation :
      handleResultsInvocation resultJson cfg timestamp payloads = .ok (some invocation)) :
    reading.resultCall worker invocation.args =
      some (.handleResults worker cfg.emitEvents batch) := by
  have hargs := args_handleResults hbatch hinvocation
  have hfirst : tableGet invocation.args 1 = some (flagArg cfg.emitEvents) := by
    rw [hargs]
    exact_mod_cast tableGet_succ _ 0
  have hread : (resultGroups invocation.args).mapM reading.readResult = some batch := by
    have hall : batch.mapM (Except.ok : AckRecord → Except String AckRecord) = .ok batch :=
      mapM_eq_ok.mpr rfl
    rw [hargs, resultGroups_records _ rfl, List.mapM_map, List.mapM_map,
      mapM_of_prepared hall, List.map_id]
    intro r hr f hf
    cases hf
    exact reading.readResult_present (hexact r hr)
  rw [resultCall, hread, flagAt_eq hfirst]
  rfl

end Reading

end ApalisRedis
