import ApalisRedis.RawKeys

/-!
# `list_workers.lua`, `list_all_workers.lua`

The listings of workers, and the two scripts whose keys they read, over all of
Redis: what one queue registers and another one lists may be at the same key.
-/

namespace ApalisRedis
namespace Lua

open Redis Script

section Registration

variable (workersSet : String)

/-- The three writes of a registration. -/
def enrollAt (metadataKey : String) (now : Nat) (worker backendName service : String) :
    Script Keyspace Unit := do
  updateAt .sortedSet workersSet fun z => z.insert worker now
  updateAt .sortedSet queuesList.name fun z =>
    z.insert workersSet (max now ((z.lookup workersSet).getD now))
  updateAt .fields metadataKey fun h =>
    Hash.setAll h [("backend_name", backendName), ("service", service)]

/-- `register_worker.lua` at the keys that it is given. -/
def registerWorkerAt (metadataKey : String) (now : Nat) (worker : String) (threshold : Nat)
    (backendName service : String) : Script Keyspace Unit := do
  let lastSeen ← readAt .sortedSet workersSet fun z => z.lookup worker
  match lastSeen with
  | some t =>
      if (now : Int) - t < threshold then
        raise "worker is still active within threshold"
  | none => pure ()
  enrollAt workersSet metadataKey now worker backendName service

/-- `keep_alive.lua` at the key that it is given. -/
def keepAliveAt (now : Nat) (worker : String) : Script Keyspace Unit := do
  let lastSeen ← readAt .sortedSet workersSet fun z => z.lookup worker
  if lastSeen.isNone then
    raise "Heartbeat failed: worker not registered"
  updateAt .sortedSet workersSet fun z => z.insert worker now

variable {workersSet}

/-- A registration is refused, or makes its writes. -/
theorem run_registerWorkerAt
    {k : Keyspace}
    {z : ZSet}
    (hworkers : Kind.sortedSet.unwrap (k.keys workersSet) = some z)
    (metadataKey : String)
    (now : Nat)
    (worker : String)
    (threshold : Nat)
    (backendName service : String) :
    (registerWorkerAt workersSet metadataKey now worker threshold backendName service).run k =
      if (z.lookup worker).any fun t : Nat => (now : Int) - t < threshold then
        (.error "worker is still active within threshold", k)
      else
        (enrollAt workersSet metadataKey now worker backendName service).run k := by
  rw [registerWorkerAt, run_bind_ok (run_readAt_ok hworkers _)]
  cases z.lookup worker with
  | none => rfl
  | some t =>
      by_cases hlt : (now : Int) - t < threshold
      · simp [hlt]
      · simp [hlt]

end Registration

/-- A field of an encoded Lua table: a text, or anything else, such as `false`. -/
inductive JsonField where
  | text (s : String)
  | other
deriving DecidableEq

/-- One table of the result. -/
structure WorkerRow where
  id : String
  queue : String
  lastHeartbeat : Nat
  startedAt : Nat
  backend : JsonField
  layers : JsonField

/-- What `cjson.encode` makes of the result: an empty Lua table is an object. -/
inductive EncodedRows where
  | emptyObject
  | array (rows : List WorkerRow)

def encodeRows (rows : List WorkerRow) : EncodedRows :=
  if rows.isEmpty then .emptyObject else .array rows

/-- A missing hash field is `false` in Lua. -/
def JsonField.ofReply : Option String → JsonField
  | some s => .text s
  | none => .other

/-- The body of the loop of `list_workers.lua`. -/
def workerRow (workersSet metadataPrefix : String) (entry : Nat ×ₗ String) :
    Script Keyspace WorkerRow := do
  let (lastSeen, name) := ofLex entry
  let fields ← readAt .fields (metadataPrefix ++ name) fun h =>
    (h.lookup "backend_name", h.lookup "service")
  pure ⟨name, workersSet, lastSeen, 0, .ofReply fields.1, .ofReply fields.2⟩

/-- `list_workers.lua` -/
def listWorkers (workersSet metadataPrefix : String) : Script Keyspace EncodedRows := do
  let workers ← readAt .sortedSet workersSet ZSet.sorted
  let result ← workers.mapM (workerRow workersSet metadataPrefix)
  pure (encodeRows result)

/-- What `cjson.decode` makes of a text: no JSON, a value that Lua cannot index,
or one that it can (a table, or a string, which has no fields), of which the
fields `storage` and `service` are looked at. -/
inductive DecodedMeta where
  | invalid
  | scalar
  | table (storage service : Option JsonField)

variable (decode : String → DecodedMeta)

/-- `backend` and `service`, starting from empty texts. -/
def backendAndService : Option String → Except String (JsonField × JsonField)
  | none => .ok (.text "", .text "")
  | some metaJson =>
      match decode metaJson with
      | .invalid => .ok (.text "", .text "")
      | .scalar => .error "attempt to index local (a value that cannot be indexed)"
      | .table storage service => .ok (storage.getD (.text ""), service.getD (.text ""))

/-- The body of the inner loop of `list_all_workers.lua`. -/
def anyWorkerRow (queueKey metaKey : String) (entry : Nat ×ₗ String) :
    Script Keyspace WorkerRow := do
  let (lastSeen, name) := ofLex entry
  let metaJson ← readAt .fields metaKey fun h => h.lookup name
  let (backend, service) ← fallible (backendAndService decode metaJson)
  pure ⟨name, queueKey, lastSeen, 0, backend, service⟩

/-- The body of the outer loop. -/
def queueRows (queueKey : String) : Script Keyspace (List WorkerRow) := do
  let workers ← readAt .sortedSet queueKey ZSet.sorted
  let metaKey := queueKey ++ ":workers:metadata:"
  workers.mapM (anyWorkerRow decode queueKey metaKey)

/-- `list_all_workers.lua` -/
def listAllWorkers : Script Keyspace EncodedRows := do
  let queues ← readAt .sortedSet queuesList.name fun z => z.sorted.map fun e => (ofLex e).2
  let result ← queues.mapM (queueRows decode)
  pure (encodeRows result.flatten)

end Lua

end ApalisRedis
