import ApalisRedis.Clients
import ApalisRedis.Redelivery

/-!
# Where the tasks come from

Every stored task is one that a client has pushed: its data never change, and of
its metadata only the fields that the scripts write.

**Results.**
* `Move.authentic`: no move makes a task up.
* `fetched_was_pushed`: whatever a client is handed has been pushed by some client.
-/

namespace ApalisRedis

open Lua Redis Script Rust Systems

/-- All tasks are pushed ones, up to the fields that the scripts write. -/
def Store.Authentic (s : Store) (rt : Runtime) (push : PushRecord → Prop) : Prop :=
  ∀ id ∈ s.jobData, ∃ r, push r ∧ r.taskId = id ∧ s.jobData.lookup id = some r.taskData ∧
    ∀ field ∉ rewrittenFields, field ∉ outcomeFields →
      (s.jobMeta id).lookup field = (Hash.setAll ∅ (pushMeta rt r)).lookup field

/-- A task that was not there before has been pushed. -/
theorem Move.new
    {rt : Runtime}
    {may : Powers}
    {s t : Store}
    (hstash : ¬may.stash)
    (hdiscard : ¬may.discard)
    (hmove : Move rt may s t)
    {id : String}
    (hold : id ∉ s.jobData)
    (hid : id ∈ t.jobData) :
    ∃ r, may.push r ∧ r.taskId = id ∧ t = s.submit rt r := by
  cases hmove with
  | bookkeep hsame =>
      rw [hsame.jobData] at hid
      exact absurd hid hold
  | stash r hmay hnew => exact absurd hmay hstash
  | submit r hnew hmay =>
      have hsame : id = r.taskId := (Finmap.mem_insert.mp hid).resolve_right hold
      exact ⟨r, hmay, hsame.symm, rfl⟩
  | discard taskId hmay => exact absurd hmay hdiscard
  | _ => exact absurd hid hold

/-- **No move makes a task up.** -/
theorem Move.authentic
    {rt : Runtime}
    {may : Powers}
    {s t : Store}
    (hstash : ¬may.stash)
    (hdiscard : ¬may.discard)
    (hmove : Move rt may s t)
    (hblank : s.Blank)
    (h : s.Authentic rt may.push) :
    t.Authentic rt may.push := by
  intro id hid
  by_cases hold : id ∈ s.jobData
  · obtain ⟨r, hpush, hr, hdata, hfields⟩ := h id hold
    refine ⟨r, hpush, hr, (hmove.lookup_jobData hdiscard hold).trans hdata,
      fun field hfield hout => ?_⟩
    rw [hmove.lookup_jobMeta hdiscard hold hfield fun _ _ _ => hout]
    exact hfields field hfield hout
  · obtain ⟨r, hpush, rfl, rfl⟩ := hmove.new hstash hdiscard hold hid
    refine ⟨r, hpush, rfl, Finmap.lookup_insert _, fun field _ _ => ?_⟩
    change (Function.update s.jobMeta r.taskId _ r.taskId).lookup field = _
    rw [Function.update_self, hblank r.taskId hold]

namespace Deployment

variable {core : Core} {Outcome : Type} {d : Deployment core Outcome}

/-- All tasks are tasks of the clients, and unknown ids have no metadata. -/
structure Genuine (d : Deployment core Outcome) (s : Store) : Prop where
  authentic : s.Authentic d.rt d.Pushes
  blank : s.Blank
  reflects : ∃ b, Reflects s b

theorem genuine_empty :
    d.Genuine Store.empty :=
  ⟨fun _ hid => absurd hid Finmap.notMem_empty, fun _ _ => rfl, _, reflects_empty⟩

theorem genuine_run
    (hfits : d.FitsPushes)
    {calls : List Call}
    (hcalls : ∀ c ∈ calls, d.Issues c)
    {s : Store}
    (h : d.Genuine s) :
    d.Genuine (run d.rt d.queue calls s) := by
  have hstash : ¬d.powers.stash := fun ⟨r, hr, hlong⟩ => hlong (hfits r hr)
  have hdiscard : ¬d.powers.discard := fun hd => hd
  refine preserved (I := d.Genuine) (fun s t hmove ⟨hauthentic, hblank, b, hb⟩ => ?_)
    (moves_run hcalls s) h
  obtain ⟨b', -, hb'⟩ := move_simulates hdiscard _ _ b hmove hb
  exact ⟨hmove.authentic hstash hdiscard hblank hauthentic,
    hb.blank hdiscard hmove hblank, b', hb'⟩

theorem genuine_of_leads
    (hfits : d.FitsPushes)
    {w w' : World}
    (h : d.Leads w w')
    (hgenuine : d.Genuine w.store) :
    d.Genuine w'.store := by
  obtain ⟨-, calls, hcalls, hstore⟩ := h
  rw [hstore]
  exact genuine_run hfits hcalls hgenuine

theorem genuine_of_reaches
    (hcareful : d.Careful)
    (hfits : d.FitsPushes)
    {time : Nat}
    {c : State}
    (hreached : d.Reaches ⟨⟨Store.empty, time⟩, []⟩ c) :
    d.Genuine c.state.store :=
  genuine_of_leads hfits (leads_of_reaches hcareful .refl hreached) genuine_empty

/-- A client pushes the task of the submission. -/
def Submits (d : Deployment core Outcome) (sub : Submission core) : Prop :=
  ∃ cfg requests, cfg.queue = d.queue ∧ d.uses cfg (.pushTasks requests) ∧
    (sub.request, sub.ulid) ∈ requests

/-- The task is the submitted one: its id is what the text of the pushed id is read
as, and its metadata are those pushed, but for the names of the queue and the two
fields of an outcome. -/
structure Stems (sub : Submission core) (task : RedisTask core) : Prop where
  taskId : ∃ taskId, core.parseTaskId (core.printTaskId sub.taskId) = .ok taskId ∧
    task.taskId = some taskId
  args : task.args = sub.request.args
  metadata : ∀ key ∉ reservedFields, key ∉ outcomeFields →
    task.metadata.lookup key = sub.request.metadata.lookup key

/-- A task that is decoded from the store is a pushed one. -/
theorem stems_of_taskAt
    {s : Store}
    (h : d.Genuine s)
    {id : String}
    {task : CompactTask core}
    (htask : s.taskAt core id = .ok task) :
    ∃ sub : Submission core, d.Submits sub ∧ Stems sub task.intoFullCompact := by
  obtain ⟨data, taskId, attempts, maxAttempts, status, hdata, hid, -, -, -, rfl⟩ :=
    taskAt_eq_ok.mp htask
  obtain ⟨r, hpush, rfl, hlookup, hfields⟩ := h.authentic id (Finmap.mem_of_lookup_eq_some hdata)
  obtain ⟨cfg, requests, hqueue, huses, sub, hsub, rfl⟩ := hpush
  refine ⟨sub, ⟨cfg, requests, hqueue, huses, hsub⟩, ⟨taskId, hid, rfl⟩, ?_,
    fun key hkey hout => ?_⟩
  · exact Option.some.inj (hdata.symm.trans hlookup)
  · have hrewritten : key ∉ rewrittenFields := by
      refine fun hmem => hkey ?_
      simp only [rewrittenFields, List.mem_cons, List.not_mem_nil, or_false] at hmem
      rcases hmem with rfl | rfl | rfl | rfl <;> decide
    change (Hash.eraseAll (s.jobMeta sub.record.taskId) reservedFields).lookup key = _
    rw [Hash.lookup_eraseAll, if_neg hkey, hfields key hrewritten hout]
    change (sub.pushedFields d.rt).lookup key = _
    rw [sub.lookup_pushedFields, sub.lookup_baseFields_of_unreserved d.rt hkey, Option.or_none]

theorem yields_fetchNext
    (hfits : d.FitsPushes)
    (cfg : Config)
    (worker : String)
    {w : World}
    (hgenuine : d.Genuine w.store) :
    Async.Yields d.Answers d.Leads (Instruction.Admitted d.Issues fun _ _ _ => True)
      (fun tasks _ => ∀ task ∈ tasks, ∃ sub : Submission core, d.Submits sub ∧ Stems sub task)
      (Async.fetchNext cfg core worker) w := by
  have hread : Async.Yields d.Answers d.Leads (Instruction.Admitted d.Issues fun _ _ _ => True)
      (fun _ w' => d.Genuine w'.store) Async.timestamp w :=
    yields_timestamp_of_stable (I := fun w => d.Genuine w.store) (fun _ => trivial)
      (fun _ _ => genuine_of_leads hfits) hgenuine
  refine hread.bind d.leads_refl fun now w hgenuine => ?_
  have hfetch : Async.Yields d.Answers d.Leads (Instruction.Admitted d.Issues fun _ _ _ => True)
      (fun reply _ => ∃ s ids, d.Genuine s ∧
        deserializeWithMeta core (FetchReply.values reply) = List.mapM (s.taskAt core) ids)
      (Async.fetch now cfg.batchSize worker) w := by
    refine Async.yields_fetch (fun _ _ => trivial) fun t reply u u' ht hanswer hu => ?_
    obtain ⟨hrun, -⟩ := executed_of_transmits hanswer
    rw [reply_fetchNext d.rt d.queue worker hrun]
    exact ⟨t.store, _, genuine_of_leads hfits ht hgenuine,
      deserialize_reply core d.rt t.store _⟩
  refine hfetch.bind d.leads_refl fun reply w ⟨s, ids, hs, hdecode⟩ => ?_
  have htasks : Async.Yields d.Answers d.Leads (Instruction.Admitted d.Issues fun _ _ _ => True)
      (fun compacts _ => List.mapM (s.taskAt core) ids = .ok compacts)
      (Async.fallible (deserializeWithMeta core (FetchReply.values reply))) w :=
    Async.yields_fallible fun compacts hok _ _ => hdecode.symm.trans hok
  refine htasks.bind d.leads_refl fun compacts w hcompacts => Async.yields_pure fun _ _ => ?_
  intro task hmem
  obtain ⟨compact, hcompact, rfl⟩ := List.mem_map.mp hmem
  have hdecoded : Except.ok compact ∈ ids.map (s.taskAt core) := by
    rw [mapM_eq_ok.mp hcompacts]
    exact List.mem_map_of_mem hcompact
  obtain ⟨id, -, htask⟩ := List.mem_map.mp hdecoded
  exact stems_of_taskAt hs htask

end Deployment

/-- **Whatever a client is handed has been pushed**: some client has pushed a task
under an id whose text is read as this one, with these bytes and, but for the names
of the queue and of an outcome, with these metadata. -/
theorem fetched_was_pushed
    {core : Core}
    {Outcome : Type}
    (d : Deployment core Outcome)
    (hcareful : d.Careful)
    (hfits : d.FitsPushes)
    {time : Nat}
    {c c' : Deployment.State}
    (hreached : d.Reaches ⟨⟨Store.empty, time⟩, []⟩ c)
    {cfg : Config}
    {worker : String}
    (hqueue : cfg.queue = d.queue)
    (huses : d.uses cfg (.fetchNext worker))
    {tasks : List (RedisTask core)}
    (hruns : Relation.ReflTransGen (d.Watch fun _ => True)
      ((Async.fetchNext cfg core worker).run, c) (.done (.ok tasks), c')) :
    ∀ task ∈ tasks, ∃ sub : Submission core, d.Submits sub ∧ Deployment.Stems sub task := by
  have hstarts : d.Starts (Except.map (fun _ => ()) <$>
      (Async.fetchNext cfg core worker).run) := by
    refine ⟨cfg, _, hqueue, huses, ?_⟩
    simp [Deployment.program, ExceptT.run_map]
  exact (Deployment.watched_of_reaches hcareful _ hreached hstarts
    (Deployment.yields_fetchNext hfits cfg worker
      (Deployment.genuine_of_reaches hcareful hfits hreached)) hruns).1 tasks rfl

/-- Clients that push one task, and one worker. -/
def oneTask : Deployment Core.text String :=
  { twoWorkers with
    uses := fun cfg op => cfg = .default ∧
      (op = .pushTasks [(keptPush.request, "01")] ∨ op = .register "w" "" ∨ op = .fetchNext "w") }

theorem careful_oneTask :
    oneTask.Careful := by
  constructor
  · rintro cfg worker service ⟨-, h | h | h⟩ <;> cases h
    exact plainName_of_short (by decide)
  · rintro cfg op ⟨-, rfl | rfl | rfl⟩ <;> trivial

theorem fits_oneTask :
    oneTask.FitsPushes := by
  rintro r - limit ⟨⟩

/-- The task is pushed and the worker registers. -/
def oneTaskWorld : World :=
  oneTask.after .default (.register "w" "")
    (oneTask.after .default (.pushTasks [(keptPush.request, "01")]) ⟨Store.empty, 100⟩)

theorem reaches_oneTaskWorld :
    oneTask.Reaches ⟨⟨Store.empty, 100⟩, []⟩ ⟨oneTaskWorld, []⟩ :=
  (Deployment.reaches_after oneTask rfl ⟨rfl, .inl rfl⟩ _).trans
    (Deployment.reaches_after oneTask rfl ⟨rfl, .inr (.inl rfl)⟩ _)

/-- What the worker is handed. -/
def fetchOutcome : Except String (List (RedisTask Core.text)) × World :=
  (Async.fetchNext .default Core.text "w").run.alone oneTask.answer oneTaskWorld

theorem fetched_from_push :
    ∃ task, fetchOutcome.1 = .ok [task] ∧ ∃ sub : Submission Core.text,
      sub.request = keptPush.request ∧ Deployment.Stems sub task := by
  have hone : (fetchOutcome.1.map List.length).toOption = some 1 := by decide +kernel
  have hruns : Relation.ReflTransGen (oneTask.Watch fun _ => True)
      ((Async.fetchNext .default Core.text "w").run, ⟨oneTaskWorld, []⟩)
      (.done fetchOutcome.1, ⟨fetchOutcome.2, []⟩) :=
    Pool.watch_alone oneTask.answers_answer _ _ [] _
  cases htasks : fetchOutcome.1 with
  | error e =>
      rw [htasks] at hone
      cases hone
  | ok tasks =>
      rw [htasks] at hone hruns
      obtain ⟨task, rfl⟩ := List.length_eq_one_iff.mp (Option.some.inj hone)
      obtain ⟨sub, ⟨cfg, requests, -, ⟨-, huses⟩, hsub⟩, hstems⟩ :=
        fetched_was_pushed oneTask careful_oneTask fits_oneTask reaches_oneTaskWorld rfl
          ⟨rfl, .inr (.inr rfl)⟩ hruns task List.mem_cons_self
      have hrequest : sub.request = keptPush.request := by
        rcases huses with h | h | h <;> cases h
        exact congrArg Prod.fst (List.mem_singleton.mp hsub)
      exact ⟨task, rfl, sub, hrequest, hstems⟩

end ApalisRedis
