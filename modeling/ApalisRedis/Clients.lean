import ApalisRedis.Operations

/-!
# The clients of a queue

Any number of clients start operations at any time, each under a configuration
of its own.  The operations interleave between their commands; a client may drop
an operation or crash, and the network may lose a command or its reply.  The
clients' clocks are off by at most `skew` seconds.

A worker must not have the name of an inflight set of the queue: the cleanup of
the set's owner would take it from the registry.  And nobody may vacuum: a vacuum
deletes tasks that are still to be done, whose ids can then be pushed anew.

**Results.**
* `Conforms.reaches`: whatever the clients do is one run of calls.
* `interleaved_sound`: no interleaving loses or doubles a task, or moves a
  finished one.
-/

namespace ApalisRedis

open Lua Redis Script Rust Systems

/-- The queue on the server, and the time in seconds. -/
structure World where
  store : Store
  time : Nat

/-- A command is answered, or it is executed and its reply is lost, or it is lost. -/
inductive Transmits {α : Type} (x : Script Store α) (w : World) : Except String α → World → Prop
  | answered : Transmits x w (x.run w.store).1 { w with store := (x.run w.store).2 }
  | replyLost (e : String) : Transmits x w (.error e) { w with store := (x.run w.store).2 }
  | commandLost (e : String) : Transmits x w (.error e) w

/-- A client's clock may read `now`. -/
def World.Reads (w : World) (skew now : Nat) : Prop :=
  w.time ≤ now + skew ∧ now ≤ w.time + skew

/-- Time passes, on the server's clock as well. -/
inductive Elapses : World → World → Prop
  | pass (w : World) (seconds milliseconds : Nat) :
      Elapses w ⟨{ w.store with clock := w.store.clock + milliseconds }, w.time + seconds⟩

/-- What a client can ask for. -/
inductive Operation (core : Core) (Outcome : Type) where
  | register (worker service : String)
  | heartbeat (worker : String) (taskCount : Nat) (tasks : Option (List String))
  | fetchNext (worker : String)
  | handleEvents (worker : String) (events : List (TaskEvent core Outcome))
  | reenqueueAbandoned (worker : String) (tasks : List (RedisTask core))
  | pushTasks (requests : List (RedisTask core × core.TaskId))
  | checkStatus (taskIds : List core.TaskId)
  | waitFor (taskIds : List core.TaskId) (orders : List HashOrder)
  | close (worker : String)
  | vacuum
  | vacuumBefore (duration : Duration)

/-- The operation deletes no tasks. -/
def Operation.KeepsTasks {core : Core} {Outcome : Type} : Operation core Outcome → Prop
  | .vacuum | .vacuumBefore _ => False
  | _ => True

/-- The clients of one queue, and which operations they start with which configurations. -/
structure Deployment (core : Core) (Outcome : Type) where
  rt : Runtime
  overflowChecks : Bool
  encode : Outcome → Except String String
  decode : String → Except String Outcome
  queue : String
  skew : Nat
  uses : Config → Operation core Outcome → Prop

/-- The worker's name is not the name of an inflight set. -/
def PlainName (queue worker : String) : Prop :=
  ∀ v, worker ≠ (Keys.inflightSetFor queue v).name

def Store.PlainNames (s : Store) (queue : String) : Prop :=
  ∀ worker ∈ s.workers, PlainName queue worker

namespace Deployment

variable {core : Core} {Outcome : Type} (d : Deployment core Outcome)

/-- The replies that the world may give, and what they leave. -/
def Answers : (i : Instruction) → World → i.Reply → World → Prop
  | .timestamp, w, now, w' => w' = w ∧ w.Reads d.skew now
  | .evalsha c, w, reply, w' => Transmits (c.exec d.rt d.queue) w reply w'
  | .fetch now batchSize worker, w, reply, w' =>
      Transmits (fetchNextScript d.rt d.queue now batchSize worker) w reply w'
  | .hget taskId field, w, reply, w' =>
      Transmits (Redis.hget (Keys.jobMetaHash d.queue taskId) field) w reply w'
  | .zrem member, w, reply, w' =>
      Transmits (Redis.zrem (Keys.workersSet d.queue) [member]) w reply w'
  | .vacuum, w, reply, w' => Transmits (vacuumScript d.rt d.queue) w reply w'
  | .vacuumBefore seconds, w, reply, w' =>
      Transmits (vacuumBeforeScript d.rt d.queue seconds) w reply w'

/-- The operation as a program; what it returns is of no concern to the others. -/
def program (cfg : Config) : Operation core Outcome → Async Unit
  | .register worker service => Async.register d.overflowChecks cfg worker service
  | .heartbeat worker taskCount tasks =>
      Async.heartbeat d.overflowChecks cfg worker taskCount tasks
  | .fetchNext worker => do let _ ← Async.fetchNext cfg core worker
  | .handleEvents worker events => Async.handleEvents cfg d.encode worker events
  | .reenqueueAbandoned worker tasks => do let _ ← Async.reenqueueAbandoned cfg worker tasks
  | .pushTasks requests => do let _ ← Async.pushTasks cfg requests
  | .checkStatus taskIds => do let _ ← Async.checkStatus d.decode taskIds
  | .waitFor taskIds orders => do
      let _ : List (Except String (TaskResult core Outcome)) ←
        Async.stream d.decode orders (requestedIds core taskIds)
  | .close worker => Async.cleanup cfg worker
  | .vacuum => do let _ ← Async.vacuum
  | .vacuumBefore duration => do let _ ← Async.vacuumBefore duration

/-- The programs that the clients start. -/
def Starts (p : Program Instruction Instruction.Reply (Except String Unit)) : Prop :=
  ∃ cfg op, cfg.queue = d.queue ∧ d.uses cfg op ∧ p = (d.program cfg op).run

/-- The queue, the time and the operations that are under way. -/
abbrev State : Type :=
  Pool World Instruction Instruction.Reply (Except String Unit)

abbrev Step (l : Option Instruction) : State → State → Prop :=
  Pool.Step d.Answers Elapses d.Starts l

abbrev Reaches : State → State → Prop :=
  Pool.Reaches d.Answers Elapses d.Starts

/-- A step of an operation, or a step of the others whose instruction `S` allows. -/
abbrev Watch (S : Instruction → Prop) {β : Type} :
    Program Instruction Instruction.Reply β × State →
      Program Instruction Instruction.Reply β × State → Prop :=
  Pool.Watch d.Answers Elapses d.Starts S

/-- The clients only register plain names, and none of them vacuums. -/
structure Careful : Prop where
  plainlyNamed : ∀ cfg worker service, d.uses cfg (.register worker service) →
    PlainName d.queue worker
  keepsTasks : ∀ cfg op, d.uses cfg op → op.KeepsTasks

/-- The records that the clients push. -/
def Pushes (r : PushRecord) : Prop :=
  ∃ cfg requests, cfg.queue = d.queue ∧ d.uses cfg (.pushTasks requests) ∧
    ∃ sub : Submission core, (sub.request, sub.ulid) ∈ requests ∧ sub.record = r

/-- Whether a client that reports results emits events. -/
def ReportsWith (emitEvents : Bool) : Prop :=
  ∃ cfg worker events, cfg.queue = d.queue ∧ d.uses cfg (.handleEvents worker events) ∧
    cfg.emitEvents = emitEvents

/-- The calls that the operations of the clients make. -/
def Issues : Call → Prop
  | .pushTasks _ _ batch => ∀ r ∈ batch, d.Pushes r
  | .registerWorker _ worker _ _ _ => PlainName d.queue worker
  | .handleResults _ emitEvents _ => d.ReportsWith emitEvents
  | _ => True

/-- What such calls may do. -/
def powers : Powers where
  register := PlainName d.queue
  push := d.Pushes
  deliver := True
  stash := ∃ r, d.Pushes r ∧ ¬d.rt.Fits (2 * (pushMeta d.rt r).length)
  discard := False

/-- From the one world to the other leads a run of such calls. -/
def Leads (w w' : World) : Prop :=
  w.time ≤ w'.time ∧ ∃ calls : List Call, (∀ c ∈ calls, d.Issues c) ∧
    w'.store = run d.rt d.queue calls w.store

theorem leads_refl
    (w : World) :
    d.Leads w w :=
  ⟨Nat.le_refl _, [], by simp, rfl⟩

theorem leads_trans
    (w w' w'' : World)
    (h : d.Leads w w')
    (h' : d.Leads w' w'') :
    d.Leads w w'' := by
  obtain ⟨htime, calls, hcalls, hstore⟩ := h
  obtain ⟨htime', calls', hcalls', hstore'⟩ := h'
  refine ⟨htime.trans htime', calls ++ calls', fun c hc => ?_, ?_⟩
  · exact (List.mem_append.mp hc).elim (hcalls c) (hcalls' c)
  · rw [hstore', hstore, run_append]

/-- A command that writes nothing. -/
theorem eq_of_transmits
    {α : Type}
    {x : Script Store α}
    {w w' : World}
    {reply : Except String α}
    (h : Transmits x w reply w')
    (hx : (x.run w.store).2 = w.store) :
    w' = w := by
  cases h with
  | answered => rw [hx]
  | replyLost e => rw [hx]
  | commandLost e => rfl

/-- A command that succeeds has been executed. -/
theorem executed_of_transmits
    {α : Type}
    {x : Script Store α}
    {w w' : World}
    {a : α}
    (h : Transmits x w (.ok a) w') :
    x.run w.store = (.ok a, w'.store) ∧ w'.time = w.time := by
  generalize hreply : (Except.ok a : Except String α) = reply at h
  cases h with
  | answered => exact ⟨rfl, rfl⟩
  | replyLost e => cases hreply
  | commandLost e => cases hreply

theorem leads_of_elapses
    {w w' : World}
    (h : Elapses w w') :
    d.Leads w w' := by
  cases h with
  | pass seconds milliseconds =>
      exact ⟨Nat.le_add_right _ _, [.wait milliseconds], by simp [Issues], rfl⟩

end Deployment

theorem Move.plainNames
    {rt : Runtime}
    {may : Powers}
    {queue : String}
    (hregister : ∀ worker, may.register worker → PlainName queue worker)
    {s t : Store}
    (hmove : Move rt may s t)
    (h : s.PlainNames queue) :
    t.PlainNames queue := by
  intro v hv
  cases hmove with
  | bookkeep hsame =>
      rw [hsame.workers] at hv
      exact h v hv
  | recover worker jobs hnd hjobs hmay => exact h v (Finmap.mem_erase.mp hv).2
  | beat worker now hworker =>
      rcases Finmap.mem_insert.mp hv with rfl | hold
      · exact hworker.elim (h v) (hregister v)
      · exact h v hold
  | _ => exact h v hv

namespace Deployment

variable {core : Core} {Outcome : Type} {d : Deployment core Outcome}

theorem within_of_issues
    {c : Call}
    (h : d.Issues c) :
    c.Within d.powers := by
  cases c with
  | pushTasks ttl emitEvents batch => exact h
  | registerWorker now worker threshold backendName service => exact h
  | handleResults worker emitEvents batch => exact fun _ _ => trivial
  | _ => exact trivial

/-- The calls of the clients are moves. -/
theorem moves_run
    {calls : List Call}
    (hcalls : ∀ c ∈ calls, d.Issues c)
    (s : Store) :
    Moves d.rt d.powers s (run d.rt d.queue calls s) := by
  induction calls generalizing s with
  | nil => exact .refl
  | cons c calls ih =>
      rw [List.forall_mem_cons] at hcalls
      have hstash : ∀ r, d.powers.push r → ¬d.rt.Fits (2 * (pushMeta d.rt r).length) →
          d.powers.stash := fun r hr hfits => ⟨r, hr, hfits⟩
      have hfirst : Moves d.rt d.powers s ((c.exec d.rt d.queue).run s).2 :=
        c.movesBy_within d.queue hstash (within_of_issues hcalls.1) s
      exact hfirst.trans (ih hcalls.2 _)

theorem plainNames_run
    {calls : List Call}
    (hcalls : ∀ c ∈ calls, d.Issues c)
    {s : Store}
    (h : s.PlainNames d.queue) :
    (run d.rt d.queue calls s).PlainNames d.queue :=
  preserved (I := fun s => s.PlainNames d.queue)
    (fun _ _ hmove hs => hmove.plainNames (fun _ hcareful => hcareful) hs) (moves_run hcalls s) h

end Deployment

/-- The instruction makes a call that the clients make, sweeps as `sweeps` allows,
takes no registered worker out of the registry, and is no vacuum. -/
def Instruction.Admitted (issues : Call → Prop) (sweeps : Nat → Option String → World → Prop) :
    Instruction → World → Prop
  | .evalsha c, w => issues c ∧
      ∀ cutoff only, c = .reenqueueOrphaned cutoff only → sweeps cutoff only w
  | .zrem member, w => member ∉ w.store.workers
  | .vacuum, _ | .vacuumBefore _, _ => False
  | _, _ => True

/-- The call that the instruction makes. -/
def Instruction.call? : Instruction → Option Call
  | .evalsha c => some c
  | .fetch now batchSize worker => some (.fetchNext now batchSize worker)
  | _ => none

/-- The names are plain, and the time is not before the epoch. -/
structure World.Ready (w : World) (queue : String) (epoch : Nat) : Prop where
  plainNames : w.store.PlainNames queue
  late : epoch ≤ w.time

/-- A reading of some client's clock since the epoch. -/
structure World.Dated (w : World) (skew epoch now : Nat) : Prop where
  late : epoch ≤ now + skew
  early : now ≤ w.time + skew

/-- Removing a member that is not there. -/
theorem run_zrem_of_notMem
    (queue : String)
    {member : String}
    {s : Store}
    (hmember : member ∉ s.workers) :
    (Redis.zrem (Keys.workersSet queue) [member]).run s = (.ok (), s) := by
  have hsame : Hash.eraseAll s.workers [member] = s.workers := by
    refine Finmap.ext_lookup fun worker => ?_
    rw [Hash.lookup_eraseAll]
    split
    · next hworker =>
        rw [List.mem_singleton.mp hworker]
        exact (Finmap.lookup_eq_none.mpr hmember).symm
    · rfl
  simp [Redis.zrem, hsame]

/-- The silence that a filter takes for death, and the worker that it is about. -/
def Config.deadFor (cfg : Config) : WorkerFilter → Option Nat
  | .only _ => some cfg.heartbeatInterval.asSecs
  | .allExcept _ => cfg.orphanedDuration.map Duration.asSecs

def WorkerFilter.named : WorkerFilter → Option String
  | .only worker => some worker
  | .allExcept _ => none

/-- The sweep that an operation makes. -/
def Operation.filter? {core : Core} {Outcome : Type} :
    Operation core Outcome → Option WorkerFilter
  | .register worker _ => some (.only worker)
  | .heartbeat worker _ _ => some (.allExcept worker)
  | _ => none

namespace Deployment

variable {core : Core} {Outcome : Type} (d : Deployment core Outcome)

/-- **What an instruction that is admitted does**: nothing, or its call. -/
theorem effect_of_answers
    (sweeps : Nat → Option String → World → Prop)
    {i : Instruction}
    {w w' : World}
    {reply : i.Reply}
    (h : d.Answers i w reply w')
    (hadmitted : i.Admitted d.Issues sweeps w) :
    w' = w ∨ ∃ c, i.call? = some c ∧
      w' = { w with store := ((c.exec d.rt d.queue).run w.store).2 } := by
  cases i with
  | timestamp => exact .inl h.1
  | evalsha c =>
      cases h with
      | answered => exact .inr ⟨c, rfl, rfl⟩
      | replyLost e => exact .inr ⟨c, rfl, rfl⟩
      | commandLost e => exact .inl rfl
  | fetch now batchSize worker =>
      have hsame : ((Call.fetchNext now batchSize worker).exec d.rt d.queue |>.run w.store).2 =
          ((fetchNextScript d.rt d.queue now batchSize worker).run w.store).2 :=
        run_map_snd _ _ _
      cases h with
      | answered => exact .inr ⟨_, rfl, by rw [hsame]⟩
      | replyLost e => exact .inr ⟨_, rfl, by rw [hsame]⟩
      | commandLost e => exact .inl rfl
  | hget taskId field => exact .inl (eq_of_transmits h rfl)
  | zrem member =>
      exact .inl (eq_of_transmits h (congrArg Prod.snd (run_zrem_of_notMem d.queue hadmitted)))
  | vacuum => exact hadmitted.elim
  | vacuumBefore seconds => exact hadmitted.elim

/-- An instruction that is admitted leads on. -/
theorem leads_of_answers
    (sweeps : Nat → Option String → World → Prop)
    (i : Instruction)
    (w : World)
    (reply : i.Reply)
    (w' : World)
    (h : d.Answers i w reply w')
    (hadmitted : i.Admitted d.Issues sweeps w) :
    d.Leads w w' := by
  rcases d.effect_of_answers sweeps h hadmitted with rfl | ⟨c, hcall, rfl⟩
  · exact d.leads_refl _
  · refine ⟨Nat.le_refl _, [c], ?_, rfl⟩
    cases i with
    | evalsha c' =>
        cases hcall
        simpa using hadmitted.1
    | fetch now batchSize worker =>
        cases hcall
        simp [Issues]
    | _ => cases hcall

variable {d} {epoch : Nat} {sweeps : Nat → Option String → World → Prop}

theorem ready_of_leads
    {w w' : World}
    (h : d.Leads w w')
    (hready : w.Ready d.queue epoch) :
    w'.Ready d.queue epoch := by
  obtain ⟨htime, calls, hcalls, hstore⟩ := h
  refine ⟨?_, hready.late.trans htime⟩
  rw [hstore]
  exact plainNames_run hcalls hready.plainNames

theorem dated_of_leads
    {w w' : World}
    {now : Nat}
    (h : d.Leads w w')
    (hdated : w.Dated d.skew epoch now) :
    w'.Dated d.skew epoch now :=
  ⟨hdated.late, hdated.early.trans (Nat.add_le_add_right h.1 _)⟩

variable (d epoch sweeps)

/-- Whatever the other clients do, the operation keeps to admitted instructions. -/
def Admits {α : Type} (x : Async α) : Prop :=
  ∀ w, w.Ready d.queue epoch →
    Async.Yields d.Answers d.Leads (Instruction.Admitted d.Issues sweeps)
      (fun _ w' => w'.Ready d.queue epoch) x w

variable {d epoch sweeps} {α β : Type}

theorem admits_pure
    (a : α) :
    d.Admits epoch sweeps (pure a) :=
  fun _ hready => Async.yields_pure fun _ hleads => ready_of_leads hleads hready

theorem admits_fallible
    (x : Except String α) :
    d.Admits epoch sweeps (Async.fallible x) :=
  fun _ hready => Async.yields_fallible fun _ _ _ hleads => ready_of_leads hleads hready

/-- An instruction that is admitted keeps the world ready. -/
theorem ready_of_answers
    (sweeps : Nat → Option String → World → Prop)
    {i : Instruction}
    {w t u u' : World}
    {reply : i.Reply}
    (hready : w.Ready d.queue epoch)
    (ht : d.Leads w t)
    (hadmitted : i.Admitted d.Issues sweeps t)
    (hanswer : d.Answers i t reply u)
    (hu : d.Leads u u') :
    u'.Ready d.queue epoch :=
  ready_of_leads (d.leads_trans _ _ _ (d.leads_trans _ _ _ ht
    (d.leads_of_answers sweeps i t reply u hanswer hadmitted)) hu) hready

/-- A call that is admitted in every world to come. -/
theorem yields_evalsha
    {c : Call}
    {w : World}
    (hready : w.Ready d.queue epoch)
    (hadmitted : ∀ t, d.Leads w t → (Instruction.evalsha c).Admitted d.Issues sweeps t) :
    Async.Yields d.Answers d.Leads (Instruction.Admitted d.Issues sweeps)
      (fun _ w' => w'.Ready d.queue epoch) (Async.evalsha c) w :=
  Async.yields_evalsha hadmitted fun _ _ _ _ ht hanswer hu =>
    ready_of_answers sweeps hready ht (hadmitted _ ht) hanswer hu

theorem admits_evalsha
    {c : Call}
    (hissues : d.Issues c)
    (hsweeps : ∀ cutoff only, c ≠ .reenqueueOrphaned cutoff only) :
    d.Admits epoch sweeps (Async.evalsha c) :=
  fun _ hready => yields_evalsha hready fun _ _ =>
    ⟨hissues, fun cutoff only h => absurd h (hsweeps cutoff only)⟩

theorem admits_fetch
    (now batchSize : Nat)
    (worker : String) :
    d.Admits epoch sweeps (Async.fetch now batchSize worker) :=
  fun _ hready => Async.yields_fetch (fun _ _ => trivial) fun _ _ _ _ ht hanswer hu =>
    ready_of_answers (i := .fetch now batchSize worker) sweeps hready ht trivial hanswer hu

theorem admits_hget
    (taskId field : String) :
    d.Admits epoch sweeps (Async.hget taskId field) :=
  fun _ hready => Async.yields_hget (fun _ _ => trivial) fun _ _ _ _ ht hanswer hu =>
    ready_of_answers (i := .hget taskId field) sweeps hready ht trivial hanswer hu

theorem Admits.bind
    {x : Async α}
    {f : α → Async β}
    (hx : d.Admits epoch sweeps x)
    (hf : ∀ a, d.Admits epoch sweeps (f a)) :
    d.Admits epoch sweeps (x >>= f) :=
  fun w hready => (hx w hready).bind d.leads_refl fun a w' hready' => hf a w' hready'

theorem admits_catching
    {x : Async α}
    (hx : d.Admits epoch sweeps x) :
    d.Admits epoch sweeps (Async.catching x) := by
  intro w hready
  have hwithin := Program.Meets.within d.leads_trans (d.leads_of_answers sweeps)
    (d.leads_refl w) (hx w hready)
  exact (Async.returns_catching d.leads_refl (fun _ _ _ ht hw' => ready_of_leads ht hw')
    (hwithin.imp fun _ _ hw' => ready_of_leads hw'.2 hready)).yields

/-- What follows a reading of the clock may use that it is one. -/
theorem admits_timestamp_bind
    {f : Nat → Async α}
    (hf : ∀ now w, w.Ready d.queue epoch → w.Dated d.skew epoch now →
      Async.Yields d.Answers d.Leads (Instruction.Admitted d.Issues sweeps)
        (fun _ w' => w'.Ready d.queue epoch) (f now) w) :
    d.Admits epoch sweeps (Async.timestamp >>= f) := by
  intro w hready
  have hread : Async.Yields d.Answers d.Leads (Instruction.Admitted d.Issues sweeps)
      (fun now w' => w'.Ready d.queue epoch ∧ w'.Dated d.skew epoch now) Async.timestamp w := by
    refine Async.yields_timestamp (fun _ _ => trivial) fun t now u u' ht hanswer hu => ?_
    obtain ⟨rfl, hlate, hearly⟩ := hanswer
    have hreadyt := ready_of_leads ht hready
    exact ⟨ready_of_leads hu hreadyt,
      dated_of_leads hu ⟨hreadyt.late.trans hlate, hearly⟩⟩
  exact hread.bind d.leads_refl fun now w' ⟨hready', hdated⟩ => hf now w' hready' hdated

theorem admits_timestamp :
    d.Admits epoch sweeps Async.timestamp :=
  fun _ hready => Async.yields_timestamp (fun _ _ => trivial) fun _ _ _ _ ht hanswer hu =>
    ready_of_answers (i := .timestamp) sweeps hready ht trivial hanswer hu

variable {checks : Bool} {cfg : Config}

theorem admits_orphanedAfter :
    d.Admits epoch sweeps (Async.orphanedAfter cfg) := by
  unfold Async.orphanedAfter
  split
  · exact admits_pure _
  · exact admits_fallible _

/-- A sweep is admitted when all sweeps with its cutoff are. -/
theorem admits_reenqueueOrphaned
    (filter : WorkerFilter)
    (hsweeps : ∀ now deadFor cutoff w, w.Dated d.skew epoch now →
      cfg.deadFor filter = some deadFor → u64Sub checks now deadFor = some cutoff →
        sweeps cutoff filter.named w) :
    d.Admits epoch sweeps (Async.reenqueueOrphaned checks cfg filter) := by
  have hsweep : ∀ now deadFor, cfg.deadFor filter = some deadFor → ∀ w,
      w.Ready d.queue epoch → w.Dated d.skew epoch now →
        Async.Yields d.Answers d.Leads (Instruction.Admitted d.Issues sweeps)
          (fun _ w' => w'.Ready d.queue epoch) (do
            let cutoff ← Async.expiredBefore checks now deadFor
            Async.evalsha (.reenqueueOrphaned cutoff filter.named)) w := by
    intro now deadFor hdead w hready hdated
    unfold Async.expiredBefore
    cases hcutoff : u64Sub checks now deadFor with
    | none => exact admits_fallible (.error "attempt to subtract with overflow") w hready
    | some cutoff =>
        refine yields_evalsha hready fun t ht => ⟨trivial, fun cutoff' only h => ?_⟩
        cases h
        exact hsweeps now deadFor cutoff t (dated_of_leads ht hdated) hdead hcutoff
  refine admits_timestamp_bind fun now w hready hdated => ?_
  cases filter with
  | only worker => exact hsweep now _ rfl w hready hdated
  | allExcept worker =>
      unfold Async.orphanedAfter
      cases hduration : cfg.orphanedDuration with
      | none =>
          exact admits_fallible (.error "overflow when multiplying duration by scalar") w hready
      | some duration =>
          exact hsweep now duration.asSecs (by simp [Config.deadFor, hduration]) w hready hdated

/-- Every sweep of the clients is one that `sweeps` allows. -/
def SweepsWithin (d : Deployment core Outcome) (epoch : Nat)
    (sweeps : Nat → Option String → World → Prop) : Prop :=
  ∀ cfg op filter, d.uses cfg op → op.filter? = some filter →
    ∀ now deadFor cutoff w, w.Dated d.skew epoch now → cfg.deadFor filter = some deadFor →
      u64Sub d.overflowChecks now deadFor = some cutoff → sweeps cutoff filter.named w

theorem admits_cleanup
    (hqueue : cfg.queue = d.queue)
    (worker : String) :
    d.Admits epoch sweeps (Async.cleanup cfg worker) := by
  intro w hready
  have hadmitted : ∀ t, d.Leads w t → (Instruction.zrem (Keys.inflightSetFor cfg.queue
      worker).name).Admitted d.Issues sweeps t := by
    intro t ht hmember
    rw [hqueue] at hmember
    exact (ready_of_leads ht hready).plainNames _ hmember worker rfl
  exact Async.yields_zrem hadmitted fun t a u u' ht hanswer hu =>
    ready_of_answers sweeps hready ht (hadmitted t ht) hanswer hu

theorem admits_register
    {worker service : String}
    (hcareful : PlainName d.queue worker)
    (hsweep : d.Admits epoch sweeps (Async.reenqueueOrphaned checks cfg (.only worker))) :
    d.Admits epoch sweeps (Async.register checks cfg worker service) :=
  hsweep.bind fun _ => admits_timestamp.bind fun _ => admits_orphanedAfter.bind fun _ =>
    (admits_evalsha (by exact hcareful) (by simp)).bind fun _ => admits_pure ()

theorem admits_heartbeat
    {worker : String}
    {taskCount : Nat}
    {tasks : Option (List String)}
    (hsweep : d.Admits epoch sweeps (Async.reenqueueOrphaned checks cfg (.allExcept worker))) :
    d.Admits epoch sweeps (Async.heartbeat checks cfg worker taskCount tasks) := by
  have hlast := hsweep.bind fun _ => admits_pure ()
  have hrenew : d.Admits epoch sweeps (Async.renewLeases cfg worker taskCount tasks) := by
    unfold Async.renewLeases
    split
    · exact admits_pure 0
    · refine admits_timestamp.bind fun now => ?_
      cases tasks with
      | none => exact admits_fallible _
      | some taskIds => exact admits_evalsha (by trivial) (by simp)
  have hbeat : d.Admits epoch sweeps (Async.keepAlive worker) :=
    admits_timestamp.bind fun _ =>
      (admits_evalsha (by trivial) (by simp)).bind fun _ => admits_pure ()
  unfold Async.heartbeat
  refine hbeat.bind fun _ => ?_
  cases cfg.lockTasks with
  | true => exact hrenew.bind fun _ => hlast
  | false => exact hlast

theorem admits_handleEvents
    {worker : String}
    {events : List (TaskEvent core Outcome)}
    (hqueue : cfg.queue = d.queue)
    (huses : d.uses cfg (.handleEvents worker events)) :
    d.Admits epoch sweeps (Async.handleEvents cfg d.encode worker events) := by
  have hreports : d.ReportsWith cfg.emitEvents := ⟨cfg, worker, events, hqueue, huses, rfl⟩
  have hrecord : d.Admits epoch sweeps
      (Async.handleResults cfg d.encode worker (ackPayloads events)) := by
    unfold Async.handleResults
    split
    · exact admits_pure ()
    · exact admits_timestamp.bind fun _ => (admits_fallible _).bind fun _ =>
        (admits_evalsha (by exact hreports) (by simp)).bind fun _ => admits_pure ()
  have hlock : d.Admits epoch sweeps (Async.acquireLeases cfg worker (lockIds events)) := by
    unfold Async.acquireLeases
    split
    · exact admits_pure 0
    · exact admits_timestamp.bind fun _ => admits_evalsha (by trivial) (by simp)
  have hlast : d.Admits epoch sweeps (if !(ackPayloads events).isEmpty then
      Async.handleResults cfg d.encode worker (ackPayloads events) else pure ()) := by
    split
    · exact hrecord
    · exact admits_pure ()
  unfold Async.handleEvents
  split
  · exact admits_pure ()
  · dsimp only
    split
    · exact hlock.bind fun _ => hlast
    · exact hlast

/-- Reading the clock changes nothing, and the others keep what they keep. -/
theorem yields_timestamp_of_stable
    {R : World → World → Prop}
    {P : Instruction → World → Prop}
    {I : World → Prop}
    (hP : ∀ w, P .timestamp w)
    (hstable : ∀ w w', R w w' → I w → I w')
    {w : World}
    (hw : I w) :
    Async.Yields d.Answers R P (fun _ w' => I w') Async.timestamp w := by
  refine Async.yields_timestamp (fun t _ => hP t) fun t now u u' ht hanswer hu => ?_
  obtain ⟨rfl, -⟩ := hanswer
  exact hstable _ _ hu (hstable _ _ ht hw)

/-- The clock is read for every request. -/
theorem yields_submissions
    {I : World → Prop}
    (hstable : ∀ w w', d.Leads w w' → I w → I w')
    (requests : List (RedisTask core × core.TaskId))
    {w : World}
    (hw : I w) :
    Async.Yields d.Answers d.Leads (Instruction.Admitted d.Issues sweeps)
      (fun (subs : List (Submission core)) w' => I w' ∧
        subs.map (fun sub => (sub.request, sub.ulid)) = requests)
      (requests.mapM fun request => do
        let current ← Async.timestamp
        pure ⟨request.1, current, request.2⟩) w := by
  have hsub : ∀ request ∈ requests, ∀ w, I w →
      Async.Yields d.Answers d.Leads (Instruction.Admitted d.Issues sweeps)
        (fun (sub : Submission core) w' => I w' ∧ (sub.request, sub.ulid) = request) (do
          let current ← Async.timestamp
          pure ⟨request.1, current, request.2⟩) w := by
    intro request _ w hw
    exact (yields_timestamp_of_stable (fun _ => trivial) hstable hw).bind d.leads_refl
      fun _ w' hw' => Async.yields_pure fun t ht => ⟨hstable w' t ht hw', rfl⟩
  refine (Async.yields_mapM d.leads_refl hstable hsub hw).imp fun reply w' hreply subs hsubs => ?_
  obtain ⟨hw', hpairs⟩ := hreply subs hsubs
  refine ⟨hw', ?_⟩
  rw [← List.forall₂_eq_eq_eq, List.forall₂_map_left_iff]
  exact hpairs.flip

/-- What is submitted are requests. -/
theorem issues_submit
    {requests : List (RedisTask core × core.TaskId)}
    (hqueue : cfg.queue = d.queue)
    (huses : d.uses cfg (.pushTasks requests))
    {subs : List (Submission core)}
    (hsubs : subs.map (fun sub => (sub.request, sub.ulid)) = requests)
    (ttl : Nat)
    (emitEvents : Bool) :
    d.Issues (.submit ttl emitEvents subs) := by
  intro r hr
  obtain ⟨sub, hmem, rfl⟩ := List.mem_map.mp hr
  refine ⟨cfg, requests, hqueue, huses, sub, ?_, rfl⟩
  rw [← hsubs]
  exact List.mem_map_of_mem hmem

theorem admits_pushTasks
    {requests : List (RedisTask core × core.TaskId)}
    (hqueue : cfg.queue = d.queue)
    (huses : d.uses cfg (.pushTasks requests)) :
    d.Admits epoch sweeps (Async.pushTasks cfg requests) :=
  fun w hready => (yields_submissions (fun _ _ => ready_of_leads) requests hready).bind
    d.leads_refl fun _ w' ⟨hready', hsubs⟩ =>
      admits_evalsha (issues_submit hqueue huses hsubs _ _) (by simp [Call.submit]) w' hready'

theorem admits_checkTask
    {decode : String → Except String Outcome}
    (taskId : core.TaskId) :
    d.Admits epoch sweeps (Async.checkTask decode taskId) := by
  refine (admits_hget _ _).bind fun status => ?_
  cases status with
  | none => exact admits_pure none
  | some statusStr =>
      refine (admits_fallible _).bind fun status => (admits_hget _ _).bind fun result =>
        (admits_hget _ _).bind fun attempt => (admits_fallible _).bind fun attempt => ?_
      cases result with
      | none => exact admits_pure none
      | some data => exact (admits_fallible _).bind fun _ => admits_pure _

theorem admits_checkStatus
    {decode : String → Except String Outcome}
    (taskIds : List core.TaskId) :
    d.Admits epoch sweeps (Async.checkStatus decode taskIds) := by
  induction taskIds with
  | nil => exact admits_pure (Except.ok [])
  | cons taskId taskIds ih =>
      rw [Async.checkStatus]
      refine (admits_checkTask taskId).bind fun row => ?_
      rcases row with _ | (panic | result)
      · exact ih
      · exact admits_pure _
      · exact ih.bind fun results => admits_pure _

theorem admits_stream
    {decode : String → Except String Outcome}
    (orders : List HashOrder) :
    ∀ pendingIds : Finset String, d.Admits epoch sweeps
      (Async.stream decode orders pendingIds :
        Async (List (Except String (TaskResult core Outcome)))) := by
  induction orders with
  | nil => exact fun _ => admits_pure []
  | cons order orders ih =>
      intro pendingIds
      have hpoll : d.Admits epoch sweeps (Async.waitFor decode order pendingIds :
          Async (Option (List (Except String (TaskResult core Outcome)) × Finset String))) := by
        unfold Async.waitFor
        split
        · exact admits_pure none
        · refine (admits_fallible _).bind fun ids =>
            (admits_catching (admits_checkStatus ids)).bind fun checked => ?_
          rcases checked with e | (panic | results)
          · exact admits_pure _
          · exact admits_fallible _
          · dsimp only
            split <;> exact admits_pure _
      refine hpoll.bind fun polled => ?_
      cases polled with
      | none => exact admits_pure []
      | some round => exact (ih round.2).bind fun later => admits_pure _

/-- **The operations keep to admitted instructions, whatever the others do.** -/
theorem admits_program
    (hcareful : d.Careful)
    (hsweeps : d.SweepsWithin epoch sweeps)
    {op : Operation core Outcome}
    (hqueue : cfg.queue = d.queue)
    (huses : d.uses cfg op) :
    d.Admits epoch sweeps (d.program cfg op) := by
  cases op with
  | register worker service =>
      exact admits_register (hcareful.plainlyNamed cfg worker service huses)
        (admits_reenqueueOrphaned _ (hsweeps cfg _ _ huses rfl))
  | heartbeat worker taskCount tasks =>
      exact admits_heartbeat (admits_reenqueueOrphaned _ (hsweeps cfg _ _ huses rfl))
  | fetchNext worker =>
      have hfetch : d.Admits epoch sweeps (Async.fetchNext cfg core worker) :=
        admits_timestamp.bind fun _ => (admits_fetch _ _ _).bind fun _ =>
          (admits_fallible _).bind fun _ => admits_pure _
      exact hfetch.bind fun _ => admits_pure ()
  | handleEvents worker events => exact admits_handleEvents hqueue huses
  | reenqueueAbandoned worker tasks =>
      have hrelease : d.Admits epoch sweeps (Async.releaseLeases cfg worker tasks) := by
        unfold Async.releaseLeases
        cases tasks.mapM RedisTask.taskId with
        | some taskIds => exact admits_evalsha (by trivial) (by simp)
        | none => exact admits_fallible _
      have hwhole : d.Admits epoch sweeps (Async.reenqueueAbandoned cfg worker tasks) := by
        refine hrelease.bind fun count => ?_
        split <;> exact admits_pure _
      exact hwhole.bind fun _ => admits_pure ()
  | pushTasks requests => exact (admits_pushTasks hqueue huses).bind fun _ => admits_pure ()
  | checkStatus taskIds => exact (admits_checkStatus taskIds).bind fun _ => admits_pure ()
  | waitFor taskIds orders => exact (admits_stream orders _).bind fun _ => admits_pure ()
  | close worker => exact admits_cleanup hqueue worker
  | vacuum => exact (hcareful.keepsTasks cfg _ huses).elim
  | vacuumBefore duration => exact (hcareful.keepsTasks cfg _ huses).elim

variable (d epoch sweeps)

/-- The names are plain, the time is not before the epoch, and what is under way
keeps to admitted instructions. -/
structure Conforms (c : State) : Prop where
  ready : c.state.Ready d.queue epoch
  meets : c.AllMeet d.Answers d.Leads (Instruction.Admitted d.Issues sweeps)
    fun reply w' => ∀ a, reply = .ok a → w'.Ready d.queue epoch

variable {d epoch sweeps}

theorem conforms_idle
    {w : World}
    (hready : w.Ready d.queue epoch) :
    d.Conforms epoch sweeps ⟨w, []⟩ :=
  ⟨hready, fun _ hp => absurd hp List.not_mem_nil⟩

theorem meets_of_starts
    (hcareful : d.Careful)
    (hsweeps : d.SweepsWithin epoch sweeps)
    {p : Program Instruction Instruction.Reply (Except String Unit)}
    {w : World}
    (hp : d.Starts p)
    (hready : w.Ready d.queue epoch) :
    p.Meets d.Answers d.Leads (Instruction.Admitted d.Issues sweeps)
      (fun reply w' => ∀ a, reply = .ok a → w'.Ready d.queue epoch) w := by
  obtain ⟨cfg, op, hqueue, huses, rfl⟩ := hp
  exact admits_program hcareful hsweeps hqueue huses w hready

/-- A step is a run of calls, and an instruction that it performs is admitted. -/
theorem Conforms.step
    (hcareful : d.Careful)
    (hsweeps : d.SweepsWithin epoch sweeps)
    {l : Option Instruction}
    {c c' : State}
    (h : d.Conforms epoch sweeps c)
    (hstep : d.Step l c c') :
    d.Leads c.state c'.state ∧
      (∀ i, l = some i → i.Admitted d.Issues sweeps c.state) ∧ d.Conforms epoch sweeps c' := by
  obtain ⟨hleads, hadmitted, hmeets⟩ := Pool.Step.meets d.leads_refl d.leads_trans
    (d.leads_of_answers sweeps) (fun _ _ => d.leads_of_elapses) hstep
    (fun _ hp => meets_of_starts hcareful hsweeps hp h.ready) h.meets
  exact ⟨hleads, hadmitted, ready_of_leads hleads h.ready, hmeets⟩

/-- **Whatever the clients do is one run of calls.** -/
theorem Conforms.reaches
    (hcareful : d.Careful)
    (hsweeps : d.SweepsWithin epoch sweeps)
    {c c' : State}
    (h : d.Conforms epoch sweeps c)
    (hreaches : d.Reaches c c') :
    d.Leads c.state c'.state ∧ d.Conforms epoch sweeps c' := by
  obtain ⟨hleads, hmeets⟩ := Pool.meets_of_reaches d.leads_refl d.leads_trans
    (d.leads_of_answers sweeps) (fun _ _ => d.leads_of_elapses)
    (fun p w hp hw => meets_of_starts hcareful hsweeps hp (ready_of_leads hw h.ready))
    h.meets hreaches
  exact ⟨hleads, ready_of_leads hleads h.ready, hmeets⟩

theorem Conforms.others
    {β : Type}
    {f : β → Except String Unit}
    {x : Program Instruction Instruction.Reply β × State}
    (h : d.Conforms epoch sweeps (Pool.whole f x)) :
    d.Conforms epoch sweeps x.2 :=
  ⟨h.ready, fun p hp => h.meets p (List.mem_cons_of_mem _ hp)⟩

/-- **A specification under interference holds among clients that keep to it.** -/
theorem Conforms.watch
    (hcareful : d.Careful)
    (hsweeps : d.SweepsWithin epoch sweeps)
    {β : Type}
    {f : β → Except String Unit}
    {R : World → World → Prop}
    (hrefl : ∀ w, R w w)
    (htrans : ∀ w w' w'', R w w' → R w' w'' → R w w'')
    {S : Instruction → Prop}
    (hothers : ∀ l c c', d.Conforms epoch sweeps c → d.Step l c c' → (∀ i ∈ l, S i) →
      R c.state c'.state)
    {P : Instruction → World → Prop}
    {Q : β → World → Prop}
    {x y : Program Instruction Instruction.Reply β × State}
    (h : d.Conforms epoch sweeps (Pool.whole f x))
    (hmeets : x.1.Meets d.Answers R P Q x.2.state)
    (hruns : Relation.ReflTransGen (d.Watch S) x y) :
    y.1.Meets d.Answers R P Q y.2.state := by
  refine (preserved (I := fun x => d.Conforms epoch sweeps (Pool.whole f x) ∧
    x.1.Meets d.Answers R P Q x.2.state)
      (fun x y hwatch ⟨hx, hmeets⟩ => ?_) hruns ⟨h, hmeets⟩).2
  obtain ⟨l, hstep⟩ := hwatch.step f
  refine ⟨(hx.step hcareful hsweeps hstep).2.2, ?_⟩
  exact hwatch.meets htrans hrefl
    (fun l hstep hallowed => hothers l _ _ hx.others hstep hallowed) hmeets

/-- An operation that is started, watched until it is done, and gone. -/
theorem Conforms.watched
    (hcareful : d.Careful)
    (hsweeps : d.SweepsWithin epoch sweeps)
    {β : Type}
    (f : β → Except String Unit)
    {R : World → World → Prop}
    (hrefl : ∀ w, R w w)
    (htrans : ∀ w w' w'', R w w' → R w' w'' → R w w'')
    {S : Instruction → Prop}
    (hothers : ∀ l c c', d.Conforms epoch sweeps c → d.Step l c c' → (∀ i ∈ l, S i) →
      R c.state c'.state)
    {P : Instruction → World → Prop}
    {Q : β → World → Prop}
    {p : Program Instruction Instruction.Reply β}
    {b : β}
    {c c' : State}
    (h : d.Conforms epoch sweeps c)
    (hstarts : d.Starts (f <$> p))
    (hmeets : p.Meets d.Answers R P Q c.state)
    (hruns : Relation.ReflTransGen (d.Watch S) (p, c) (.done b, c')) :
    Q b c'.state ∧ d.Reaches c c' := by
  have hstart : d.Step none c (Pool.whole f (p, c)) := .start [] hstarts
  have hwhole := (h.step hcareful hsweeps hstart).2.2
  have hlast := hwhole.watch hcareful hsweeps hrefl htrans hothers hmeets hruns
  have hend : d.Step none (Pool.whole f (.done b, c')) c' := .drop []
  refine ⟨hlast c'.state (hrefl _), ?_⟩
  exact ((Relation.ReflTransGen.single ⟨_, hstart⟩).trans
    (hruns.lift (Pool.whole f) fun _ _ hwatch => hwatch.step f)).tail ⟨_, hend⟩

theorem ready_empty
    (time : Nat) :
    (World.mk Store.empty time).Ready d.queue time :=
  ⟨fun _ hworker => absurd hworker Finmap.notMem_empty, Nat.le_refl _⟩

variable (d)

/-- A server that answers every command, and a clock that is right. -/
def answer (i : Instruction) (w : World) : i.Reply × World :=
  let outcome := Async.serve d.rt d.queue i (w.store, fun _ => w.time)
  (outcome.1, { w with store := outcome.2.1 })

theorem answers_answer
    (i : Instruction)
    (w : World) :
    d.Answers i w (d.answer i w).1 (d.answer i w).2 := by
  cases i with
  | timestamp => exact ⟨rfl, Nat.le_add_right _ _, Nat.le_add_right _ _⟩
  | _ => exact .answered

/-- The world after an operation that nobody interferes with. -/
def after (cfg : Config) (op : Operation core Outcome) (w : World) : World :=
  ((d.program cfg op).run.alone d.answer w).2

/-- An operation after its first instructions. -/
def during : Nat → Program Instruction Instruction.Reply (Except String Unit) → World → State
  | n + 1, .perform i next, w => during n (next (d.answer i w).1) (d.answer i w).2
  | _, p, w => ⟨w, [p]⟩

/-- The clients may come to it one operation after another. -/
theorem reaches_after
    {op : Operation core Outcome}
    (hqueue : cfg.queue = d.queue)
    (huses : d.uses cfg op)
    (w : World) :
    d.Reaches ⟨w, []⟩ ⟨d.after cfg op w, []⟩ := by
  have hstart : d.Step none ⟨w, []⟩ ⟨w, [(d.program cfg op).run]⟩ :=
    .start [] ⟨cfg, op, hqueue, huses, rfl⟩
  exact (Relation.ReflTransGen.single ⟨_, hstart⟩).trans
    (Pool.reaches_alone d.answers_answer _ [] w)

end Deployment

/-- Moves from an empty queue without vacuums and halting pushes keep every task. -/
theorem sound_of_moves
    {rt : Runtime}
    {may : Powers}
    (hdiscard : ¬may.discard)
    (hstash : ¬may.stash)
    {s : Store}
    (hmoves : Moves rt may Store.empty s) :
    s.Sound := by
  have hkept : s.Covered ∧ s.Registered ∧ ∃ b, Reflects s b := by
    refine preserved (I := fun s => s.Covered ∧ s.Registered ∧ ∃ b, Reflects s b)
      (fun s t hmove hs => ?_) hmoves ⟨fun id hid => absurd hid Finmap.notMem_empty,
        fun worker hheld => absurd rfl hheld, _, reflects_empty⟩
    obtain ⟨hcovered, hregistered, b, hb⟩ := hs
    obtain ⟨b', -, hb'⟩ := move_simulates hdiscard _ _ b hmove hb
    exact ⟨hb.covered hdiscard hstash hmove hcovered, hmove.registered hregistered, b', hb'⟩
  obtain ⟨hcovered, hregistered, b, hb⟩ := hkept
  refine ⟨fun id hid => ?_, fun id p hp => ?_, hb.nodup, hregistered⟩
  · obtain ⟨p, hp⟩ := hcovered id hid
    refine ⟨p, hp, fun q hq => ?_⟩
    have hsame : some p = some q := ((hb.place id p).mp hp).symm.trans ((hb.place id q).mp hq)
    exact (Option.some.inj hsame).symm
  · have hplace : b id = some p := (hb.place id p).mp hp
    exact hb.stored id (by rw [hplace]; simp)

/-- No call changes the data of a task. -/
theorem lookup_jobData_run
    (rt : Runtime)
    (queue : String)
    (calls : List Call)
    {s : Store}
    {id : String}
    (hid : id ∈ s.jobData) :
    (run rt queue calls s).jobData.lookup id = s.jobData.lookup id := by
  refine preserved (I := fun t => t.jobData.lookup id = s.jobData.lookup id)
    (fun t u hmove ht => ?_) (moves_persistence rt queue calls s) rfl
  have hstored : id ∈ t.jobData := by
    rw [← Finmap.lookup_isSome, ht, Finmap.lookup_isSome]
    exact hid
  exact (hmove.lookup_jobData (fun hd => hd) hstored).trans ht

namespace Deployment

variable {core : Core} {Outcome : Type} {d : Deployment core Outcome} {time : Nat}

/-- Whatever the clients do to a store is one run of their calls. -/
theorem exists_run
    (hcareful : d.Careful)
    {c c' : State}
    (hready : ∃ epoch, d.Conforms epoch (fun _ _ _ => True) c)
    (hreaches : d.Reaches c c') :
    (∃ calls, (∀ call ∈ calls, d.Issues call) ∧
      c'.state.store = run d.rt d.queue calls c.state.store) ∧
        ∃ epoch, d.Conforms epoch (fun _ _ _ => True) c' := by
  obtain ⟨epoch, hconforms⟩ := hready
  obtain ⟨⟨-, hrun⟩, hconforms'⟩ :=
    hconforms.reaches hcareful (fun _ _ _ _ _ _ _ _ _ _ _ _ => trivial) hreaches
  exact ⟨hrun, epoch, hconforms'⟩

theorem conforms_of_reaches
    (hcareful : d.Careful)
    {c : State}
    (hreached : d.Reaches ⟨⟨Store.empty, time⟩, []⟩ c) :
    (∃ calls, (∀ call ∈ calls, d.Issues call) ∧
      c.state.store = run d.rt d.queue calls Store.empty) ∧
        ∃ epoch, d.Conforms epoch (fun _ _ _ => True) c :=
  exists_run hcareful ⟨time, conforms_idle (ready_empty time)⟩ hreached

theorem leads_of_reaches
    (hcareful : d.Careful)
    {c c' : State}
    (hreached : d.Reaches ⟨⟨Store.empty, time⟩, []⟩ c)
    (hlater : d.Reaches c c') :
    d.Leads c.state c'.state := by
  obtain ⟨-, epoch, hconforms⟩ := conforms_of_reaches hcareful hreached
  exact (hconforms.reaches hcareful (fun _ _ _ _ _ _ _ _ _ _ _ _ => trivial) hlater).1

/-- An operation among clients that anything else may come in between. -/
theorem watched_of_reaches
    (hcareful : d.Careful)
    {β : Type}
    (f : β → Except String Unit)
    {P : Instruction → World → Prop}
    {Q : β → World → Prop}
    {p : Program Instruction Instruction.Reply β}
    {b : β}
    {c c' : State}
    (hreached : d.Reaches ⟨⟨Store.empty, time⟩, []⟩ c)
    (hstarts : d.Starts (f <$> p))
    (hmeets : p.Meets d.Answers d.Leads P Q c.state)
    (hruns : Relation.ReflTransGen (d.Watch fun _ => True) (p, c) (.done b, c')) :
    Q b c'.state ∧ d.Reaches c c' := by
  obtain ⟨-, epoch, hconforms⟩ := conforms_of_reaches hcareful hreached
  have hsweeps : d.SweepsWithin epoch fun _ _ _ => True :=
    fun _ _ _ _ _ _ _ _ _ _ _ _ => trivial
  exact hconforms.watched hcareful hsweeps f d.leads_refl d.leads_trans
    (fun _ _ _ hc hstep _ => (hc.step hcareful hsweeps hstep).1) hstarts hmeets hruns

/-- `unpack` can take the metadata of every task that the clients push. -/
def FitsPushes (d : Deployment core Outcome) : Prop :=
  ∀ r, d.Pushes r → d.rt.Fits (2 * (pushMeta d.rt r).length)

theorem sound_of_reaches
    (hcareful : d.Careful)
    (hfits : d.FitsPushes)
    {c : State}
    (hreached : d.Reaches ⟨⟨Store.empty, time⟩, []⟩ c) :
    c.state.store.Sound := by
  obtain ⟨⟨calls, hcalls, hrun⟩, -⟩ := conforms_of_reaches hcareful hreached
  have hstash : ¬d.powers.stash := fun ⟨r, hr, hlong⟩ => hlong (hfits r hr)
  rw [hrun]
  exact sound_of_moves (fun hd => hd) hstash (moves_run hcalls Store.empty)

end Deployment

/-- **No interleaving loses or doubles a task, or moves a finished one.** -/
theorem interleaved_sound
    {core : Core}
    {Outcome : Type}
    (d : Deployment core Outcome)
    (hcareful : d.Careful)
    (hfits : d.FitsPushes)
    {time : Nat}
    {c c' : Deployment.State}
    (hreached : d.Reaches ⟨⟨Store.empty, time⟩, []⟩ c)
    (hlater : d.Reaches c c') :
    c'.state.store.Sound ∧
      (∀ id ∈ c.state.store.jobData,
        c'.state.store.jobData.lookup id = c.state.store.jobData.lookup id) ∧
      ∀ id, c.state.store.Finished id →
        (∀ p, c'.state.store.At id p ↔ c.state.store.At id p) ∧
          c'.state.store.jobMeta id = c.state.store.jobMeta id := by
  obtain ⟨⟨calls, -, hcalls⟩, hconforms⟩ := Deployment.conforms_of_reaches hcareful hreached
  obtain ⟨⟨later, -, hmore⟩, -⟩ := Deployment.exists_run hcareful hconforms hlater
  refine ⟨Deployment.sound_of_reaches hcareful hfits (hreached.trans hlater), fun id hid => ?_,
    fun id hfinished => ?_⟩
  · rw [hmore]
    exact lookup_jobData_run d.rt d.queue later hid
  · obtain ⟨b, -, hb⟩ := reflects_run d.rt d.queue calls reflects_empty
    rw [← hcalls] at hb
    obtain ⟨p, hp, hid⟩ := hb.final_of_finished hfinished
    obtain ⟨b', hb', hid', hmeta⟩ := settled_run d.rt d.queue later hp ⟨b, hb, hid, rfl⟩
    rw [hmore]
    refine ⟨fun q => ?_, hmeta⟩
    rw [hb'.place, hb.place, hid', hid]

/-- A name that is shorter than the name of any inflight set. -/
theorem plainName_of_short
    {queue worker : String}
    (hshort : worker.length ≤ queue.length) :
    PlainName queue worker := by
  rintro v rfl
  simp only [Keys.inflightJobsSet_name, String.length_append] at hshort
  have hword : ":inflight".length = 9 := by decide
  omega

/-- Clients with the default configuration, who register the names `w` and `v`, and
never vacuum. -/
def twoWorkers : Deployment Core.text String where
  rt := .ascending none
  overflowChecks := true
  encode := .ok
  decode := .ok
  queue := "default"
  skew := 0
  uses cfg op := cfg = .default ∧ op.KeepsTasks ∧
    ∀ worker service, op = .register worker service → worker = "w" ∨ worker = "v"

theorem fits_twoWorkers :
    twoWorkers.FitsPushes := by
  rintro r - limit ⟨⟩

theorem careful_twoWorkers :
    twoWorkers.Careful := by
  refine ⟨?_, fun cfg op huses => huses.2.1⟩
  rintro cfg worker service ⟨-, -, hnames⟩
  rcases hnames worker service rfl with rfl | rfl <;> exact plainName_of_short (by decide)

/-- One task is pushed at second 100. -/
def pushedWorld : World :=
  twoWorkers.after .default (.pushTasks [((plainPush "a" ∅).request, "a")]) ⟨Store.empty, 100⟩

/-- A worker registers and fetches it. -/
def fetchedWorld : World :=
  twoWorkers.after .default (.fetchNext "w")
    (twoWorkers.after .default (.register "w" "") pushedWorld)

theorem reaches_pushedWorld :
    twoWorkers.Reaches ⟨⟨Store.empty, 100⟩, []⟩ ⟨pushedWorld, []⟩ :=
  Deployment.reaches_after twoWorkers rfl ⟨rfl, by trivial, by simp⟩ _

theorem reaches_fetchedWorld :
    twoWorkers.Reaches ⟨pushedWorld, []⟩ ⟨fetchedWorld, []⟩ :=
  (Deployment.reaches_after twoWorkers rfl ⟨rfl, by trivial, by simp⟩ _).trans
    (Deployment.reaches_after twoWorkers rfl ⟨rfl, by trivial, by simp⟩ _)

theorem fetched_from_clients :
    "a" ∈ fetchedWorld.store.inflightJobs "w" ∧ fetchedWorld.store.Sound :=
  ⟨by decide +kernel, (interleaved_sound twoWorkers careful_twoWorkers fits_twoWorkers
    reaches_pushedWorld reaches_fetchedWorld).1⟩

end ApalisRedis
