import ApalisRedis.Decode
import ApalisRedis.Enqueue

/-!
# The storage factory and its push handler

A `RedisStorageFactory` hands out storages that sleep until a message on their
queue's `available` channel arrives.  The push handler splits the channel's name
on `:` and signals the `Pubsub` that is registered under the second piece.

**Results.**
* `channel_roundtrip_iff`: for which queues the handler finds the storage.
* `wakesStorages_iff`: when it wakes every storage of a queue.
-/

namespace ApalisRedis

open Lua Redis

/-- What a `Pubsub` shares: the waker of the task that polls it, and whether a
notification is pending. -/
structure Inner where
  waker : Option Nat
  set : Bool

/-- `Pubsub::new` -/
def Inner.new : Inner where
  waker := none
  set := false

/-- `Pubsub::signal`, with the task that it wakes. -/
def Inner.signal (inner : Inner) : Inner × Option Nat :=
  (⟨none, true⟩, inner.waker)

/-- `redis::PushInfo`: what follows the kind of a push message. -/
structure PushInfo where
  data : List RedisValue

/-- `parse_channel_info`: the namespace, the action and the signal in the name of
the channel. -/
def parseChannelInfo (push : PushInfo) : Option (String × String × String) :=
  match (push.data[1]? : Option RedisValue) with
  | some (.bulkString channelBytes) =>
      match String.fromUTF8? channelBytes with
      | some channelStr =>
          match (channelStr.toList.splitOn ':').map String.ofList with
          | _ :: ns :: action :: signal :: _ => some (ns, action, signal)
          | _ => none
      | none => none
  | _ => none

/-- `RedisStorageFactory`: the `Pubsub`s that were made, and which of them each
queue is registered with. -/
structure RedisStorageFactory where
  registry : Hash Nat
  pubsubs : List Inner

namespace RedisStorageFactory

/-- `RedisStorageFactory::new` -/
def new : RedisStorageFactory where
  registry := ∅
  pubsubs := []

/-- `create_with_config`, with the `Pubsub` that the storage polls. -/
def createWithConfig (factory : RedisStorageFactory) (config : Config) :
    Nat × RedisStorageFactory :=
  let poller := factory.pubsubs.length
  (poller,
    { registry := factory.registry.insert config.queue poller
      pubsubs := factory.pubsubs ++ [.new] })

/-- `create`, whose queue is named after the type of the arguments. -/
def create (factory : RedisStorageFactory) (typeName : String) : Nat × RedisStorageFactory :=
  factory.createWithConfig { Config.default with queue := typeName }

/-- One of the `Pubsub`s is signalled. -/
def signal (factory : RedisStorageFactory) (poller : Nat) :
    RedisStorageFactory × Option Nat :=
  ({ factory with pubsubs := factory.pubsubs.modify poller fun inner => inner.signal.1 },
    factory.pubsubs[poller]?.bind fun inner => inner.signal.2)

/-- The push sender that `new` installs. -/
def pushSender (factory : RedisStorageFactory) (push : PushInfo) :
    RedisStorageFactory × Option Nat :=
  match parseChannelInfo push with
  | some (ns, _, "available") =>
      match factory.registry.lookup ns with
      | some poller => factory.signal poller
      | none => (factory, none)
  | _ => (factory, none)

end RedisStorageFactory

/-- The message arrived on the channel. -/
def PushInfo.On (push : PushInfo) (channel : String) : Prop :=
  push.data[1]? = some (.bulkString channel.toUTF8)

/-- A message on the queue's channel, as the server pushes it to the subscriber
of `tasks:*:available`. -/
def availablePush (queue taskId : String) : PushInfo where
  data := [bulk "tasks:*:available", bulk (availableChannel queue), bulk taskId]

/-- The handler reads the queue's name off every message on its `available`
channel, and signals the storage that was created for the queue. -/
structure ChannelRoundTrips (queue : String) : Prop where
  parsed : ∀ push : PushInfo, push.On (availableChannel queue) →
    ∃ action, parseChannelInfo push = some (queue, action, "available")
  signalled : ∀ push : PushInfo, push.On (availableChannel queue) →
    ∀ (factory : RedisStorageFactory) (config : Config), config.queue = queue →
      (factory.createWithConfig config).2.pushSender push =
        (factory.createWithConfig config).2.signal (factory.createWithConfig config).1

theorem parseChannelInfo_of_on
    {push : PushInfo}
    {channel : String}
    (hon : push.On channel) :
    parseChannelInfo push =
      match (channel.toList.splitOn ':').map String.ofList with
      | _ :: ns :: action :: signal :: _ => some (ns, action, signal)
      | _ => none := by
  have hread : String.fromUTF8? channel.toUTF8 = some channel := by
    rw [String.fromUTF8?, String.toUTF8_eq_toByteArray, dif_pos channel.isValidUTF8]
    rfl
  unfold parseChannelInfo
  rw [show push.data[1]? = some (.bulkString channel.toUTF8) from hon]
  dsimp only
  rw [hread]

/-- The pieces of the channel's name: those of the queue's name stand between
the first and the last two. -/
theorem splitOn_availableChannel
    (queue : String) :
    (availableChannel queue).toList.splitOn ':' =
      "tasks".toList :: (queue.toList.splitOn ':' ++ ["active".toList, "available".toList]) := by
  have hchars : (availableChannel queue).toList =
      "tasks".toList ++ ':' :: (queue.toList ++ ':' :: "active:available".toList) := by
    simp [availableChannel]
  have htasks : ':' ∉ "tasks".toList := by
    decide
  have hends : "active:available".toList.splitOn ':' =
      ["active".toList, "available".toList] := by
    simp [List.splitOn_cons_eq_if_modifyHead]
  rw [hchars, List.splitOn_append_cons_self_of_not_mem htasks,
    List.splitOn_append_cons_self, hends]

/-- The handler takes everything up to the first `:` of the queue's name for it. -/
theorem parseChannelInfo_of_colon
    {push : PushInfo}
    {queue : String}
    {before after : List Char}
    (hon : push.On (availableChannel queue))
    (hqueue : queue.toList = before ++ ':' :: after)
    (hbefore : ':' ∉ before) :
    ∃ action signal, parseChannelInfo push = some (String.ofList before, action, signal) := by
  rw [parseChannelInfo_of_on hon, splitOn_availableChannel, hqueue,
    List.splitOn_append_cons_self_of_not_mem hbefore]
  cases hafter : after.splitOn ':' with
  | nil => exact absurd hafter (List.splitOn_ne_nil _ _)
  | cons piece pieces =>
      cases pieces with
      | nil => exact ⟨_, _, rfl⟩
      | cons piece' pieces => exact ⟨_, _, rfl⟩

theorem parseChannelInfo_of_no_colon
    {push : PushInfo}
    {queue : String}
    (hon : push.On (availableChannel queue))
    (hqueue : ':' ∉ queue.toList) :
    parseChannelInfo push = some (queue, "active", "available") := by
  rw [parseChannelInfo_of_on hon, splitOn_availableChannel, List.splitOn_eq_singleton hqueue]
  change some (String.ofList queue.toList, _, _) = _
  rw [String.ofList_toList, String.ofList_toList, String.ofList_toList]

theorem not_roundTrips_of_colon
    {queue : String}
    (hcolon : ':' ∈ queue.toList) :
    ¬ChannelRoundTrips queue := by
  rintro ⟨hparsed, -⟩
  obtain ⟨before, after, hqueue, hbefore⟩ := List.eq_append_cons_of_mem hcolon
  have hon : (availablePush queue "").On (availableChannel queue) := rfl
  obtain ⟨action, hparse⟩ := hparsed _ hon
  obtain ⟨action', signal, hparse'⟩ := parseChannelInfo_of_colon hon hqueue hbefore
  rw [hparse', Option.some.injEq, Prod.mk.injEq] at hparse
  have hsame : queue.toList = before := by
    rw [← hparse.1, String.toList_ofList]
  exact hbefore (hsame ▸ hcolon)

/-- **For which queues the handler finds the storage**: for those whose name has
no `:`. -/
theorem channel_roundtrip_iff
    (queue : String) :
    ChannelRoundTrips queue ↔ ':' ∉ queue.toList := by
  constructor
  · exact fun h hcolon => not_roundTrips_of_colon hcolon h
  · intro hqueue
    refine ⟨fun push hon => ⟨_, parseChannelInfo_of_no_colon hon hqueue⟩, ?_⟩
    rintro push hon factory config rfl
    unfold RedisStorageFactory.pushSender
    rw [parseChannelInfo_of_no_colon hon hqueue]
    have hlookup : (factory.createWithConfig config).2.registry.lookup config.queue =
        some (factory.createWithConfig config).1 :=
      Finmap.lookup_insert _
    simp only [hlookup]

/-- A queue whose name has a `:` is not found, and neither is one that is named
after a type. -/
theorem basic_queue_not_found :
    ¬ChannelRoundTrips "basic:queue" ∧
      let created := RedisStorageFactory.new.create "email_service::Email"
      created.2.pushSender (availablePush "email_service::Email" "t") = (created.2, none) := by
  refine ⟨not_roundTrips_of_colon (by decide), ?_⟩
  intro created
  have hon : (availablePush "email_service::Email" "t").On
      (availableChannel "email_service::Email") := rfl
  have hname : "email_service::Email".toList =
      "email_service".toList ++ ':' :: ":Email".toList := by
    decide
  obtain ⟨action, signal, hparse⟩ := parseChannelInfo_of_colon hon hname (by decide)
  have hunknown : created.2.registry.lookup "email_service" = none := by
    decide +kernel
  unfold RedisStorageFactory.pushSender
  rw [hparse]
  split
  · next heq =>
      cases heq
      rw [String.ofList_toList, hunknown]
  · rfl

/-- One of the two ways to make a storage. -/
inductive Creation where
  | create (typeName : String)
  | createWithConfig (config : Config)

/-- The queue of the storage that is made. -/
def Creation.queue : Creation → String
  | .create typeName => typeName
  | .createWithConfig config => config.queue

def Creation.exec (c : Creation) (factory : RedisStorageFactory) :
    Nat × RedisStorageFactory :=
  match c with
  | .create typeName => factory.create typeName
  | .createWithConfig config => factory.createWithConfig config

/-- The storages that a sequence of creations makes, each with its queue and the
`Pubsub` that it polls, and the factory after it. -/
def createAll : List Creation → RedisStorageFactory → List (String × Nat) × RedisStorageFactory
  | [], factory => ([], factory)
  | c :: rest, factory =>
      let made := c.exec factory
      let later := createAll rest made.2
      ((c.queue, made.1) :: later.1, later.2)

/-- The message signals the `Pubsub` of every storage of the queue, and of no other. -/
def WakesStorages (creations : List Creation) (push : PushInfo) (queue : String) : Prop :=
  let made := createAll creations .new
  ∀ storage ∈ made.1,
    (made.2.pushSender push).1.pubsubs[storage.2]?.map Inner.set = some true ↔
      storage.1 = queue

theorem exec_eq
    (c : Creation)
    (factory : RedisStorageFactory) :
    c.exec factory = (factory.pubsubs.length,
      { registry := factory.registry.insert c.queue factory.pubsubs.length
        pubsubs := factory.pubsubs ++ [.new] }) := by
  cases c <;> rfl

/-- What a sequence of creations leaves: a `Pubsub` of its own for each storage,
and a registry that knows one storage for each queue that has any. -/
structure Creates (creations : List Creation) (before : RedisStorageFactory)
    (made : List (String × Nat) × RedisStorageFactory) : Prop where
  queues : made.1.map Prod.fst = creations.map Creation.queue
  pollers : made.1.map Prod.snd = List.range' before.pubsubs.length creations.length
  pubsubs : made.2.pubsubs = before.pubsubs ++ List.replicate creations.length .new
  registered : ∀ queue poller, made.2.registry.lookup queue = some poller →
    (queue, poller) ∈ made.1 ∨ before.registry.lookup queue = some poller
  known : ∀ queue, queue ∈ made.1.map Prod.fst ∨ queue ∈ before.registry →
    queue ∈ made.2.registry

theorem creates_createAll
    (creations : List Creation)
    (factory : RedisStorageFactory) :
    Creates creations factory (createAll creations factory) := by
  induction creations generalizing factory with
  | nil => exact ⟨rfl, rfl, by simp [createAll], fun _ _ h => .inr h, by simp [createAll]⟩
  | cons c rest ih =>
      obtain ⟨hqueues, hpollers, hpubsubs, hregistered, hknown⟩ := ih (c.exec factory).2
      rw [exec_eq] at hqueues hpollers hpubsubs hregistered hknown
      rw [createAll, exec_eq]
      refine ⟨?_, ?_, ?_, fun queue poller hlookup => ?_, fun queue hqueue => ?_⟩
      · rw [List.map_cons, hqueues, List.map_cons]
      · rw [List.map_cons, hpollers, List.length_append, List.length_singleton,
          List.length_cons, List.range'_succ]
      · rw [hpubsubs, List.append_assoc, List.length_cons, List.replicate_succ,
          List.singleton_append]
      · rcases hregistered queue poller hlookup with hmem | hlookup
        · exact .inl (List.mem_cons_of_mem _ hmem)
        · rw [Hash.lookup_insert_ite] at hlookup
          split at hlookup
          · next heq =>
              cases hlookup
              exact .inl (heq ▸ List.mem_cons_self)
          · exact .inr hlookup
      · refine hknown queue ?_
        rw [List.map_cons, List.mem_cons] at hqueue
        rcases hqueue with (rfl | hmem) | hmem
        · exact .inr (Finmap.mem_insert.mpr (.inl rfl))
        · exact .inl hmem
        · exact .inr (Finmap.mem_insert.mpr (.inr hmem))

/-- Among fresh `Pubsub`s the message signals the one that its queue is registered with. -/
theorem signalled_iff
    {push : PushInfo}
    {queue action : String}
    (hparse : parseChannelInfo push = some (queue, action, "available"))
    {factory : RedisStorageFactory}
    {n : Nat}
    (hfresh : factory.pubsubs = List.replicate n .new)
    {poller : Nat}
    (hpoller : poller < n) :
    (factory.pushSender push).1.pubsubs[poller]?.map Inner.set = some true ↔
      factory.registry.lookup queue = some poller := by
  have hnew : (List.replicate n Inner.new)[poller]? = some .new := by
    simp [hpoller]
  unfold RedisStorageFactory.pushSender
  rw [hparse]
  cases hlookup : factory.registry.lookup queue with
  | none =>
      simp only [hlookup, hfresh, hnew]
      simp [Inner.new]
  | some registered =>
      simp only [hlookup, RedisStorageFactory.signal, hfresh, List.getElem?_modify, hnew]
      by_cases heq : registered = poller
      · simp [heq, Inner.signal]
      · simp [heq, Inner.new]

/-- A registry that knows one storage of a queue knows all of them when there is
no second one. -/
theorem registered_iff
    {storages : List (String × Nat)}
    (hnd : (storages.map Prod.snd).Nodup)
    {queue : String}
    {registered : Option Nat}
    (hmade : ∀ poller, registered = some poller → (queue, poller) ∈ storages)
    (hknown : queue ∈ storages.map Prod.fst → registered ≠ none) :
    (∀ storage ∈ storages, registered = some storage.2 ↔ storage.1 = queue) ↔
      (storages.map Prod.fst).count queue ≤ 1 := by
  obtain ⟨ofQueue, hof, hsub, hcount⟩ : ∃ ofQueue : List (String × Nat),
      (∀ storage, storage ∈ ofQueue ↔ storage ∈ storages ∧ storage.1 = queue) ∧
        ofQueue.Sublist storages ∧ (storages.map Prod.fst).count queue = ofQueue.length := by
    refine ⟨storages.filter fun storage => storage.1 == queue, by simp, List.filter_sublist, ?_⟩
    rw [List.count_eq_length_filter, List.filter_map, List.length_map]
    rfl
  rw [hcount]
  constructor
  · intro hall
    cases hregistered : registered with
    | none =>
        have hnone : ofQueue = [] := by
          refine List.eq_nil_iff_forall_not_mem.mpr fun storage hmem => ?_
          obtain ⟨hstorage, rfl⟩ := (hof storage).mp hmem
          exact hknown (List.mem_map_of_mem hstorage) hregistered
        rw [hnone]
        exact Nat.zero_le _
    | some poller =>
        -- All of them would poll the one `Pubsub` that is registered.
        have hsame : ofQueue.map Prod.snd = List.replicate ofQueue.length poller := by
          refine List.eq_replicate_iff.mpr ⟨List.length_map _, fun p hp => ?_⟩
          obtain ⟨storage, hmem, rfl⟩ := List.mem_map.mp hp
          obtain ⟨hstorage, hqueue⟩ := (hof storage).mp hmem
          have hlookup := (hall storage hstorage).mpr hqueue
          rw [hregistered] at hlookup
          exact (Option.some.inj hlookup).symm
        have hdistinct := hnd.sublist (hsub.map Prod.snd)
        rw [hsame] at hdistinct
        exact List.nodup_replicate.mp hdistinct
  · intro hone storage hstorage
    constructor
    · intro hregistered
      have hsame := List.inj_on_of_nodup_map hnd (hmade _ hregistered) hstorage rfl
      rw [← hsame]
    · rintro rfl
      obtain ⟨poller, hpoller⟩ :=
        Option.ne_none_iff_exists'.mp (hknown (List.mem_map_of_mem hstorage))
      have hfirst := (hof storage).mpr ⟨hstorage, rfl⟩
      have hsecond := (hof (storage.1, poller)).mpr ⟨hmade poller hpoller, rfl⟩
      rcases ofQueue with _ | ⟨made, _ | ⟨another, rest⟩⟩
      · cases hfirst
      · rw [List.mem_singleton] at hfirst hsecond
        rw [hpoller, hfirst, ← hsecond]
      · simp at hone

/-- **When the handler wakes every storage of a queue**: when no more than one was
made for it.  A later one replaces the earlier ones in the registry. -/
theorem wakesStorages_iff
    (creations : List Creation)
    {push : PushInfo}
    {queue action : String}
    (hparse : parseChannelInfo push = some (queue, action, "available")) :
    WakesStorages creations push queue ↔ (creations.map Creation.queue).count queue ≤ 1 := by
  obtain ⟨hqueues, hpollers, hpubsubs, hregistered, hknown⟩ :=
    creates_createAll creations RedisStorageFactory.new
  have hnd : ((createAll creations .new).1.map Prod.snd).Nodup := by
    rw [hpollers]
    exact List.nodup_range'
  have hmade : ∀ poller, (createAll creations .new).2.registry.lookup queue = some poller →
      (queue, poller) ∈ (createAll creations .new).1 := by
    intro poller hlookup
    refine (hregistered queue poller hlookup).resolve_right fun h => ?_
    cases h
  have hlisted : queue ∈ (createAll creations .new).1.map Prod.fst →
      (createAll creations .new).2.registry.lookup queue ≠ none := by
    intro hmem hnone
    exact Finmap.lookup_eq_none.mp hnone (hknown queue (.inl hmem))
  rw [← hqueues, ← registered_iff hnd hmade hlisted]
  refine forall₂_congr fun storage hstorage => ?_
  have hrange : storage.2 ∈ List.range' 0 creations.length :=
    hpollers ▸ List.mem_map_of_mem hstorage
  have hlt : storage.2 < creations.length := by
    rw [List.mem_range'_1] at hrange
    omega
  rw [signalled_iff hparse hpubsubs hlt]

/-- A storage for a queue of the given name. -/
def forQueue (queue : String) : Creation :=
  .createWithConfig { Config.default with queue }

/-- Storages of different queues are woken each on its own messages. -/
theorem email_and_sms_woken :
    WakesStorages [forQueue "email", forQueue "sms"] (availablePush "sms" "t") "sms" := by
  have hon : (availablePush "sms" "t").On (availableChannel "sms") := rfl
  exact (wakesStorages_iff _ (parseChannelInfo_of_no_colon hon (by decide))).mpr (by decide)

/-- The first of two storages of one queue is not woken. -/
theorem first_storage_not_woken :
    parseChannelInfo (availablePush "email" "t") = some ("email", "active", "available") ∧
      ¬WakesStorages [forQueue "email", forQueue "email"] (availablePush "email" "t")
        "email" := by
  have hon : (availablePush "email" "t").On (availableChannel "email") := rfl
  have hparse := parseChannelInfo_of_no_colon hon (by decide)
  refine ⟨hparse, fun h => ?_⟩
  have hfirst := (h ("email", 0) (by decide +kernel)).mpr rfl
  unfold RedisStorageFactory.pushSender at hfirst
  rw [hparse] at hfirst
  revert hfirst
  decide +kernel

end ApalisRedis
