import ApalisRedis.Announcements
import ApalisRedis.Pubsub

/-!
# From the active list to the polling task

A call appends a task and publishes; the connection brings the message to the push
sender of a factory; the push sender signals the `Pubsub` that the queue is
registered with; and the task that polls it gets an item.  Each of these is a step
of its own, and anything can come in between.

**Results.**
* `due_step`: a notification stays under way until a poll returns an item.
* `announced_wakes`: so the polling task does not sleep through an announced task.
-/

namespace ApalisRedis

open Lua Redis Script Systems

/-- Whether a subscriber of `tasks:*:available` gets the messages on the channel. -/
def subscribed (channel : String) : Bool :=
  "tasks:".toList.isPrefixOf channel.toList && ":available".toList.isSuffixOf channel.toList &&
    decide ("tasks:".length + ":available".length ≤ channel.length)

/-- A message as the connection hands it to the push sender. -/
def PushInfo.ofMessage (message : String × String) : PushInfo where
  data := [bulk "tasks:*:available", bulk message.1, bulk message.2]

/-- The `Pubsub` that the push sender signals. -/
def RedisStorageFactory.target (factory : RedisStorageFactory) (push : PushInfo) : Option Nat :=
  match parseChannelInfo push with
  | some (ns, _, "available") => factory.registry.lookup ns
  | _ => none

/-- What the push sender does. -/
theorem pushSender_eq
    (factory : RedisStorageFactory)
    (push : PushInfo) :
    factory.pushSender push =
      match factory.target push with
      | some poller => factory.signal poller
      | none => (factory, none) := by
  unfold RedisStorageFactory.pushSender RedisStorageFactory.target
  rcases parseChannelInfo push with _ | ⟨ns, action, signal⟩
  · rfl
  · by_cases havailable : signal = "available"
    · subst havailable
      rfl
    · simp [havailable]

namespace Wakeups

/-- The queue on the server; the messages on their way to the push sender, and how
many it has got; and the `Pubsub` of a storage, with the task that polls it. -/
structure State where
  store : Store
  inbox : List (String × String)
  received : Nat
  pubsub : Pubsub.State

/-- A call on the queue; a message of another queue; the push sender gets a message,
and stores if it is to signal; a signal wakes, or the polling task makes a step. -/
inductive Event where
  | call (c : Call)
  | foreign (message : String × String)
  | receive
  | inner (e : Pubsub.Event)

/-- Nothing has happened on the queue, and nobody polls yet. -/
def State.new : State where
  store := .empty
  inbox := []
  received := 0
  pubsub := .new

section System

variable (rt : Runtime) (queue : String) (factory : RedisStorageFactory) (poller : Nat)

/-- The step that an event makes, when it can happen. -/
def step (s : State) : Event → Option State
  | .call c =>
      let t := ((c.exec rt queue).run s.store).2
      some { s with
        store := t
        inbox := s.inbox ++
          (t.published.drop s.store.published.length).filter fun message => subscribed message.1 }
  | .foreign message =>
      some { s with inbox := s.inbox ++ [message].filter fun message => subscribed message.1 }
  | .receive =>
      match s.inbox with
      | [] => none
      | message :: rest =>
          if factory.target (.ofMessage message) = some poller then
            (Pubsub.step s.pubsub (.store s.received)).map fun pubsub =>
              { s with inbox := rest, received := s.received + 1, pubsub }
          else
            some { s with inbox := rest, received := s.received + 1 }
  | .inner (.store _) => none
  | .inner e => (Pubsub.step s.pubsub e).map fun pubsub => { s with pubsub }

/-- Whether the event is a step of a poll that returns an item. -/
def State.item (s : State) : Event → Bool
  | .inner e => s.pubsub.item e
  | _ => false

/-- A notification is under way: the flag is set, or a message that will set it is
on its way. -/
def State.Due (s : State) : Prop :=
  s.pubsub.inner.set = true ∨
    ∃ message ∈ s.inbox, factory.target (.ofMessage message) = some poller

/-- A signal has the number of its message, and a task that waits can be woken. -/
structure State.Coherent (s : State) : Prop where
  waiting : Pubsub.Waiting s.pubsub
  numbered : ∀ signal ∈ s.pubsub.storing, signal < s.received

/-- The push sender has seen to every message. -/
structure State.Quiet (s : State) : Prop where
  inbox : s.inbox = []
  storing : s.pubsub.storing = ∅

variable {rt queue factory poller}

/-- **What a step does.** -/
theorem step_cases
    {s t : State}
    {e : Event}
    (h : step rt queue factory poller s e = some t) :
    (∃ more store, (e = .receive → False) ∧ s.item e = false ∧
      t = { s with store, inbox := s.inbox ++ more }) ∨
    (∃ message rest, e = .receive ∧ s.inbox = message :: rest ∧
      (factory.target (.ofMessage message) ≠ some poller ∧
          t = { s with inbox := rest, received := s.received + 1 } ∨
        factory.target (.ofMessage message) = some poller ∧
          ∃ pubsub, Pubsub.step s.pubsub (.store s.received) = some pubsub ∧
            t = { s with inbox := rest, received := s.received + 1, pubsub })) ∨
    (∃ inner pubsub, e = .inner inner ∧ (∀ signal, inner ≠ .store signal) ∧
      Pubsub.step s.pubsub inner = some pubsub ∧ t = { s with pubsub }) := by
  cases e with
  | call c => exact .inl ⟨_, _, by simp, rfl, (Option.some.inj h).symm⟩
  | foreign message => exact .inl ⟨_, _, by simp, rfl, (Option.some.inj h).symm⟩
  | receive =>
      cases hinbox : s.inbox with
      | nil => simp [step, hinbox] at h
      | cons message rest =>
          refine .inr (.inl ⟨message, rest, rfl, rfl, ?_⟩)
          by_cases htarget : factory.target (.ofMessage message) = some poller
          · simp only [step, hinbox, if_pos htarget, Option.map_eq_some_iff] at h
            obtain ⟨pubsub, hpubsub, rfl⟩ := h
            exact .inr ⟨htarget, pubsub, hpubsub, rfl⟩
          · simp only [step, hinbox, if_neg htarget, Option.some.injEq] at h
            exact .inl ⟨htarget, h.symm⟩
  | inner e =>
      cases e with
      | store signal => cases h
      | _ =>
          obtain ⟨pubsub, hpubsub, rfl⟩ := Option.map_eq_some_iff.mp h
          exact .inr (.inr ⟨_, pubsub, rfl, by simp, hpubsub, rfl⟩)

/-- Only a poll that returns an item takes the flag. -/
theorem set_of_step
    {s t : Pubsub.State}
    {e : Pubsub.Event}
    (hset : s.inner.set = true)
    (hitem : s.item e = false)
    (hstep : Pubsub.step s e = some t) :
    t.inner.set = true := by
  rcases Pubsub.step_cases hstep with ⟨signal, rfl, rfl⟩ | ⟨signal, rfl, rfl⟩ | ⟨rfl, -, rfl⟩ |
    ⟨waker, rfl, -, rfl⟩ | ⟨woken, rfl, -, rfl⟩
  · rfl
  · exact hset
  · exact absurd (hset.symm.trans hitem) (by decide)
  · exact hset
  · exact absurd (hset.symm.trans hitem) (by decide)

/-- **A notification stays under way until a poll returns an item.** -/
theorem due_step
    {s t : State}
    {e : Event}
    (hdue : s.Due factory poller)
    (hitem : s.item e = false)
    (hstep : step rt queue factory poller s e = some t) :
    t.Due factory poller := by
  rcases step_cases hstep with ⟨more, store, -, -, rfl⟩ | ⟨message, rest, rfl, hinbox, hreceived⟩ |
    ⟨inner, pubsub, rfl, -, hpubsub, rfl⟩
  · refine hdue.imp id ?_
    rintro ⟨message, hmem, htarget⟩
    exact ⟨message, List.mem_append_left _ hmem, htarget⟩
  · rcases hreceived with ⟨htarget, rfl⟩ | ⟨-, pubsub, hpubsub, rfl⟩
    · refine hdue.imp id ?_
      rintro ⟨message', hmem, htarget'⟩
      rw [hinbox] at hmem
      rcases List.mem_cons.mp hmem with rfl | hrest
      · exact absurd htarget' htarget
      · exact ⟨message', hrest, htarget'⟩
    · rcases Pubsub.step_cases hpubsub with ⟨signal, -, rfl⟩ | ⟨_, ⟨⟩, _⟩ | ⟨⟨⟩, _⟩ | ⟨_, ⟨⟩, _⟩ |
        ⟨_, ⟨⟩, _⟩
      exact .inl rfl
  · exact hdue.imp (fun hset => set_of_step hset hitem hpubsub) id

/-- No event before an item takes a notification off its way. -/
theorem due_after
    {events : List Event}
    {s t : State}
    (hdue : s.Due factory poller)
    (h : after (step rt queue factory poller) s events = some t) :
    (∃ earlier e later u, events = earlier ++ e :: later ∧
      after (step rt queue factory poller) s earlier = some u ∧ u.item e = true) ∨
    t.Due factory poller := by
  refine history_induction (P := fun events t => (∃ earlier e later u,
    events = earlier ++ e :: later ∧ after (step rt queue factory poller) s earlier = some u ∧
      u.item e = true) ∨ t.Due factory poller) (.inr hdue) (fun events t e u ht ih hstep => ?_) h
  rcases ih with ⟨earlier, e', later, v, rfl, hv, hitem⟩ | hdue'
  · exact .inl ⟨earlier, e', later ++ [e], v, by simp, hv, hitem⟩
  · cases hitem : t.item e with
    | true => exact .inl ⟨events, e, [], t, by simp, ht, hitem⟩
    | false => exact .inr (due_step hdue' hitem hstep)

/-- The signals stay numbered, and a task that waits can be woken. -/
theorem State.Coherent.step
    {s t : State}
    {e : Event}
    (h : s.Coherent)
    (hstep : Wakeups.step rt queue factory poller s e = some t) :
    t.Coherent := by
  rcases step_cases hstep with ⟨more, store, -, -, rfl⟩ | ⟨message, rest, rfl, -, hreceived⟩ |
    ⟨inner, pubsub, rfl, hinner, hpubsub, rfl⟩
  · exact ⟨h.waiting, h.numbered⟩
  · rcases hreceived with ⟨-, rfl⟩ | ⟨-, pubsub, hpubsub, rfl⟩
    · exact ⟨h.waiting, fun signal hsignal =>
        (h.numbered signal hsignal).trans (Nat.lt_succ_self _)⟩
    · refine ⟨h.waiting.step hpubsub, fun signal hsignal => ?_⟩
      rcases Pubsub.step_cases hpubsub with ⟨_, ⟨⟩, rfl⟩ | ⟨_, ⟨⟩, _⟩ | ⟨⟨⟩, _⟩ | ⟨_, ⟨⟩, _⟩ |
        ⟨_, ⟨⟩, _⟩
      rcases Finset.mem_insert.mp hsignal with rfl | hold
      · exact Nat.lt_succ_self _
      · exact (h.numbered signal hold).trans (Nat.lt_succ_self _)
  · refine ⟨h.waiting.step hpubsub, fun signal hsignal => h.numbered signal ?_⟩
    rcases Pubsub.step_cases hpubsub with ⟨signal', rfl, -⟩ | ⟨signal', rfl, rfl⟩ | ⟨rfl, -, rfl⟩ |
      ⟨waker, rfl, -, rfl⟩ | ⟨woken, rfl, -, rfl⟩
    · exact absurd rfl (hinner signal')
    · exact Finset.mem_of_mem_erase hsignal
    · exact hsignal
    · exact hsignal
    · exact hsignal

theorem coherent_after
    {events : List Event}
    {s : State}
    (h : after (step rt queue factory poller) .new events = some s) :
    s.Coherent := by
  refine history_induction (P := fun _ s => s.Coherent) ⟨⟨?_, ?_⟩, ?_⟩
    (fun _ _ _ _ _ ih hstep => ih.step hstep) h
  · simp [State.new, Pubsub.State.new]
  · simp [State.new, Pubsub.State.new]
  · simp [State.new, Pubsub.State.new]

/-- The events that the connection and the push sender bring about. -/
def Event.Handling : Event → Prop
  | .receive => True
  | .inner (.wake _) => True
  | _ => False

theorem after_cons_eq_some
    {s t u : State}
    {e : Event}
    {events : List Event}
    (hstep : step rt queue factory poller s e = some t)
    (h : after (step rt queue factory poller) t events = some u) :
    after (step rt queue factory poller) s (e :: events) = some u := by
  rw [after, List.foldlM_cons, hstep]
  exact h

variable (rt queue factory poller)

/-- The push sender takes every message, whatever signals are under way. -/
theorem receives
    {s : State}
    (h : s.Coherent) :
    ∃ handled t, (∀ e ∈ handled, e.Handling) ∧
      after (step rt queue factory poller) s handled = some t ∧ t.inbox = [] ∧ t.Coherent := by
  induction hinbox : s.inbox generalizing s with
  | nil => exact ⟨[], s, by simp, rfl, hinbox, h⟩
  | cons message rest ih =>
      have hnext : ∃ t, step rt queue factory poller s .receive = some t ∧ t.inbox = rest := by
        by_cases htarget : factory.target (.ofMessage message) = some poller
        · have hnew : s.received ∉ s.pubsub.storing :=
            fun hmem => Nat.lt_irrefl _ (h.numbered _ hmem)
          simp [step, hinbox, htarget, Pubsub.step, hnew]
        · simp [step, hinbox, htarget]
      obtain ⟨t, hstep, ht⟩ := hnext
      obtain ⟨handled, u, hhandled, hu, hend⟩ := ih (h.step hstep) ht
      refine ⟨.receive :: handled, u, ?_, after_cons_eq_some hstep hu, hend⟩
      exact List.forall_mem_cons.mpr ⟨trivial, hhandled⟩

/-- And every signal wakes. -/
theorem wakes
    {s : State}
    (hinbox : s.inbox = []) :
    ∃ handled t, (∀ e ∈ handled, e.Handling) ∧
      after (step rt queue factory poller) s handled = some t ∧ t.Quiet := by
  induction hcard : s.pubsub.storing.card generalizing s with
  | zero => exact ⟨[], s, by simp, rfl, hinbox, Finset.card_eq_zero.mp hcard⟩
  | succ n ih =>
      obtain ⟨signal, hsignal⟩ : s.pubsub.storing.Nonempty := by
        rw [← Finset.card_pos, hcard]
        exact Nat.succ_pos n
      obtain ⟨t, hstep, ht, hleft⟩ : ∃ t, step rt queue factory poller s
          (.inner (.wake signal)) = some t ∧ t.inbox = [] ∧ t.pubsub.storing.card = n := by
        simp [step, Pubsub.step, hsignal, hinbox, hcard]
      obtain ⟨handled, u, hhandled, hu, hquiet⟩ := ih ht hleft
      refine ⟨.inner (.wake signal) :: handled, u, ?_, after_cons_eq_some hstep hu, hquiet⟩
      exact List.forall_mem_cons.mpr ⟨trivial, hhandled⟩

theorem settles
    {s : State}
    (h : s.Coherent) :
    ∃ handled t, (∀ e ∈ handled, e.Handling) ∧
      after (step rt queue factory poller) s handled = some t ∧ t.Quiet := by
  obtain ⟨received, t, hreceived, ht, hinbox, -⟩ := receives rt queue factory poller h
  obtain ⟨woken, u, hwoken, hu, hquiet⟩ := wakes rt queue factory poller hinbox
  refine ⟨received ++ woken, u, fun e he => ?_, ?_, hquiet⟩
  · exact (List.mem_append.mp he).elim (hreceived e) (hwoken e)
  · rw [after_append, ht]
    exact hu

variable {rt queue factory poller}

/-- The calls that announce what they append. -/
def Announcing : Call → Prop
  | .pushTasks _ emitEvents _ => emitEvents = true
  | .releaseLeases _ emitEvents _ => emitEvents = true
  | _ => False

theorem announced_exec
    (queue : String)
    {c : Call}
    (hc : Announcing c)
    (s : Store) :
    s.Announced ((c.exec rt queue).run s).2 queue := by
  cases c with
  | pushTasks ttl emitEvents batch =>
      obtain rfl : emitEvents = true := hc
      rw [Call.exec, run_map_snd]
      exact announced_pushTasks rt queue ttl batch s
  | releaseLeases worker emitEvents jobIds =>
      obtain rfl : emitEvents = true := hc
      exact announced_releaseLeases rt queue worker jobIds s
  | _ => exact hc.elim

theorem subscribed_available
    (queue : String) :
    subscribed (availableChannel queue) = true := by
  have hchars : (availableChannel queue).toList =
      "tasks:".toList ++ ((queue ++ ":active").toList ++ ":available".toList) := by
    simp [availableChannel]
  have hlength : (availableChannel queue).length = (availableChannel queue).toList.length :=
    String.length_toList.symm
  unfold subscribed
  rw [hlength, hchars, Bool.and_eq_true, Bool.and_eq_true, List.isPrefixOf_iff_prefix,
    List.isSuffixOf_iff_suffix, decide_eq_true_eq]
  refine ⟨⟨List.prefix_append _ _, ?_⟩, ?_⟩
  · rw [← List.append_assoc]
    exact List.suffix_append _ _
  · simp only [List.length_append, String.length_toList]
    omega

/-- A task that is appended and announced sets a notification on its way. -/
theorem due_of_announced
    (hqueue : ':' ∉ queue.toList)
    (hregistered : factory.registry.lookup queue = some poller)
    {c : Call}
    (hc : Announcing c)
    {s t : State}
    (hstep : step rt queue factory poller s (.call c) = some t)
    (happends : s.store.activeJobs.length < t.store.activeJobs.length) :
    t.Due factory poller := by
  obtain rfl := Option.some.inj hstep
  obtain ⟨ids, hactive, hpublished⟩ := announced_exec queue hc s.store
  cases ids with
  | nil =>
      dsimp only at happends
      rw [hactive, List.append_nil] at happends
      exact absurd happends (Nat.lt_irrefl _)
  | cons id ids =>
      refine .inr ⟨(availableChannel queue, id), List.mem_append_right _ ?_, ?_⟩
      · rw [hpublished, List.drop_left]
        exact List.mem_filter.mpr ⟨by simp, subscribed_available queue⟩
      · have hon : (PushInfo.ofMessage (availableChannel queue, id)).On
            (availableChannel queue) := rfl
        rw [RedisStorageFactory.target, parseChannelInfo_of_no_colon hon hqueue]
        exact hregistered

/-- The task that polls is not asleep: whether it is between two polls or in one, the
next look at the flag gives it an item. -/
structure State.Noticed (s : State) : Prop where
  awake : s.pubsub.poller ≠ .pending false false
  items : ∀ e, e = .swap ∨ e = .swapAgain → s.item (.inner e) = true

theorem noticed_of_due
    {s : State}
    (h : s.Coherent)
    (hquiet : s.Quiet)
    (hdue : s.Due factory poller) :
    s.Noticed := by
  have hset : s.pubsub.inner.set = true := by
    refine hdue.resolve_right ?_
    rintro ⟨message, hmem, -⟩
    rw [hquiet.inbox] at hmem
    cases hmem
  refine ⟨fun hpoller => ?_, fun e he => ?_⟩
  · obtain ⟨signal, hsignal⟩ := h.waiting.quiet hpoller hset
    rw [hquiet.storing] at hsignal
    cases hsignal
  · rcases he with rfl | rfl <;> exact hset

/-- The only storage of a queue is the one that the factory has registered for it. -/
theorem lookup_createAll
    (creations : List Creation)
    (hone : (creations.map Creation.queue).count queue ≤ 1)
    (hstorage : (queue, poller) ∈ (createAll creations .new).1) :
    (createAll creations .new).2.registry.lookup queue = some poller := by
  obtain ⟨hqueues, hpollers, -, hregistered, hknown⟩ :=
    creates_createAll creations RedisStorageFactory.new
  have hnd : ((createAll creations .new).1.map Prod.snd).Nodup := by
    rw [hpollers]
    exact List.nodup_range'
  rw [← hqueues] at hone
  refine ((registered_iff hnd (fun made hlookup => ?_) fun hmem hnone => ?_).mpr hone
    (queue, poller) hstorage).mpr rfl
  · exact (hregistered queue made hlookup).resolve_right fun h => by cases h
  · exact Finmap.lookup_eq_none.mp hnone (hknown queue (.inl hmem))

/-- **The polling task does not sleep through an announced task.**  When a push or a
release has appended to the active list of a queue with one storage and no `:` in its
name, then the push sender can always catch up with the messages; and whenever it has,
a poll has returned an item since, or the task is awake and the next look at the flag
gives it one. -/
theorem announced_wakes
    (rt : Runtime)
    (hqueue : ':' ∉ queue.toList)
    (creations : List Creation)
    (hone : (creations.map Creation.queue).count queue ≤ 1)
    (hstorage : (queue, poller) ∈ (createAll creations .new).1)
    {before since : List Event}
    {c : Call}
    (hc : Announcing c)
    {s t u : State}
    (hs : after (step rt queue (createAll creations .new).2 poller) .new before = some s)
    (ht : step rt queue (createAll creations .new).2 poller s (.call c) = some t)
    (happends : s.store.activeJobs.length < t.store.activeJobs.length)
    (hu : after (step rt queue (createAll creations .new).2 poller) t since = some u) :
    (∃ handled v, (∀ e ∈ handled, e.Handling) ∧
      after (step rt queue (createAll creations .new).2 poller) u handled = some v ∧ v.Quiet) ∧
    (u.Quiet → u.Noticed ∨ ∃ earlier e later v, since = earlier ++ e :: later ∧
      after (step rt queue (createAll creations .new).2 poller) t earlier = some v ∧
        v.item e = true) := by
  have hrun : after (step rt queue (createAll creations .new).2 poller) .new
      (before ++ .call c :: since) = some u := by
    rw [after_append, hs]
    exact after_cons_eq_some ht hu
  have hcoherent := coherent_after hrun
  refine ⟨settles rt queue _ poller hcoherent, fun hquiet => ?_⟩
  have hdue := due_of_announced hqueue (lookup_createAll creations hone hstorage) hc ht happends
  exact (due_after hdue hu).symm.imp (noticed_of_due hcoherent hquiet) id

end System

/-- One storage for the queue `email`, whose task has gone to sleep, and a worker that
has fetched a task. -/
def asleep : List Event :=
  [.inner .swap, .inner (.register 7), .inner .swapAgain, .call registerW,
    .call (.submit 0 true [plainPush "a" ∅]), .call (.fetchNext 12 1 "w")]

/-- The state after some events, if they can happen. -/
def reached (events : List Event) : State :=
  (after (step (.ascending none) "email" (createAll [forQueue "email"] .new).2 0) .new
    events).getD .new

theorem after_eq_reached
    {events : List Event}
    (h : (after (step (.ascending none) "email" (createAll [forQueue "email"] .new).2 0) .new
      events).isSome = true) :
    after (step (.ascending none) "email" (createAll [forQueue "email"] .new).2 0) .new events =
      some (reached events) := by
  obtain ⟨s, hs⟩ := Option.isSome_iff_exists.mp h
  rw [reached, hs]
  rfl

/-- The worker gives the task back, and the sleeping task is woken. -/
theorem released_wakes :
    (reached (asleep ++ [.call (.releaseLeases "w" true []), .receive,
      .inner (.wake 0)])).Noticed := by
  have hs := @after_eq_reached asleep (by decide +kernel)
  have hu := @after_eq_reached (asleep ++ [.call (.releaseLeases "w" true []), .receive,
    .inner (.wake 0)]) (by decide +kernel)
  rw [after_append, hs, Option.bind_some] at hu
  have hquiet : (reached (asleep ++ [.call (.releaseLeases "w" true []), .receive,
      .inner (.wake 0)])).Quiet := ⟨by decide +kernel, by decide +kernel⟩
  have hc : Announcing (.releaseLeases "w" true []) := rfl
  rcases (announced_wakes (.ascending none) (by decide) [forQueue "email"] (by decide)
    (by decide +kernel) hc hs rfl (by decide +kernel) hu).2 hquiet with hnoticed | hitem
  · exact hnoticed
  · obtain ⟨earlier, e, later, v, hsplit, -, hitem⟩ := hitem
    have he : e ∈ [Event.receive, .inner (.wake 0)] := by simp [hsplit]
    rcases List.mem_pair.mp he with rfl | rfl <;> cases hitem

end Wakeups
end ApalisRedis
