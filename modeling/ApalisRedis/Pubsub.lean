import ApalisRedis.Factory
import ApalisRedis.Systems.Histories

/-!
# The `Pubsub` stream

`signal` sets a flag and then wakes the task that polls the stream; `poll_next`
takes the flag, registers the task's waker, and takes the flag once more.  Other
calls can come between any two of these steps.

**Results.**
* `after_signal`, `after_pollNext`: the steps of a call that nothing comes between are
  the call.
* `set_iff_signalSince`: the flag is set when a signal stored since the last item.
* `noLostWakeup`: a task that waits is woken for every signal, and gets its item.
* `woken_before_return`: a task can be woken before its poll returns `Pending`.
-/

namespace ApalisRedis
namespace Pubsub

open Systems

/-- Where the polling task is: between polls, before the first one or after an
item; inside `poll_next`, after the first swap or after the registration; or
between polls, after `Pending`.  The flags tell whether the task was woken after
it registered: before the poll returned (`early`) and since then (`late`). -/
inductive Poller where
  | idle
  | swapped
  | registered (woken : Bool)
  | pending (early late : Bool)
deriving DecidableEq

/-- A `Pubsub` with its polling task, and the calls of `signal` that have stored and
not yet woken. -/
structure State where
  inner : Inner
  poller : Poller
  storing : Finset Nat

/-- One atomic step of a call of `signal`, or of a poll. -/
inductive Event where
  | store (signal : Nat)
  | wake (signal : Nat)
  | swap
  | register (waker : Nat)
  | swapAgain

/-- A new `Pubsub`, which is not polled yet. -/
def State.new : State where
  inner := .new
  poller := .idle
  storing := ∅

/-- The waker was woken, if it is the one that the task registered last. -/
def Poller.wake : Poller → Poller
  | registered _ => registered true
  | pending early _ => pending early true
  | poller => poller

/-- The step that an event makes, when it can happen. -/
def step (s : State) : Event → Option State
  | .store signal =>
      if signal ∈ s.storing then none
      else some { s with inner.set := true, storing := insert signal s.storing }
  | .wake signal =>
      if signal ∈ s.storing then
        some
          { inner := { s.inner with waker := none }
            poller := if s.inner.waker.isSome then s.poller.wake else s.poller
            storing := s.storing.erase signal }
      else none
  | .swap =>
      match s.poller with
      | .idle | .pending .. =>
          some { s with
            inner.set := false
            poller := if s.inner.set then .idle else .swapped }
      | _ => none
  | .register waker =>
      match s.poller with
      | .swapped => some { s with inner.waker := some waker, poller := .registered false }
      | _ => none
  | .swapAgain =>
      match s.poller with
      | .registered woken =>
          some { s with
            inner.set := false
            poller := if s.inner.set then .idle else .pending woken false }
      | _ => none

/-- The state after some events, from a new `Pubsub`. -/
def afterEvents (events : List Event) : Option State :=
  after step .new events

/-- Whether the event is a swap that finds the flag set, so that the poll returns an
item. -/
def State.item (s : State) : Event → Bool
  | .swap | .swapAgain => s.inner.set
  | _ => false

/-- **What a step does.** -/
theorem step_cases
    {s t : State}
    {e : Event}
    (h : step s e = some t) :
    (∃ signal, e = .store signal ∧
      t = { s with inner.set := true, storing := insert signal s.storing }) ∨
    (∃ signal, e = .wake signal ∧
      t = { inner := { s.inner with waker := none }
            poller := if s.inner.waker.isSome then s.poller.wake else s.poller
            storing := s.storing.erase signal }) ∨
    (e = .swap ∧ (s.poller = .idle ∨ ∃ early late, s.poller = .pending early late) ∧
      t = { s with inner.set := false, poller := if s.inner.set then .idle else .swapped }) ∨
    (∃ waker, e = .register waker ∧ s.poller = .swapped ∧
      t = { s with inner.waker := some waker, poller := .registered false }) ∨
    (∃ woken, e = .swapAgain ∧ s.poller = .registered woken ∧
      t = { s with
            inner.set := false
            poller := if s.inner.set then .idle else .pending woken false }) := by
  cases e with
  | store signal =>
      rw [step] at h
      split at h
      · cases h
      · exact .inl ⟨signal, rfl, (Option.some.inj h).symm⟩
  | wake signal =>
      rw [step] at h
      split at h
      · exact .inr (.inl ⟨signal, rfl, (Option.some.inj h).symm⟩)
      · cases h
  | swap =>
      cases hpoller : s.poller with
      | idle =>
          simp only [step, hpoller] at h
          exact .inr (.inr (.inl ⟨rfl, .inl rfl, (Option.some.inj h).symm⟩))
      | pending early late =>
          simp only [step, hpoller] at h
          exact .inr (.inr (.inl ⟨rfl, .inr ⟨early, late, rfl⟩, (Option.some.inj h).symm⟩))
      | _ => simp [step, hpoller] at h
  | register waker =>
      cases hpoller : s.poller with
      | swapped =>
          simp only [step, hpoller] at h
          exact .inr (.inr (.inr (.inl ⟨waker, rfl, rfl, (Option.some.inj h).symm⟩)))
      | _ => simp [step, hpoller] at h
  | swapAgain =>
      cases hpoller : s.poller with
      | registered woken =>
          simp only [step, hpoller] at h
          exact .inr (.inr (.inr (.inr ⟨woken, rfl, rfl, (Option.some.inj h).symm⟩)))
      | _ => simp [step, hpoller] at h

/-- `Pubsub::poll_next`: whether an item is ready. -/
def pollNext (inner : Inner) (waker : Nat) : Bool × Inner :=
  if inner.set then
    (true, { inner with set := false })
  else
    let inner := { inner with waker := some waker }
    if inner.set then
      (true, { inner with set := false })
    else
      (false, inner)

/-- The two steps of a call of `signal`. -/
theorem after_signal
    (s : State)
    {signal : Nat}
    (hsignal : signal ∉ s.storing) :
    after step s [.store signal, .wake signal] =
      some
        { inner := s.inner.signal.1
          poller := if s.inner.signal.2.isSome then s.poller.wake else s.poller
          storing := s.storing } := by
  have hstore : step s (.store signal) =
      some { s with inner.set := true, storing := insert signal s.storing } := if_neg hsignal
  have hwake : step { s with inner.set := true, storing := insert signal s.storing }
      (.wake signal) = _ := if_pos (Finset.mem_insert_self signal s.storing)
  rw [after, List.foldlM_cons, hstore, Option.bind_eq_bind, Option.bind_some, List.foldlM_cons,
    hwake, Finset.erase_insert hsignal]
  rfl

/-- The steps of a poll: one when there is an item, else three. -/
theorem after_pollNext
    (s : State)
    (waker : Nat)
    (hpoller : s.poller = .idle ∨ ∃ early late, s.poller = .pending early late) :
    after step s (if s.inner.set then [.swap] else [.swap, .register waker, .swapAgain]) =
      some
        { s with
          inner := (pollNext s.inner waker).2
          poller := if (pollNext s.inner waker).1 then .idle else .pending false false } := by
  obtain ⟨⟨registered, set⟩, poller, storing⟩ := s
  cases set <;> rcases hpoller with rfl | ⟨early, late, rfl⟩ <;> rfl

/-- After some events, the next one returns an item. -/
def Yields (events : List Event) (e : Event) : Prop :=
  ∃ s t, afterEvents events = some s ∧ step s e = some t ∧ s.item e = true

/-- Some call of `signal` stored since the last item. -/
def SignalSince (events : List Event) : Prop :=
  ∃ before signal since, events = before ++ .store signal :: since ∧
    ∀ earlier e later, since = earlier ++ e :: later →
      ¬Yields (before ++ .store signal :: earlier) e

theorem signalSince_append_singleton
    {events : List Event}
    {e : Event} :
    SignalSince (events ++ [e]) ↔
      (∃ signal, e = .store signal) ∨ SignalSince events ∧ ¬Yields events e := by
  constructor
  · rintro ⟨before, signal, since, heq, hsince⟩
    rcases List.eq_nil_or_concat since with rfl | ⟨since, last, rfl⟩
    · exact .inl ⟨signal, List.singleton_inj.mp (List.append_inj' heq rfl).2⟩
    · have hsplit : events ++ [e] = (before ++ .store signal :: since) ++ [last] := by
        rw [heq]
        simp
      obtain ⟨rfl, hlast⟩ := List.append_inj' hsplit rfl
      cases hlast
      refine .inr ⟨⟨before, signal, since, rfl, fun earlier e' later hsplit' => ?_⟩, ?_⟩
      · exact hsince earlier e' (later ++ [e]) (by simp [hsplit'])
      · exact hsince since e [] (by simp)
  · rintro (⟨signal, rfl⟩ | ⟨⟨before, signal, since, rfl, hsince⟩, hyields⟩)
    · exact ⟨events, signal, [], rfl, by simp⟩
    · refine ⟨before, signal, since ++ [e], by simp, fun earlier e' later hsplit => ?_⟩
      rcases List.eq_nil_or_concat later with rfl | ⟨later, last, rfl⟩
      · obtain ⟨rfl, hlast⟩ := List.append_inj' hsplit rfl
        cases hlast
        exact hyields
      · have hsplit' : since ++ [e] = (earlier ++ e' :: later) ++ [last] := by
          rw [hsplit]
          simp
        exact hsince earlier e' later (List.append_inj' hsplit' rfl).1

/-- **The flag is set when a signal stored since the last item.** -/
theorem set_iff_signalSince
    {events : List Event}
    {s : State}
    (h : afterEvents events = some s) :
    s.inner.set = true ↔ SignalSince events := by
  refine history_induction (P := fun events s => s.inner.set = true ↔ SignalSince events)
    ?_ (fun events s e t hs ih hstep => ?_) h
  · refine iff_of_false (by decide) ?_
    rintro ⟨before, signal, since, heq, -⟩
    cases before <;> cases heq
  · have hyields : Yields events e ↔ s.item e = true := by
      constructor
      · rintro ⟨s', t', hs', -, hitem⟩
        cases hs.symm.trans hs'
        exact hitem
      · exact fun hitem => ⟨s, t, hs, hstep, hitem⟩
    rw [signalSince_append_singleton, hyields, ← ih]
    rcases step_cases hstep with ⟨signal, rfl, rfl⟩ | ⟨signal, rfl, rfl⟩ | ⟨rfl, -, rfl⟩ |
      ⟨waker, rfl, -, rfl⟩ | ⟨woken, rfl, -, rfl⟩
    · simp
    · simp [State.item]
    · simp [State.item]
    · simp [State.item]
    · simp [State.item]

/-- A task that registered and was not woken can be woken, and when it waits while
the flag is set, some call of `signal` is still to wake it. -/
structure Waiting (s : State) : Prop where
  armed : s.poller = .registered false ∨ s.poller = .pending false false → s.inner.waker.isSome
  quiet : s.poller = .pending false false → s.inner.set = true → s.storing.Nonempty

theorem Poller.wake_ne
    (poller : Poller) :
    poller.wake ≠ .registered false ∧ poller.wake ≠ .pending false false := by
  cases poller <;> simp [Poller.wake]

theorem Waiting.step
    {s t : State}
    {e : Event}
    (h : Waiting s)
    (hstep : Pubsub.step s e = some t) :
    Waiting t := by
  rcases step_cases hstep with ⟨signal, rfl, rfl⟩ | ⟨signal, rfl, rfl⟩ | ⟨rfl, -, rfl⟩ |
    ⟨waker, rfl, -, rfl⟩ | ⟨woken, rfl, hpoller, rfl⟩
  · exact ⟨h.armed, fun _ _ => ⟨signal, Finset.mem_insert_self signal _⟩⟩
  · -- A task that could be woken was, and another one has not registered since.
    have hwoken : (if s.inner.waker.isSome then s.poller.wake else s.poller) ≠
        .registered false ∧ (if s.inner.waker.isSome then s.poller.wake else s.poller) ≠
          .pending false false := by
      by_cases hwaker : s.inner.waker.isSome = true
      · rw [if_pos hwaker]
        exact s.poller.wake_ne
      · rw [if_neg hwaker]
        exact not_or.mp (mt h.armed hwaker)
    exact ⟨fun hpoller => absurd hpoller (not_or.mpr hwoken),
      fun hpoller => absurd hpoller hwoken.2⟩
  · constructor
    · intro hpoller
      cases hset : s.inner.set <;> simp [hset] at hpoller
    · intro _ hset
      cases hset
  · exact ⟨fun _ => rfl, fun hpoller => by cases hpoller⟩
  · constructor
    · intro hpending
      cases hset : s.inner.set with
      | true => simp [hset] at hpending
      | false =>
          have hwoken : woken = false := by simpa [hset] using hpending
          exact h.armed (.inl (hwoken ▸ hpoller))
    · intro _ hset
      cases hset

theorem waiting_afterEvents
    {events : List Event}
    {s : State}
    (h : afterEvents events = some s) :
    Waiting s := by
  refine history_induction (P := fun _ s => Waiting s) ?_
    (fun _ _ _ _ _ ih hstep => ih.step hstep) h
  exact ⟨by simp [State.new], by simp [State.new]⟩

/-- What holds after some events. -/
structure NoLostWakeup (events : List Event) (s : State) : Prop where
  /-- A task that waits and was not woken since it registered has nothing to take, or
  will be woken. -/
  quiet : s.poller = .pending false false → s.inner.set = false ∨ s.storing.Nonempty
  /-- Any wake-up reaches a task that waits and was not woken. -/
  wakes : s.poller = .pending false false → ∀ signal t, step s (.wake signal) = some t →
    t.poller = .pending false true
  /-- A signal since the last item has woken the waiting task, or is about to. -/
  woken : SignalSince events → ∀ early late, s.poller = .pending early late →
    (early = true ∨ late = true) ∨ s.storing.Nonempty
  /-- Such a signal gives an item to the next poll, at once. -/
  polls : SignalSince events → (s.poller = .idle ∨ ∃ early late, s.poller = .pending early late) →
    ∃ t, step s .swap = some t ∧ s.item .swap = true ∧ t.poller = .idle
  /-- And to a poll that is under way; and no poll has an item without such a signal. -/
  yields : ∀ e t, step s e = some t →
    (s.item e = true ↔ (e = .swap ∨ e = .swapAgain) ∧ SignalSince events)

/-- **No wake-up is lost**, however the steps of one polling task and of any calls
of `signal` come after each other. -/
theorem noLostWakeup
    {events : List Event}
    {s : State}
    (h : afterEvents events = some s) :
    NoLostWakeup events s := by
  have hset := set_iff_signalSince h
  obtain ⟨harmed, hquiet⟩ := waiting_afterEvents h
  refine ⟨fun hpoller => ?_, fun hpoller signal t hstep => ?_, fun hsince early late hpoller => ?_,
    fun hsince hpoller => ?_, fun e t _ => ?_⟩
  · cases hflag : s.inner.set with
    | false => exact .inl rfl
    | true => exact .inr (hquiet hpoller hflag)
  · rcases step_cases hstep with ⟨_, ⟨⟩, _⟩ | ⟨_, -, rfl⟩ | ⟨⟨⟩, _⟩ | ⟨_, ⟨⟩, _⟩ | ⟨_, ⟨⟩, _⟩
    rw [if_pos (harmed (.inr hpoller)), hpoller]
    rfl
  · cases early with
    | true => exact .inl (.inl rfl)
    | false =>
        cases late with
        | true => exact .inl (.inr rfl)
        | false => exact .inr (hquiet hpoller (hset.mpr hsince))
  · have hflag := hset.mpr hsince
    refine ⟨{ s with inner.set := false, poller := .idle }, ?_, hflag, rfl⟩
    rcases hpoller with hpoller | ⟨early, late, hpoller⟩
    · simp [step, hpoller, hflag]
    · simp [step, hpoller, hflag]
  · rw [← hset]
    cases e <;> simp [State.item]

/-- A task waits while a signal has stored and not yet woken it. -/
theorem noLostWakeup_storing :
    NoLostWakeup [.swap, .register 7, .swapAgain, .store 0]
      ⟨⟨some 7, true⟩, .pending false false, {0}⟩ :=
  noLostWakeup rfl

/-- The first signal gives the first poll its item, and wakes the task in the middle
of the second poll, which then returns; the second signal finds no waker. -/
def wokenInPoll : List Event :=
  [.store 0, .swap, .swap, .register 7, .wake 0, .swapAgain, .store 1, .wake 1]

/-- **A task can be woken before its poll returns `Pending`**, and not since. -/
theorem woken_before_return :
    ¬∀ events s, afterEvents events = some s → ∀ early, s.poller = .pending early false →
      s.inner.set = false ∨ s.storing.Nonempty := by
  intro hall
  have hrun : afterEvents wokenInPoll = some ⟨⟨none, true⟩, .pending true false, ∅⟩ := rfl
  rcases hall _ _ hrun true rfl with hset | hstoring
  · cases hset
  · exact Finset.not_nonempty_empty hstoring

end Pubsub
end ApalisRedis
