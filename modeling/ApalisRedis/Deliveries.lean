import ApalisRedis.Fairness

/-!
# How often a task is handed out

A task is handed out once, and once more for every time that it comes back: given
back by its worker, recovered from it, or to be tried again.  The account is exact,
for every task and over every run.

**Results.**
* `account_exec`: a call hands a task out, or brings it back, or neither.
* `deliveries_balance`: what is handed out against what comes back.
-/

namespace ApalisRedis

open Lua Redis Script Systems

/-- A worker has the task, or had it when it was finished. -/
def Store.Taken (s : Store) (id : String) : Prop :=
  (∃ worker, id ∈ s.inflightJobs worker) ∨ s.Finished id

/-- A registered worker holds the task. -/
def Store.InHand (s : Store) (id : String) : Prop :=
  ∃ worker ∈ s.workers.keys, id ∈ s.inflightJobs worker

/-- The task waits for its turn or for its time. -/
def Store.Waits (s : Store) (id : String) : Prop :=
  id ∈ s.activeJobs ∨ id ∈ s.scheduledJobs

instance (s : Store) (id : String) : Decidable (s.InHand id) :=
  inferInstanceAs (Decidable (∃ worker ∈ s.workers.keys, id ∈ s.inflightJobs worker))

instance (s : Store) (id : String) : Decidable (s.Waits id) :=
  inferInstanceAs (Decidable (id ∈ s.activeJobs ∨ id ∈ s.scheduledJobs))

theorem mem_of_mem_update
    {held : String → Finset String}
    {worker : String}
    {left : Finset String}
    (hleft : left ⊆ held worker)
    {v id : String}
    (h : id ∈ Function.update held worker left v) :
    id ∈ held v := by
  by_cases hv : v = worker
  · subst hv
    rw [Function.update_self] at h
    exact hleft h
  · rwa [Function.update_of_ne hv] at h

/-- Without a fetch nothing is taken. -/
theorem Move.taken
    {rt : Runtime}
    {may : Powers}
    (hdeliver : ¬may.deliver)
    {s t : Store}
    (hmove : Move rt may s t)
    {id : String}
    (h : t.Taken id) :
    s.Taken id := by
  -- The inflight sets only get smaller.
  have hheld : ∀ {worker : String} {left : Finset String}, left ⊆ s.inflightJobs worker →
      t.inflightJobs = Function.update s.inflightJobs worker left →
        (∃ v, id ∈ t.inflightJobs v) → ∃ v, id ∈ s.inflightJobs v := by
    rintro worker left hleft ht ⟨v, hv⟩
    rw [ht] at hv
    exact ⟨v, mem_of_mem_update hleft hv⟩
  cases hmove with
  | bookkeep hsame =>
      unfold Store.Taken Store.Finished at h ⊢
      rwa [hsame.inflightJobs, hsame.doneJobs, hsame.deadJobs] at h
  | deliver worker taskIds hworker hids hmay => exact absurd hmay hdeliver
  | lock worker now taskId htask =>
      exact h.imp (hheld (Finset.insert_subset htask (Finset.Subset.refl _)) rfl) (fun hfin => hfin)
  | ack worker r htask hmay =>
      rcases h with hinflight | hdone | hdead
      · exact .inl (hheld (Finset.erase_subset _ _) rfl hinflight)
      · change id ∈ ite _ _ _ at hdone
        split at hdone
        · rcases Finset.mem_insert.mp hdone with rfl | hold
          · exact .inl ⟨worker, htask⟩
          · exact .inr (.inl hold)
        · exact .inr (.inl hdone)
      · change id ∈ ite _ _ _ at hdead
        split at hdead
        · rcases Finset.mem_insert.mp hdead with rfl | hold
          · exact .inl ⟨worker, htask⟩
          · exact .inr (.inr hold)
        · exact .inr (.inr hdead)
  | release worker taskIds hnd hids =>
      exact h.imp (hheld Finset.sdiff_subset rfl) (fun hfin => hfin)
  | recover worker jobs hnd hjobs hmay =>
      exact h.imp (hheld (Finset.empty_subset _) rfl) (fun hfin => hfin)
  | _ => exact h

/-- One for what is so, and nothing for what is not. -/
def Indicates (p : Prop) (n : Nat) : Prop :=
  p ∧ n = 1 ∨ ¬p ∧ n = 0

theorem Indicates.unique
    {p : Prop}
    {m n : Nat}
    (h : Indicates p m)
    (h' : Indicates p n) :
    m = n := by
  rcases h with ⟨hp, rfl⟩ | ⟨hp, rfl⟩ <;> rcases h' with ⟨hp', rfl⟩ | ⟨hp', rfl⟩
  · rfl
  · exact absurd hp hp'
  · exact absurd hp' hp
  · rfl

/-- What is handed out and what comes back, against what was out before and is after. -/
def Account (before after : Prop) (handed back : Nat) : Prop :=
  ∃ m n, Indicates before m ∧ Indicates after n ∧ m + handed = n + back

theorem Account.trans
    {p q r : Prop}
    {handed back handed' back' : Nat}
    (h : Account p q handed back)
    (h' : Account q r handed' back') :
    Account p r (handed + handed') (back + back') := by
  obtain ⟨m, n, hm, hn, hsum⟩ := h
  obtain ⟨m', n', hm', hn', hsum'⟩ := h'
  have hsame := hn.unique hm'
  exact ⟨m, n', hm, hn', by omega⟩

theorem account_same
    {p q : Prop}
    (hpq : p ↔ q) :
    Account p q 0 0 := by
  by_cases hp : p
  · exact ⟨1, 1, .inl ⟨hp, rfl⟩, .inl ⟨hpq.mp hp, rfl⟩, rfl⟩
  · exact ⟨0, 0, .inr ⟨hp, rfl⟩, .inr ⟨mt hpq.mpr hp, rfl⟩, rfl⟩

section Deliveries

variable (rt : Runtime) (queue : String)

/-- The call brings the task back from its worker. -/
def Call.bringsBack (c : Call) (s : Store) (id : String) : Bool :=
  decide (s.InHand id) && decide (((c.exec rt queue).run s).2.Waits id)

/-- How often a run brings the task back. -/
def comebacks : List Call → Store → String → Nat
  | [], _, _ => 0
  | c :: calls, s, id =>
      (c.bringsBack rt queue s id).toNat + comebacks calls ((c.exec rt queue).run s).2 id

variable {rt queue}

/-- What is taken does not wait. -/
theorem Reflects.not_waits_of_taken
    {s : Store}
    {b : Board}
    (h : Reflects s b)
    {id : String}
    (htaken : s.Taken id) :
    ¬s.Waits id := by
  intro hwaits
  have hplace : b id = some .active ∨ b id = some .scheduled :=
    hwaits.imp h.mem_active.mp h.mem_scheduled.mp
  rcases htaken with ⟨worker, hheld⟩ | hdone | hdead
  · rw [h.mem_inflight.mp hheld] at hplace
    simp at hplace
  · rw [h.mem_done.mp hdone] at hplace
    simp at hplace
  · rw [h.mem_dead.mp hdead] at hplace
    simp at hplace

variable (rt queue)

/-- A call brings back what was taken before and is not after. -/
theorem bringsBack_iff
    (c : Call)
    {s : Store}
    {b : Board}
    (h : Reflects s b)
    (hregistered : s.Registered)
    (id : String) :
    c.bringsBack rt queue s id = true ↔
      s.Taken id ∧ ¬((c.exec rt queue).run s).2.Taken id := by
  obtain ⟨b', hsteps, hb'⟩ := reflects_run rt queue [c] h
  change Reflects ((c.exec rt queue).run s).2 b' at hb'
  unfold Call.bringsBack
  rw [Bool.and_eq_true, decide_eq_true_eq, decide_eq_true_eq]
  constructor
  · rintro ⟨⟨worker, -, hheld⟩, hwaits⟩
    exact ⟨.inl ⟨worker, hheld⟩, fun htaken => hb'.not_waits_of_taken htaken hwaits⟩
  · rintro ⟨htaken, hback⟩
    rcases htaken with ⟨worker, hheld⟩ | hfinished
    · have hworker := hregistered worker (Finset.ne_empty_of_mem hheld)
      refine ⟨⟨worker, Finmap.mem_keys.mpr hworker, hheld⟩, ?_⟩
      -- The task is still somewhere, and neither held nor finished.
      have hknown : b' id ≠ none := by
        refine preserved (I := fun b : Board => b id ≠ none)
          (fun _ _ hstep hb => (hstep id).known hb) hsteps ?_
        rw [h.mem_inflight.mp hheld]
        simp
      obtain ⟨p, hp⟩ := Option.ne_none_iff_exists'.mp hknown
      have hat := (hb'.place id p).mpr hp
      cases p with
      | active => exact .inl hat
      | scheduled => exact .inr hat
      | inflight v => exact absurd (.inl ⟨v, hat⟩) hback
      | done => exact absurd (.inr (.inl hat)) hback
      | dead => exact absurd (.inr (.inr hat)) hback
    · obtain ⟨p, hp, hid⟩ := h.final_of_finished hfinished
      have hstays := (hb'.place id p).mpr (Board.stays hp hsteps hid)
      refine absurd (.inr ?_) hback
      cases p with
      | done => exact .inl hstays
      | dead => exact .inr hstays
      | _ => exact hp.elim

theorem taken_deliver
    (worker : String)
    (taskIds : List String)
    (b : Bool)
    (s : Store)
    (id : String) :
    ((s.deliver worker taskIds).quiet b).Taken id ↔ s.Taken id ∨ id ∈ taskIds := by
  have hheld : ∀ v, ((s.deliver worker taskIds).quiet b).inflightJobs v =
      if v = worker then s.inflightJobs v ∪ taskIds.toFinset else s.inflightJobs v := by
    intro v
    change Function.update s.inflightJobs worker _ v = _
    by_cases hv : v = worker
    · rw [if_pos hv, hv, Function.update_self]
    · rw [if_neg hv, Function.update_of_ne hv]
  constructor
  · rintro (⟨v, hv⟩ | hfinished)
    · rw [hheld] at hv
      split at hv
      · rcases Finset.mem_union.mp hv with hold | hnew
        · exact .inl (.inl ⟨v, hold⟩)
        · exact .inr (List.mem_toFinset.mp hnew)
      · exact .inl (.inl ⟨v, hv⟩)
    · exact .inl (.inr hfinished)
  · rintro ((⟨v, hv⟩ | hfinished) | hid)
    · refine .inl ⟨v, ?_⟩
      rw [hheld]
      split
      · exact Finset.mem_union_left _ hv
      · exact hv
    · exact .inr hfinished
    · refine .inl ⟨worker, ?_⟩
      rw [hheld, if_pos rfl]
      exact Finset.mem_union_right _ (List.mem_toFinset.mpr hid)

/-- A fetch takes what it replies with. -/
theorem taken_fetch
    (now batchSize : Nat)
    (worker : String)
    {s : Store}
    {b : Board}
    (h : Reflects s b)
    (id : String) :
    let outcome := (fetchNextScript rt queue now batchSize worker).run s
    (FetchReply.handed outcome.1).Nodup ∧
      (id ∈ FetchReply.handed outcome.1 ↔ ¬s.Taken id ∧ outcome.2.Taken id) := by
  intro outcome
  have hpromoted : (s.promoted now).Taken id ↔ s.Taken id := by
    obtain ⟨hdone, hdead, -⟩ := kept_promoted now s
    unfold Store.Taken Store.Finished
    rw [inflightJobs_promoted, hdone, hdead]
  rcases fetchNext_cases rt queue worker now batchSize s with
    ⟨-, message, hrun⟩ | ⟨-, -, hrun⟩ | ⟨-, -, hrun⟩
  · have houtcome : outcome = (.error message, s) := hrun
    rw [houtcome]
    exact ⟨List.nodup_nil, by simp [FetchReply.handed]⟩
  · have houtcome : outcome = (.error _, s.promoted now) := hrun
    rw [houtcome]
    exact ⟨List.nodup_nil, by simp [FetchReply.handed, hpromoted]⟩
  · have houtcome : outcome = (.ok _, _) := hrun
    rw [houtcome]
    dsimp only [FetchReply.handed]
    rw [ids_reply]
    set ids := (s.promoted now).front batchSize
    have hsub : ids <+: (s.promoted now).activeJobs := slice_zero_isPrefix _ _
    obtain ⟨b', hb'⟩ := reflects_promoted now h
    have hwaiting : id ∈ ids → ¬s.Taken id := by
      rw [← hpromoted]
      exact fun hid htaken => hb'.not_waits_of_taken htaken (.inl (hsub.subset hid))
    refine ⟨hb'.nodup.sublist hsub.sublist, ?_⟩
    rw [taken_deliver, hpromoted]
    constructor
    · exact fun hid => ⟨hwaiting hid, .inr hid⟩
    · exact fun ⟨hnot, hor⟩ => hor.resolve_left hnot

/-- What a call hands out was not taken before, and is after. -/
theorem mem_handsOut_iff
    (c : Call)
    {s : Store}
    {b : Board}
    (h : Reflects s b)
    (id : String) :
    (c.handsOut rt queue s).Nodup ∧ (id ∈ c.handsOut rt queue s ↔
      ¬s.Taken id ∧ ((c.exec rt queue).run s).2.Taken id) := by
  by_cases hfetches : c.Fetches
  · cases c with
    | fetchNext now batchSize worker =>
        rw [Call.exec, run_map_snd]
        exact taken_fetch rt queue now batchSize worker h id
    | _ => exact absurd hfetches (fun hf => hf)
  · have hnone : c.handsOut rt queue s = [] := by
      cases c with
      | fetchNext now batchSize worker => exact absurd trivial hfetches
      | _ => rfl
    rw [hnone]
    refine ⟨List.nodup_nil, iff_of_false (by simp) ?_⟩
    rintro ⟨hbefore, hafter⟩
    refine preserved (I := fun s => ¬s.Taken id) (fun _ _ hmove hs ht => ?_)
      (moves_waiting rt queue (c.within_waiting_of_not_fetches rt hfetches) s) hbefore hafter
    exact hs (hmove.taken (fun hd => hd) ht)

/-- **A call hands a task out, or brings it back, or neither.** -/
theorem account_exec
    (c : Call)
    {s : Store}
    {b : Board}
    (h : Reflects s b)
    (hregistered : s.Registered)
    (id : String) :
    Account (s.Taken id) (((c.exec rt queue).run s).2.Taken id)
      ((c.handsOut rt queue s).count id) (c.bringsBack rt queue s id).toNat := by
  obtain ⟨hnd, hhanded⟩ := mem_handsOut_iff rt queue c h id
  have hback := bringsBack_iff rt queue c h hregistered id
  by_cases hbefore : s.Taken id
  · have hnot : id ∉ c.handsOut rt queue s := fun hid => (hhanded.mp hid).1 hbefore
    rw [List.count_eq_zero_of_not_mem hnot]
    by_cases hafter : ((c.exec rt queue).run s).2.Taken id
    · rw [Bool.eq_false_iff.mpr fun hb => (hback.mp hb).2 hafter]
      exact account_same (iff_of_true hbefore hafter)
    · rw [hback.mpr ⟨hbefore, hafter⟩]
      exact ⟨1, 0, .inl ⟨hbefore, rfl⟩, .inr ⟨hafter, rfl⟩, rfl⟩
  · rw [Bool.eq_false_iff.mpr fun hb => hbefore (hback.mp hb).1]
    by_cases hafter : ((c.exec rt queue).run s).2.Taken id
    · rw [List.count_eq_one_of_mem hnd (hhanded.mpr ⟨hbefore, hafter⟩)]
      exact ⟨0, 1, .inr ⟨hbefore, rfl⟩, .inl ⟨hafter, rfl⟩, rfl⟩
    · have hnot : id ∉ c.handsOut rt queue s := fun hid => hafter (hhanded.mp hid).2
      rw [List.count_eq_zero_of_not_mem hnot]
      exact account_same (iff_of_false hbefore hafter)

/-- The account of a run. -/
theorem account_run
    (calls : List Call)
    {s : Store}
    {b : Board}
    (h : Reflects s b)
    (hregistered : s.Registered)
    (id : String) :
    Account (s.Taken id) ((run rt queue calls s).Taken id)
      ((handedOut rt queue calls s).count id) (comebacks rt queue calls s id) := by
  induction calls generalizing s b with
  | nil => exact account_same Iff.rfl
  | cons c calls ih =>
      obtain ⟨b', -, hb'⟩ := reflects_run rt queue [c] h
      have hregistered' : ((c.exec rt queue).run s).2.Registered :=
        preserved (I := Store.Registered) (fun _ _ hmove => hmove.registered)
          (moves_persistence rt queue [c] s) hregistered
      rw [handedOut, List.count_append]
      exact (account_exec rt queue c h hregistered id).trans (ih hb' hregistered')

/-- **Deliveries balance**: over every run, a task has been handed out once for every
time that it came back, and once more when a worker has it or has finished it. -/
theorem deliveries_balance
    (calls : List Call)
    (id : String) :
    let s := run rt queue calls Store.empty
    let handed := (handedOut rt queue calls Store.empty).count id
    let back := comebacks rt queue calls Store.empty id
    (s.Taken id → handed = back + 1) ∧ (¬s.Taken id → handed = back) := by
  intro s handed back
  have hnobody : Store.empty.Registered := fun worker hheld => absurd rfl hheld
  obtain ⟨m, n, hm, hn, hsum⟩ := account_run rt queue calls reflects_empty hnobody id
  have hzero : m = 0 := by
    rcases hm with ⟨⟨worker, hheld⟩ | hfinished | hfinished, -⟩ | ⟨-, hm⟩
    · cases hheld
    · cases hfinished
    · cases hfinished
    · exact hm
  refine ⟨fun htaken => ?_, fun hnot => ?_⟩
  · have hone : n = 1 := hn.unique (.inl ⟨htaken, rfl⟩)
    omega
  · have hnone : n = 0 := hn.unique (.inr ⟨hnot, rfl⟩)
    omega

end Deliveries

/-- A task that failed once is handed out a second time. -/
theorem retried_handed_out_twice :
    (handedOut (.ascending none) "q" [registerW, .submit 0 true [plainPush "a" ∅],
      .fetchNext 12 1 "w", .handleResults "w" true [⟨"a", 12, "no", "Failed", 1⟩],
      .fetchNext 14 1 "w"] Store.empty).count "a" = 2 :=
  (deliveries_balance (.ascending none) "q" _ "a").1 (.inl ⟨"w", by decide +kernel⟩)

end ApalisRedis
