import ApalisRedis.Status
import Mathlib.Data.Set.List

/-!
# The stream of results

`wait_for` unfolds a stream over the set of the ids that are still pending: each
poll asks `check_status` about all of them and yields what it answers.  The
answers are arbitrary here, one for each poll.

**Results.**
* `yields_once`: with answers about the ids that are asked, each requested
  task is yielded once and the stream ends with the last one.
* `stops_after_error_iff`: when an error is the last item of the stream, whose
  pending ids are texts, and which panics at one that does not parse.
-/

namespace ApalisRedis

open Lua Redis Script

section Polling

variable {core : Core} {Outcome : Type}

variable (core Outcome) in
/-- What `check_status` answers to the ids that it is given. -/
abbrev Check : Type :=
  List core.TaskId → Except String (List (TaskResult core Outcome))

variable (core Outcome) in
/-- The ids that a poll asks about and the items that it yields. -/
structure Round where
  asked : List core.TaskId
  items : List (Except String (TaskResult core Outcome))

/-- What is left of the pending ids after some results. -/
def remaining (pendingIds : Finset String) (results : List (TaskResult core Outcome)) :
    Finset String :=
  results.foldl (fun ids result => ids.erase (core.printTaskId result.taskId)) pendingIds

/-- The closure that `wait_for` unfolds; an `unwrap` that panics is an error. -/
def pollOnce (order : HashOrder) (check : Check core Outcome) (pendingIds : Finset String) :
    Except String (Option (Round core Outcome × Finset String)) :=
  if pendingIds = ∅ then
    .ok none
  else do
    let idsToCheck ← (order.iter pendingIds).mapM core.parseTaskId
    match check idsToCheck with
    | .ok results =>
        if results.isEmpty then
          .ok (some (⟨idsToCheck, []⟩, pendingIds))
        else
          .ok (some (⟨idsToCheck, results.map .ok⟩, remaining pendingIds results))
    | .error e => .ok (some (⟨idsToCheck, [.error e]⟩, pendingIds))

/-- `stream::unfold`, polled once for each answer until the stream is over.  The
iteration order of the set may differ from poll to poll. -/
def unfoldRounds : List (HashOrder × Check core Outcome) → Finset String →
    Except String (List (Round core Outcome) × Finset String)
  | [], pendingIds => .ok ([], pendingIds)
  | (order, check) :: answers, pendingIds => do
      match ← pollOnce order check pendingIds with
      | none => .ok ([], pendingIds)
      | some (round, left) =>
          let (rounds, rest) ← unfoldRounds answers left
          .ok (round :: rounds, rest)

/-- The check answers what `check_status` returns in a state, where it does not panic. -/
def Answering (decode : String → Except String Outcome) (queue : String) (s : Store)
    (check : Check core Outcome) : Prop :=
  ∀ ids, ((checkStatus core decode queue ids).run s).1 = (check ids).map .ok

/-- **A poll is a round of `wait_for`**, whose answer is read from the store. -/
theorem run_waitFor
    {decode : String → Except String Outcome}
    {queue : String}
    {s : Store}
    {check : Check core Outcome}
    (hcheck : Answering decode queue s check)
    (order : HashOrder)
    (pendingIds : Finset String) :
    (waitFor core decode queue order pendingIds).run s =
      ((pollOnce order check pendingIds).map
        (Option.map fun polled => (polled.1.items, polled.2)), s) := by
  unfold waitFor pollOnce
  by_cases hempty : pendingIds = ∅
  · rw [if_pos hempty, if_pos hempty]
    rfl
  · rw [if_neg hempty, if_neg hempty]
    cases hids : (order.iter pendingIds).mapM core.parseTaskId with
    | error e =>
        rw [run_bind_error (run_fallible _ s)]
        rfl
    | ok ids =>
        have hstate : ((checkStatus core decode queue ids).run s).2 = s := by
          rw [run_checkStatus]
        rw [run_bind_ok (run_fallible _ s), run_bind_ok (run_catching _ s), hstate, ok_bind,
          hcheck]
        cases check ids with
        | error e => rfl
        | ok results =>
            dsimp only
            cases results with
            | nil => rfl
            | cons result results => rfl

/-- Where ids parse as they are printed, `check_status` answers in every state. -/
theorem exists_answering
    (hcodec : core.ParsesPrinted)
    (decode : String → Except String Outcome)
    (queue : String)
    (s : Store) :
    ∃ check : Check core Outcome, Answering decode queue s check := by
  have hanswer : ∀ ids, ∃ answer : Except String (List (TaskResult core Outcome)),
      ((checkStatus core decode queue ids).run s).1 = answer.map .ok := by
    intro ids
    rw [run_checkStatus]
    cases hreports : s.reports core decode ids with
    | error e => exact ⟨.error e, rfl⟩
    | ok checked =>
        cases checked with
        | ok results => exact ⟨.ok results, rfl⟩
        | error panic =>
            obtain ⟨id, -, hpanic⟩ := reports_panics hreports
            cases hpanic.symm.trans (hcodec id)
  choose check hcheck using hanswer
  exact ⟨check, hcheck⟩

/-- The stream is over when nothing is pending. -/
theorem pollOnce_eq_none
    {order : HashOrder}
    {check : Check core Outcome}
    {pendingIds : Finset String} :
    pollOnce order check pendingIds = .ok none ↔ pendingIds = ∅ := by
  constructor
  · intro h
    by_contra hne
    rw [pollOnce, if_neg hne] at h
    obtain ⟨ids, -, h⟩ := bind_eq_ok.mp h
    split at h
    · split at h
      · cases h
      · cases h
    · cases h
  · intro h
    rw [pollOnce, if_pos h]

variable (core) in
/-- All pending texts are read back as they are. -/
def ReadBack (pendingIds : Finset String) : Prop :=
  ∀ text ∈ pendingIds, core.ReadsBack text

/-- Texts that are read back parse to as many ids. -/
theorem exists_idsToCheck
    {pendingIds : Finset String}
    (hback : ReadBack core pendingIds)
    (order : HashOrder) :
    ∃ ids, (order.iter pendingIds).mapM core.parseTaskId = .ok ids ∧ ids.Nodup ∧
      ∀ id, id ∈ ids ↔ ∃ text ∈ pendingIds, core.parseTaskId text = .ok id := by
  have hparses : ∀ text ∈ order.iter pendingIds, ∃ id, core.parseTaskId text = .ok id := by
    intro text htext
    obtain ⟨id, hid, -⟩ := Core.reread_eq_ok.mp (hback text (order.mem_iter.mp htext))
    exact ⟨id, hid⟩
  obtain ⟨ids, hids⟩ := exists_mapM_eq_ok.mpr hparses
  have hmem : ∀ id, id ∈ ids ↔ ∃ text ∈ pendingIds, core.parseTaskId text = .ok id := by
    intro id
    rw [mem_of_mapM_eq_ok hids]
    simp only [order.mem_iter]
  refine ⟨ids, hids, ?_, hmem⟩
  -- Printed again, the ids are the texts, of which there are no two alike.
  have hprinted : ids.map core.printTaskId = order.iter pendingIds := by
    have hmap := congrArg (List.map (Except.map core.printTaskId)) (mapM_eq_ok.mp hids)
    rw [List.map_map, List.map_map] at hmap
    have hleft : (order.iter pendingIds).map (Except.map core.printTaskId ∘ core.parseTaskId) =
        (order.iter pendingIds).map .ok :=
      List.map_congr_left fun text htext => hback text (order.mem_iter.mp htext)
    rw [hleft] at hmap
    refine (List.map_injective_iff.mpr (fun _ _ h => Except.ok.inj h) (hmap.trans ?_)).symm
    rw [List.map_map]
    rfl
  have hnodup := order.nodup_iter pendingIds
  rw [← hprinted] at hnodup
  exact hnodup.of_map core.printTaskId

theorem print_mem_of_parse
    {pendingIds : Finset String}
    (hback : ReadBack core pendingIds)
    {id : core.TaskId}
    (h : ∃ text ∈ pendingIds, core.parseTaskId text = .ok id) :
    core.printTaskId id ∈ pendingIds := by
  obtain ⟨text, htext, hparse⟩ := h
  rwa [(hback text htext).print hparse]

theorem mem_remaining
    {text : String}
    (results : List (TaskResult core Outcome)) :
    ∀ {pendingIds : Finset String}, text ∈ remaining pendingIds results ↔
      text ∈ pendingIds ∧ ∀ result ∈ results, core.printTaskId result.taskId ≠ text := by
  induction results with
  | nil => simp [remaining]
  | cons result results ih =>
      intro pendingIds
      have hstep : remaining pendingIds (result :: results) =
          remaining (pendingIds.erase (core.printTaskId result.taskId)) results := rfl
      rw [hstep, ih, Finset.mem_erase, List.forall_mem_cons]
      constructor
      · rintro ⟨⟨hne, hmem⟩, hrest⟩
        exact ⟨hmem, hne.symm, hrest⟩
      · rintro ⟨hmem, hne, hrest⟩
        exact ⟨⟨hne.symm, hmem⟩, hrest⟩

theorem ReadBack.remaining
    {pendingIds : Finset String}
    (hback : ReadBack core pendingIds)
    (results : List (TaskResult core Outcome)) :
    ReadBack core (remaining pendingIds results) :=
  fun text htext => hback text ((mem_remaining results).mp htext).1

/-- What a poll does while an id is pending and all pending texts parse. -/
theorem pollOnce_of_parsed
    {pendingIds : Finset String}
    (hne : pendingIds ≠ ∅)
    {order : HashOrder}
    {ids : List core.TaskId}
    (hids : (order.iter pendingIds).mapM core.parseTaskId = .ok ids)
    (check : Check core Outcome) :
    (∀ results, check ids = .ok results → pollOnce order check pendingIds =
        .ok (some (⟨ids, results.map .ok⟩, remaining pendingIds results))) ∧
      ∀ e, check ids = .error e → pollOnce order check pendingIds =
        .ok (some (⟨ids, [.error e]⟩, pendingIds)) := by
  refine ⟨fun results hcheck => ?_, fun e hcheck => ?_⟩
  · rw [pollOnce, if_neg hne, hids, ok_bind, hcheck]
    cases results with
    | nil => rfl
    | cons result results => rfl
  · rw [pollOnce, if_neg hne, hids, ok_bind, hcheck]

/-- Successful answers, with results for different ids among those asked for. -/
def Truthful (check : Check core Outcome) : Prop :=
  ∀ ids : List core.TaskId, ids.Nodup → ∃ results, check ids = .ok results ∧
    (results.map TaskResult.taskId).Nodup ∧ ∀ result ∈ results, result.taskId ∈ ids

/-- **A store that can be read answers truthfully.** -/
theorem truthful_of_answering
    (hcodec : core.ParsesPrinted)
    {decode : String → Except String Outcome}
    {queue : String}
    {s : Store}
    (hreadable : ∀ id, ¬s.Unreadable core decode id)
    {check : Check core Outcome}
    (hcheck : Answering decode queue s check) :
    Truthful check := by
  have hsublist : ∀ {ids : List core.TaskId} {rows : List (Option (TaskResult core Outcome))},
      List.Forall₂ (fun id row => s.report core decode id = .ok row) ids rows →
        ((rows.filterMap id).map TaskResult.taskId).Sublist ids := by
    intro ids rows hrows
    induction hrows with
    | nil => exact .slnil
    | @cons taskId row ids rows hrow _ ih =>
        rcases report_cases core decode s taskId with
          ⟨hbad, -⟩ | ⟨-, -, hnone⟩ | ⟨-, -, reported, hsome, hparse, -⟩
        · exact absurd hbad (hreadable taskId)
        · cases hnone.symm.trans hrow
          exact ih.cons taskId
        · cases hsome.symm.trans hrow
          obtain rfl := Except.ok.inj ((hcodec taskId).symm.trans hparse)
          exact ih.cons_cons reported.taskId
  intro ids hnodup
  obtain ⟨results, hok⟩ := (exists_checked_iff core decode queue ids s).mpr fun id _ => hreadable id
  have hanswer : check ids = .ok results := by
    rw [hcheck] at hok
    cases hanswer : check ids with
    | error e =>
        rw [hanswer] at hok
        cases hok
    | ok results' =>
        rw [hanswer] at hok
        cases hok
        rfl
  rw [run_checkStatus] at hok
  have hreports := reports_eq_ok.mp hok
  cases hrows : ids.mapM (s.report core decode) with
  | error e =>
      rw [hrows] at hreports
      cases hreports
  | ok rows =>
      rw [hrows] at hreports
      obtain rfl : rows.filterMap id = results := Except.ok.inj hreports
      have hmap := mapM_eq_ok.mp hrows
      rw [← List.forall₂_eq_eq_eq, List.forall₂_map_left_iff, List.forall₂_map_right_iff] at hmap
      have hsub := hsublist hmap
      refine ⟨_, hanswer, hnodup.sublist hsub, fun result hresult => ?_⟩
      exact hsub.subset (List.mem_map_of_mem hresult)

/-- The ids whose results the rounds have yielded, in order. -/
def yielded (rounds : List (Round core Outcome)) : List core.TaskId :=
  rounds.flatMap fun round => round.items.filterMap fun item =>
    item.toOption.map TaskResult.taskId

/-- The rounds serve the wanted ids: each is yielded once, each round asks for
those that were not yielded yet, and the stream ends with the last one. -/
structure YieldsOnce (wanted : Set core.TaskId) (rounds : List (Round core Outcome))
    (rest : Finset String) : Prop where
  successes : ∀ round ∈ rounds, ∀ item ∈ round.items, ∃ result, item = .ok result
  once : (yielded rounds).Nodup
  requested : ∀ id ∈ yielded rounds, id ∈ wanted
  asks : ∀ before round after, rounds = before ++ round :: after →
    round.asked.Nodup ∧ ∀ id, id ∈ round.asked ↔ id ∈ wanted ∧ id ∉ yielded before
  ends : ∀ (order : HashOrder) (check : Check core Outcome),
    pollOnce order check rest = .ok none ↔ ∀ id ∈ wanted, id ∈ yielded rounds

theorem yielded_cons_ok
    (ids : List core.TaskId)
    (results : List (TaskResult core Outcome))
    (rounds : List (Round core Outcome)) :
    yielded (⟨ids, results.map .ok⟩ :: rounds) =
      results.map TaskResult.taskId ++ yielded rounds := by
  have hitems : (results.map Except.ok).filterMap (fun item : Except String _ =>
      item.toOption.map TaskResult.taskId) = results.map TaskResult.taskId := by
    rw [List.filterMap_map]
    exact congrFun List.filterMap_eq_map results
  rw [yielded, List.flatMap_cons, hitems]
  rfl

/-- Before the first poll nothing is yielded. -/
theorem yieldsOnce_nil
    {pendingIds : Finset String}
    (hback : ReadBack core pendingIds) :
    YieldsOnce {id | core.printTaskId id ∈ pendingIds} ([] : List (Round core Outcome))
      pendingIds where
  successes := by simp
  once := List.nodup_nil
  requested := by simp [yielded]
  asks before round after h := by simp at h
  ends order check := by
    rw [pollOnce_eq_none]
    constructor
    · rintro rfl id hid
      cases hid
    · intro hall
      refine Finset.eq_empty_of_forall_notMem fun text htext => ?_
      obtain ⟨id, -, rfl⟩ := Core.reread_eq_ok.mp (hback text htext)
      cases hall id htext

/-- A round with truthful results leaves the other ids to the later rounds. -/
theorem YieldsOnce.cons
    {wanted left : Set core.TaskId}
    {rounds : List (Round core Outcome)}
    {rest : Finset String}
    (h : YieldsOnce left rounds rest)
    {asked : List core.TaskId}
    {results : List (TaskResult core Outcome)}
    (hnodup : asked.Nodup)
    (hasked : ∀ id, id ∈ asked ↔ id ∈ wanted)
    (hdistinct : (results.map TaskResult.taskId).Nodup)
    (hamong : ∀ result ∈ results, result.taskId ∈ asked)
    (hleft : ∀ id, id ∈ left ↔ id ∈ wanted ∧ id ∉ results.map TaskResult.taskId) :
    YieldsOnce wanted (⟨asked, results.map .ok⟩ :: rounds) rest := by
  have hresults : ∀ id ∈ results.map TaskResult.taskId, id ∈ wanted := by
    intro id hid
    obtain ⟨result, hresult, rfl⟩ := List.mem_map.mp hid
    exact (hasked _).mp (hamong result hresult)
  constructor
  · intro round hround item hitem
    rcases List.mem_cons.mp hround with rfl | hround
    · obtain ⟨result, -, rfl⟩ := List.mem_map.mp hitem
      exact ⟨result, rfl⟩
    · exact h.successes round hround item hitem
  · rw [yielded_cons_ok, List.nodup_append]
    refine ⟨hdistinct, h.once, fun id hid id' hid' heq => ?_⟩
    exact ((hleft id').mp (h.requested id' hid')).2 (heq ▸ hid)
  · intro id hid
    rw [yielded_cons_ok, List.mem_append] at hid
    rcases hid with hid | hid
    · exact hresults id hid
    · exact ((hleft id).mp (h.requested id hid)).1
  · intro before round after hsplit
    cases before with
    | nil =>
        cases hsplit
        exact ⟨hnodup, fun id => by simp [hasked, yielded]⟩
    | cons first before =>
        rw [List.cons_append, List.cons.injEq] at hsplit
        obtain ⟨rfl, hsplit⟩ := hsplit
        obtain ⟨hround, hmem⟩ := h.asks before round after hsplit
        refine ⟨hround, fun id => ?_⟩
        rw [hmem, hleft, yielded_cons_ok, List.mem_append, not_or, and_assoc]
  · intro order check
    rw [h.ends order check, yielded_cons_ok]
    constructor
    · intro hall id hid
      by_cases hresult : id ∈ results.map TaskResult.taskId
      · exact List.mem_append_left _ hresult
      · exact List.mem_append_right _ (hall id ((hleft id).mpr ⟨hid, hresult⟩))
    · intro hall id hid
      obtain ⟨hwanted, hresult⟩ := (hleft id).mp hid
      exact (List.mem_append.mp (hall id hwanted)).resolve_left hresult

/-- The ids left after some results are those without a result. -/
theorem mem_remaining_iff
    (hcodec : core.ParsesPrinted)
    {pendingIds : Finset String}
    (results : List (TaskResult core Outcome))
    (id : core.TaskId) :
    core.printTaskId id ∈ remaining pendingIds results ↔
      core.printTaskId id ∈ pendingIds ∧ id ∉ results.map TaskResult.taskId := by
  rw [mem_remaining, List.mem_map]
  refine and_congr_right fun _ => ?_
  constructor
  · rintro hall ⟨result, hresult, rfl⟩
    exact hall result hresult rfl
  · intro hnot result hresult heq
    exact hnot ⟨result, hresult, hcodec.injective heq⟩

/-- The stream over any ids that are read back. -/
theorem yieldsOnce_unfoldRounds
    (hcodec : core.ParsesPrinted)
    (answers : List (HashOrder × Check core Outcome))
    (hanswers : ∀ answer ∈ answers, Truthful answer.2) :
    ∀ {pendingIds : Finset String}, ReadBack core pendingIds →
      ∃ rounds rest, unfoldRounds answers pendingIds = .ok (rounds, rest) ∧
        YieldsOnce {id | core.printTaskId id ∈ pendingIds} rounds rest := by
  induction answers with
  | nil => exact fun hback => ⟨[], _, rfl, yieldsOnce_nil hback⟩
  | cons answer answers ih =>
      intro pendingIds hback
      obtain ⟨order, check⟩ := answer
      rcases eq_or_ne pendingIds ∅ with rfl | hne
      · refine ⟨[], ∅, ?_, yieldsOnce_nil hback⟩
        rw [unfoldRounds, pollOnce_eq_none.mpr rfl]
        rfl
      · obtain ⟨ids, hids, hnodup, hparsed⟩ := exists_idsToCheck hback order
        have hmem : ∀ id, id ∈ ids ↔ core.printTaskId id ∈ pendingIds := fun id =>
          (hparsed id).trans ⟨print_mem_of_parse hback, fun htext => ⟨_, htext, hcodec id⟩⟩
        obtain ⟨results, hcheck, hdistinct, hamong⟩ :=
          hanswers _ List.mem_cons_self ids hnodup
        obtain ⟨rounds, rest, hrounds, h⟩ :=
          ih (fun answer hanswer => hanswers answer (List.mem_cons_of_mem _ hanswer))
            (hback.remaining results)
        refine ⟨_, rest, ?_,
          h.cons hnodup hmem hdistinct hamong (mem_remaining_iff hcodec results)⟩
        rw [unfoldRounds, (pollOnce_of_parsed hne hids check).1 results hcheck, ok_bind]
        change (unfoldRounds answers (remaining pendingIds results) >>= _) = _
        rw [hrounds, ok_bind]

variable (core) in
/-- `pending_ids` when `wait_for` is called. -/
def requestedIds (taskIds : List core.TaskId) : Finset String :=
  (taskIds.map core.printTaskId).toFinset

theorem mem_requestedIds
    {taskIds : List core.TaskId}
    {text : String} :
    text ∈ requestedIds core taskIds ↔ ∃ id ∈ taskIds, core.printTaskId id = text := by
  rw [requestedIds, List.mem_toFinset, List.mem_map]

/-- Requested ids that parse as they are printed are read back. -/
theorem readBack_requestedIds
    {taskIds : List core.TaskId}
    (hcodec : ∀ id ∈ taskIds, core.parseTaskId (core.printTaskId id) = .ok id) :
    ReadBack core (requestedIds core taskIds) := by
  intro text htext
  obtain ⟨id, hid, rfl⟩ := mem_requestedIds.mp htext
  exact Core.reread_of_parse (hcodec id hid)

variable (core Outcome) in
/-- An iteration order and an outcome of `check_status` for each poll. -/
abbrev Outcomes : Type :=
  List (HashOrder × Except String (List (TaskResult core Outcome)))

/-- The items that the stream yields, polled once for each outcome, until it is
over or an `unwrap` of a pending id panics. -/
def streamItems :
    Outcomes core Outcome → Finset String → List (Except String (TaskResult core Outcome))
  | [], _ => []
  | (order, outcome) :: outcomes, pendingIds =>
      match pollOnce order (fun _ => outcome) pendingIds with
      | .ok (some (round, left)) => round.items ++ streamItems outcomes left
      | .ok none => []
      | .error _ => []

/-- They are the items of the rounds that the stream unfolds to. -/
theorem streamItems_of_unfoldRounds
    (outcomes : Outcomes core Outcome) :
    ∀ {pendingIds rest : Finset String} {rounds : List (Round core Outcome)},
      unfoldRounds (outcomes.map fun outcome => (outcome.1, fun _ => outcome.2)) pendingIds =
        .ok (rounds, rest) →
      streamItems outcomes pendingIds = rounds.flatMap Round.items := by
  induction outcomes with
  | nil =>
      intro pendingIds rest rounds h
      cases h
      rfl
  | cons outcome outcomes ih =>
      intro pendingIds rest rounds h
      rw [List.map_cons, unfoldRounds] at h
      rw [streamItems]
      obtain ⟨polled, hpolled, h⟩ := bind_eq_ok.mp h
      rw [hpolled]
      cases polled with
      | none =>
          cases h
          rfl
      | some polled =>
          obtain ⟨⟨later, rest'⟩, hlater, heq⟩ := bind_eq_ok.mp h
          cases heq
          rw [List.flatMap_cons, ← ih hlater]

/-- An error is the last item. -/
def StopsAfterError (items : List (Except String (TaskResult core Outcome))) : Prop :=
  ∀ before e after, items = before ++ .error e :: after → after = []

/-- What follows the first error that is checked while a pending text has no
result brings nothing. -/
def QuietAfterError (pendingIds : Finset String)
    (outcomes : List (Except String (List (TaskResult core Outcome)))) : Prop :=
  ∀ (before : List (List (TaskResult core Outcome))) e after,
    outcomes = before.map .ok ++ .error e :: after →
    (∃ text ∈ pendingIds, ∀ results ∈ before, ∀ result ∈ results,
      core.printTaskId result.taskId ≠ text) →
      ∀ outcome ∈ after, outcome = .ok []

variable (core) in
/-- No `unwrap` of a pending text panics. -/
def Parses (pendingIds : Finset String) : Prop :=
  ∀ text ∈ pendingIds, ∃ id, core.parseTaskId text = .ok id

theorem Parses.remaining
    {pendingIds : Finset String}
    (hparses : Parses core pendingIds)
    (results : List (TaskResult core Outcome)) :
    Parses core (remaining pendingIds results) :=
  fun text htext => hparses text ((mem_remaining results).mp htext).1

theorem exists_parsed
    {pendingIds : Finset String}
    (order : HashOrder) :
    (∃ ids, (order.iter pendingIds).mapM core.parseTaskId = .ok ids) ↔ Parses core pendingIds := by
  rw [exists_mapM_eq_ok]
  simp only [order.mem_iter]
  rfl

theorem streamItems_empty
    (outcomes : Outcomes core Outcome) :
    streamItems outcomes ∅ = [] := by
  cases outcomes with
  | nil => rfl
  | cons outcome outcomes => rw [streamItems, pollOnce_eq_none.mpr rfl]

/-- A pending text that does not parse makes the first poll panic. -/
theorem streamItems_of_panic
    {pendingIds : Finset String}
    (hpanics : ¬Parses core pendingIds)
    (outcomes : Outcomes core Outcome) :
    streamItems outcomes pendingIds = [] := by
  cases outcomes with
  | nil => rfl
  | cons outcome outcomes =>
      have hne : pendingIds ≠ ∅ := by
        rintro rfl
        exact hpanics fun text htext => absurd htext (Finset.notMem_empty text)
      cases hids : (outcome.1.iter pendingIds).mapM core.parseTaskId with
      | ok ids => exact absurd ((exists_parsed outcome.1).mp ⟨ids, hids⟩) hpanics
      | error panic => rw [streamItems, pollOnce, if_neg hne, hids, error_bind]

/-- After a failed check the stream goes on as before. -/
theorem streamItems_error
    {pendingIds : Finset String}
    (hparses : Parses core pendingIds)
    (hne : pendingIds ≠ ∅)
    (order : HashOrder)
    (e : String)
    (outcomes : Outcomes core Outcome) :
    streamItems ((order, .error e) :: outcomes) pendingIds =
      .error e :: streamItems outcomes pendingIds := by
  obtain ⟨ids, hids⟩ := (exists_parsed order).mpr hparses
  rw [streamItems, (pollOnce_of_parsed hne hids _).2 e rfl]
  rfl

theorem streamItems_ok
    {pendingIds : Finset String}
    (hparses : Parses core pendingIds)
    (hne : pendingIds ≠ ∅)
    (order : HashOrder)
    (results : List (TaskResult core Outcome))
    (outcomes : Outcomes core Outcome) :
    streamItems ((order, .ok results) :: outcomes) pendingIds =
      results.map .ok ++ streamItems outcomes (remaining pendingIds results) := by
  obtain ⟨ids, hids⟩ := (exists_parsed order).mpr hparses
  rw [streamItems, (pollOnce_of_parsed hne hids _).1 results rfl]

/-- A stream that still runs yields nothing when all checks come back empty. -/
theorem silent_iff
    {pendingIds : Finset String}
    (hparses : Parses core pendingIds)
    (hne : pendingIds ≠ ∅)
    (outcomes : Outcomes core Outcome) :
    streamItems outcomes pendingIds = [] ↔
      ∀ outcome ∈ outcomes.map Prod.snd, outcome = .ok [] := by
  induction outcomes with
  | nil => simp [streamItems]
  | cons outcome outcomes ih =>
      obtain ⟨order, outcome⟩ := outcome
      rw [List.map_cons, List.forall_mem_cons]
      cases outcome with
      | error e =>
          rw [streamItems_error hparses hne]
          exact iff_of_false (List.cons_ne_nil _ _) fun h => by cases h.1
      | ok results =>
          rw [streamItems_ok hparses hne]
          cases results with
          | nil => exact ih.trans (and_iff_right rfl).symm
          | cons result results =>
              exact iff_of_false (List.cons_ne_nil _ _) fun h => by cases h.1

theorem stopsAfterError_error_cons
    {e : String}
    {items : List (Except String (TaskResult core Outcome))} :
    StopsAfterError (.error e :: items) ↔ items = [] := by
  constructor
  · exact fun h => h [] e items rfl
  · rintro rfl before e' after hsplit
    cases before with
    | nil =>
        cases hsplit
        rfl
    | cons item before => simp at hsplit

theorem stopsAfterError_ok_append
    (results : List (TaskResult core Outcome))
    {items : List (Except String (TaskResult core Outcome))} :
    StopsAfterError (results.map .ok ++ items) ↔ StopsAfterError items := by
  induction results with
  | nil => exact Iff.rfl
  | cons result results ih =>
      rw [← ih, List.map_cons, List.cons_append]
      constructor
      · intro h before e after hsplit
        exact h (.ok result :: before) e after (by rw [hsplit, List.cons_append])
      · intro h before e after hsplit
        cases before with
        | nil => cases hsplit
        | cons item before => exact h before e after (List.cons.inj hsplit).2

theorem quietAfterError_error_cons
    {pendingIds : Finset String}
    (hne : pendingIds ≠ ∅)
    {e : String}
    {outcomes : List (Except String (List (TaskResult core Outcome)))} :
    QuietAfterError pendingIds (.error e :: outcomes) ↔
      ∀ outcome ∈ outcomes, outcome = .ok [] := by
  constructor
  · intro h
    obtain ⟨text, htext⟩ := Finset.nonempty_of_ne_empty hne
    exact h [] e outcomes rfl ⟨text, htext, by simp⟩
  · intro h before e' after hsplit _
    cases before with
    | nil =>
        cases hsplit
        exact h
    | cons results before => cases hsplit

theorem quietAfterError_ok_cons
    {pendingIds : Finset String}
    {results : List (TaskResult core Outcome)}
    {outcomes : List (Except String (List (TaskResult core Outcome)))} :
    QuietAfterError pendingIds (.ok results :: outcomes) ↔
      QuietAfterError (remaining pendingIds results) outcomes := by
  constructor
  · rintro h before e after hsplit ⟨text, htext, hbefore⟩
    obtain ⟨hmem, hresults⟩ := (mem_remaining results).mp htext
    refine h (results :: before) e after (by rw [hsplit]; rfl) ⟨text, hmem, ?_⟩
    exact List.forall_mem_cons.mpr ⟨hresults, hbefore⟩
  · rintro h before e after hsplit ⟨text, htext, hbefore⟩
    cases before with
    | nil => cases hsplit
    | cons first before =>
        obtain ⟨hfirst, hrest⟩ := List.cons.inj hsplit
        cases hfirst
        obtain ⟨hresults, hbefore⟩ := List.forall_mem_cons.mp hbefore
        exact h before e after hrest ⟨text, (mem_remaining results).mpr ⟨htext, hresults⟩, hbefore⟩

/-- A check that always fails yields an error at every poll. -/
theorem endless_errors
    {pendingIds : Finset String}
    (hparses : Parses core pendingIds)
    (hne : pendingIds ≠ ∅)
    (order : HashOrder)
    (e : String)
    (polls : Nat) :
    streamItems (List.replicate polls (order, .error e) : Outcomes core Outcome) pendingIds =
      List.replicate polls (.error e) := by
  induction polls with
  | zero => rfl
  | succ polls ih =>
      rw [List.replicate_succ, streamItems_error hparses hne, ih, List.replicate_succ]

/-- The stream over any texts that parse. -/
theorem stopsAfterError_streamItems
    (outcomes : Outcomes core Outcome) :
    ∀ {pendingIds : Finset String}, Parses core pendingIds →
      (StopsAfterError (streamItems outcomes pendingIds) ↔
        QuietAfterError pendingIds (outcomes.map Prod.snd)) := by
  induction outcomes with
  | nil =>
      exact fun _ => iff_of_true (by simp [StopsAfterError, streamItems])
        (by simp [QuietAfterError])
  | cons outcome outcomes ih =>
      intro pendingIds hparses
      obtain ⟨order, outcome⟩ := outcome
      rcases eq_or_ne pendingIds ∅ with rfl | hne
      · rw [streamItems_empty]
        refine iff_of_true (by simp [StopsAfterError]) ?_
        rintro before e after - ⟨text, htext, -⟩
        cases htext
      · rw [List.map_cons]
        cases outcome with
        | error e =>
            rw [streamItems_error hparses hne, stopsAfterError_error_cons,
              silent_iff hparses hne, quietAfterError_error_cons hne]
        | ok results =>
            rw [streamItems_ok hparses hne, stopsAfterError_ok_append,
              ih (hparses.remaining results), quietAfterError_ok_cons]

/-- **When an error is the last item**: when nothing follows it but checks that
come back empty, on which the stream still waits; or when the text of a requested
id does not parse, at which the stream panics before it yields anything. -/
theorem stops_after_error_iff
    (taskIds : List core.TaskId)
    (outcomes : Outcomes core Outcome) :
    StopsAfterError (streamItems outcomes (requestedIds core taskIds)) ↔
      ¬Parses core (requestedIds core taskIds) ∨
        QuietAfterError (requestedIds core taskIds) (outcomes.map Prod.snd) := by
  rcases em (Parses core (requestedIds core taskIds)) with hparses | hpanics
  · rw [stopsAfterError_streamItems outcomes hparses, or_iff_right (not_not.mpr hparses)]
  · rw [streamItems_of_panic hpanics]
    exact iff_of_true (by simp [StopsAfterError]) (.inl hpanics)

end Polling

/-- A stored result that never decodes is reported at every poll. -/
theorem error_repeated :
    ¬∀ outcomes : Outcomes Core.text Unit,
      StopsAfterError (streamItems outcomes (requestedIds Core.text ["t"])) := by
  intro h
  have hitems := @endless_errors Core.text Unit (requestedIds Core.text ["t"])
    (fun text _ => ⟨text, rfl⟩) (by decide) .ascending "expected value" 2
  have hstops := h (List.replicate 2 (.ascending, .error "expected value"))
  rw [hitems] at hstops
  cases hstops [] "expected value" [.error "expected value"] rfl

end ApalisRedis
