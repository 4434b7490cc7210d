import ApalisRedis.Delivery
import Mathlib.Data.List.Forall2
import Mathlib.Data.List.Perm.Basic
import Mathlib.Data.Set.List

/-!
# The format that the decoder accepts

`deserialize_with_meta` is given any Redis values.  It accepts two arrays of one
length: the data of the tasks, and for each task an array with its id and then
its fields as keys and values, all of them texts.

**Results.**
* `deserializeTask_eq_ok`: what one entry of the arrays decodes to.
* `reads_format`: the replies that are accepted, what they decode to, and that
  the order of the fields does not matter.
-/

namespace ApalisRedis

open Lua Redis

theorem mapM_eq_ok_toOption
    {ε α β : Type}
    {f : α → Except ε β}
    {xs : List α}
    {ys : List β} :
    xs.mapM f = .ok ys ↔ xs.map (fun x => (f x).toOption) = ys.map some := by
  rw [mapM_eq_ok]
  simp only [← List.forall₂_eq_eq_eq, List.forall₂_map_left_iff, List.forall₂_map_right_iff,
    toOption_eq_some]

/-- The texts on the wire are the UTF-8 bulk strings. -/
theorem strFromVal_eq_ok
    {value : RedisValue}
    {field text : String} :
    strFromVal value field = .ok text ↔ value = bulk text := by
  constructor
  · intro h
    unfold strFromVal at h
    split at h
    · split at h
      · next bytes read hread =>
          cases h
          unfold String.fromUTF8? at hread
          split at hread
          · cases hread
            rfl
          · cases hread
      · cases h
    · cases h
  · rintro rfl
    exact strFromVal_bulk text field

/-- The elements of pairs, one after the other. -/
def alternating {α : Type} (pairs : List (α × α)) : List α :=
  pairs.flatMap fun p => [p.1, p.2]

def textPair (p : String × String) : RedisValue × RedisValue :=
  (bulk p.1, bulk p.2)

/-- The last value that is given for a field. -/
def lastValue (pairs : List (String × String)) (field : String) : Option String :=
  (pairs.reverse.find? fun p => p.1 = field).map Prod.snd

theorem alternating_map_textPair
    (pairs : List (String × String)) :
    alternating (pairs.map textPair) = (flatten pairs).map bulk := by
  simp [alternating, flatten, textPair, List.flatMap_map, List.map_flatMap]

theorem length_alternating
    {α : Type}
    (pairs : List (α × α)) :
    (alternating pairs).length = 2 * pairs.length := by
  induction pairs with
  | nil => rfl
  | cons p pairs ih =>
      change (alternating pairs).length + 1 + 1 = 2 * (pairs.length + 1)
      omega

/-- A list of even length is one of pairs. -/
theorem exists_alternating
    {α : Type} :
    ∀ {xs : List α}, xs.length % 2 = 0 → ∃ pairs, xs = alternating pairs
  | [], _ => ⟨[], rfl⟩
  | [x], h => by cases h
  | x :: y :: xs, h => by
      have hrest : xs.length % 2 = 0 := by
        simp only [List.length_cons] at h
        omega
      obtain ⟨pairs, rfl⟩ := exists_alternating hrest
      exact ⟨(x, y) :: pairs, rfl⟩

/-- Setting all fields leaves the last value of each. -/
theorem lookup_setAll_eq_lastValue
    (pairs : List (String × String))
    (field : String) :
    (Hash.setAll ∅ pairs).lookup field = lastValue pairs field := by
  induction pairs using List.reverseRecOn with
  | nil => rfl
  | append_singleton pairs p ih =>
      rw [Hash.setAll_append, Hash.setAll_cons, Hash.setAll_nil, Hash.lookup_insert_ite, ih]
      unfold lastValue
      rw [List.reverse_append]
      by_cases hfield : field = p.1
      · simp [hfield]
      · simp [hfield, Ne.symm hfield]

/-- Reordering different fields changes no value. -/
theorem lastValue_perm
    {pairs pairs' : List (String × String)}
    (hperm : pairs.Perm pairs')
    (hkeys : (pairs.map Prod.fst).Nodup) :
    lastValue pairs = lastValue pairs' := by
  funext field
  have hkeys' : (pairs'.map Prod.fst).Nodup := (hperm.map Prod.fst).nodup hkeys
  rw [← lookup_setAll_eq_lastValue, ← lookup_setAll_eq_lastValue]
  by_cases hfield : field ∈ pairs.map Prod.fst
  · obtain ⟨⟨key, value⟩, hp, rfl⟩ := List.mem_map.mp hfield
    rw [Hash.lookup_setAll_of_mem _ hkeys hp,
      Hash.lookup_setAll_of_mem _ hkeys' (hperm.mem_iff.mp hp)]
  · have hfield' : field ∉ pairs'.map Prod.fst :=
      mt (hperm.map Prod.fst).mem_iff.mpr hfield
    rw [Hash.lookup_setAll_of_notMem _ hfield, Hash.lookup_setAll_of_notMem _ hfield']

/-- Fields are read when all keys and values are texts. -/
theorem readFields_eq_ok
    {pairs : List (RedisValue × RedisValue)}
    {fields h : Hash String} :
    readFields (alternating pairs) fields = .ok h ↔
      ∃ texts, pairs = texts.map textPair ∧ h = Hash.setAll fields texts := by
  constructor
  · intro hread
    induction pairs generalizing fields with
    | nil =>
        cases hread
        exact ⟨[], rfl, rfl⟩
    | cons p pairs ih =>
        have hstep : readFields (alternating (p :: pairs)) fields = (do
            let k ← strFromVal p.1 "meta key"
            let v ← strFromVal p.2 "meta value"
            readFields (alternating pairs) (fields.insert k v)) := rfl
        rw [hstep] at hread
        obtain ⟨k, hk, hread⟩ := bind_eq_ok.mp hread
        obtain ⟨v, hv, hread⟩ := bind_eq_ok.mp hread
        obtain ⟨texts, rfl, rfl⟩ := ih hread
        refine ⟨(k, v) :: texts, ?_, rfl⟩
        rw [List.map_cons, textPair, ← strFromVal_eq_ok.mp hk, ← strFromVal_eq_ok.mp hv]
  · rintro ⟨texts, rfl, rfl⟩
    rw [alternating_map_textPair]
    exact readFields_flatten texts fields

section Format

variable (core : Core)

/-- What the id and the fields of a task must hold. -/
structure FieldsFormat (id : String) (pairs : List (String × String)) : Prop where
  named : ∃ taskId, core.parseTaskId id = .ok taskId
  attempts : ∃ text n, lastValue pairs "attempts" = some text ∧ Rust.Numeral text n ∧ n < 2 ^ 32
  maxAttempts :
    ∃ text n, lastValue pairs "max_attempts" = some text ∧ Rust.Numeral text n ∧ n < 2 ^ 32
  status :
    ∃ text status, lastValue pairs "status" = some text ∧ core.parseStatus text = .ok status

variable {core} in
/-- The task has what its id and its fields say, and the rest as its metadata. -/
structure FieldsOf (id : String) (pairs : List (String × String)) (task : CompactTask core) :
    Prop where
  taskId : core.parseTaskId id = .ok task.taskId
  attempts : ∃ text, lastValue pairs "attempts" = some text ∧
    Rust.Numeral text task.attempts ∧ task.attempts < 2 ^ 32
  maxAttempts : ∃ text, lastValue pairs "max_attempts" = some text ∧
    Rust.Numeral text task.maxAttempts ∧ task.maxAttempts < 2 ^ 32
  status : ∃ text, lastValue pairs "status" = some text ∧ core.parseStatus text = .ok task.status
  idempotencyKey :
    task.idempotencyKey = (lastValue pairs "idempotency_key").filter fun key => key ≠ ""
  lockBy : task.lockBy = lastValue pairs "locked_by"
  lockAt : task.lockAt = (lastValue pairs "locked_at").map fun text =>
    (Rust.parseUnsigned 64 text).toOption.getD 0
  metadata : ∀ field, task.metadata.lookup field =
    if field ∈ reservedFields then none else lastValue pairs field

/-- A task's data and its row. -/
def EntryFormat (entry : RedisValue × RedisValue) : Prop :=
  ∃ data id pairs, entry = (.bulkString data, rowValue (id :: flatten pairs)) ∧
    FieldsFormat core id pairs

variable {core} in
def DecodesTo (entry : RedisValue × RedisValue) (task : CompactTask core) : Prop :=
  ∃ id pairs, entry = (.bulkString task.data, rowValue (id :: flatten pairs)) ∧
    FieldsOf id pairs task

/-- The format of a reply: two arrays of one length. -/
def ReplyFormat (values : List RedisValue) : Prop :=
  ∃ jobDataList metaList, values = [.array jobDataList, .array metaList] ∧
    jobDataList.length = metaList.length ∧
    ∀ entry ∈ jobDataList.zip metaList, EntryFormat core entry

variable {core}

theorem takeFields_eq_ok
    {data : Bytes}
    {id : String}
    {taskId : core.TaskId}
    {pairs : List (String × String)}
    {task : CompactTask core}
    (hid : core.parseTaskId id = .ok taskId) :
    takeFields core data taskId (Hash.setAll ∅ pairs) = .ok task ↔
      task.data = data ∧ FieldsOf id pairs task := by
  have hlookup := lookup_setAll_eq_lastValue pairs
  simp only [takeFields_eq, bind_eq_ok, requiredField_eq_ok, Rust.parseUnsigned_eq_ok, hlookup,
    Except.ok.injEq]
  constructor
  · rintro ⟨attempts, ha, maxAttempts, hm, status, hs, rfl⟩
    refine ⟨rfl, hid, ha, hm, hs, ?_, ?_, ?_, fun field => ?_⟩
    · simp only [takenTask, hlookup]
    · simp only [takenTask, hlookup]
    · simp only [takenTask, hlookup]
    · simp only [takenTask, Hash.lookup_eraseAll, hlookup]
  · rintro ⟨rfl, h⟩
    have htaskId : task.taskId = taskId := Except.ok.inj (h.taskId.symm.trans hid)
    refine ⟨task.attempts, h.attempts, task.maxAttempts, h.maxAttempts, task.status, h.status, ?_⟩
    have hmetadata : Hash.eraseAll (Hash.setAll ∅ pairs) reservedFields = task.metadata := by
      refine Finmap.ext_lookup fun field => ?_
      rw [Hash.lookup_eraseAll, hlookup, h.metadata]
    simp only [takenTask, hlookup, ← h.idempotencyKey, ← h.lockBy, ← h.lockAt, ← htaskId,
      hmetadata]

/-- What one entry of the arrays decodes to. -/
theorem deserializeTask_eq_ok
    {entry : RedisValue × RedisValue}
    {task : CompactTask core} :
    deserializeTask core entry = .ok task ↔ DecodesTo entry task := by
  constructor
  · intro h
    unfold deserializeTask at h
    split at h
    · next data idVal rest =>
        obtain ⟨id, hidVal, h⟩ := bind_eq_ok.mp h
        obtain ⟨taskId, hid, h⟩ := bind_eq_ok.mp h
        split at h
        · cases h
        · next heven =>
            obtain ⟨fields, hfields, h⟩ := bind_eq_ok.mp h
            obtain ⟨values, rfl⟩ := exists_alternating (not_not.mp heven)
            obtain ⟨pairs, rfl, rfl⟩ := readFields_eq_ok.mp hfields
            obtain ⟨rfl, hfieldsOf⟩ := (takeFields_eq_ok hid).mp h
            refine ⟨id, pairs, ?_, hfieldsOf⟩
            rw [strFromVal_eq_ok.mp hidVal, alternating_map_textPair]
            rfl
    · cases h
    · cases h
    · cases h
  · rintro ⟨id, pairs, rfl, h⟩
    have heven : ((flatten pairs).map bulk).length % 2 = 0 := by
      rw [List.length_map, length_flatten]
      omega
    have htake := (takeFields_eq_ok h.taskId).mpr ⟨rfl, h⟩
    simp only [rowValue, List.map_cons, deserializeTask, strFromVal_bulk, heven,
      readFields_flatten]
    rw [bind_eq_ok]
    refine ⟨id, rfl, bind_eq_ok.mpr ⟨task.taskId, h.taskId, ?_⟩⟩
    exact htake

/-- An entry decodes when it has the format. -/
theorem exists_decodesTo
    {entry : RedisValue × RedisValue} :
    (∃ task : CompactTask core, DecodesTo entry task) ↔ EntryFormat core entry := by
  constructor
  · rintro ⟨task, id, pairs, hentry, h⟩
    obtain ⟨attempts, ha⟩ := h.attempts
    obtain ⟨maxAttempts, hm⟩ := h.maxAttempts
    obtain ⟨status, hs⟩ := h.status
    exact ⟨task.data, id, pairs, hentry, ⟨task.taskId, h.taskId⟩,
      ⟨attempts, task.attempts, ha⟩, ⟨maxAttempts, task.maxAttempts, hm⟩,
      ⟨status, task.status, hs⟩⟩
  · rintro ⟨data, id, pairs, rfl, ⟨taskId, hid⟩, ⟨attempts, n, ha⟩, ⟨maxAttempts, m, hm⟩,
      ⟨text, status, hs⟩⟩
    let task := takenTask core data taskId (Hash.setAll ∅ pairs) n m status
    have htake : takeFields core data taskId (Hash.setAll ∅ pairs) = .ok task := by
      simp only [takeFields_eq, bind_eq_ok, requiredField_eq_ok, Rust.parseUnsigned_eq_ok,
        lookup_setAll_eq_lastValue]
      exact ⟨n, ⟨attempts, ha⟩, m, ⟨maxAttempts, hm⟩, status, ⟨text, hs⟩, rfl⟩
    exact ⟨task, id, pairs, rfl, ((takeFields_eq_ok hid).mp htake).2⟩

theorem deserializeWithMeta_eq_ok
    {values : List RedisValue}
    {tasks : List (CompactTask core)} :
    deserializeWithMeta core values = .ok tasks ↔
      ∃ jobDataList metaList, values = [.array jobDataList, .array metaList] ∧
        jobDataList.length = metaList.length ∧
        List.Forall₂ DecodesTo (jobDataList.zip metaList) tasks := by
  have htasks : ∀ {entries : List (RedisValue × RedisValue)},
      entries.mapM (deserializeTask core) = .ok tasks ↔ List.Forall₂ DecodesTo entries tasks := by
    intro entries
    rw [mapM_eq_ok, ← List.forall₂_eq_eq_eq, List.forall₂_map_left_iff, List.forall₂_map_right_iff]
    simp only [deserializeTask_eq_ok]
  constructor
  · intro h
    unfold deserializeWithMeta at h
    split at h
    · next jobDataList metaList =>
        split at h
        · cases h
        · next hlength => exact ⟨jobDataList, metaList, rfl, not_not.mp hlength, htasks.mp h⟩
    · cases h
    · cases h
    · cases h
    · cases h
    · cases h
  · rintro ⟨jobDataList, metaList, rfl, hlength, h⟩
    rw [deserializeWithMeta, if_neg (not_not.mpr hlength)]
    exact htasks.mpr h

theorem exists_deserializeWithMeta
    {values : List RedisValue} :
    (∃ tasks, deserializeWithMeta core values = .ok tasks) ↔ ReplyFormat core values := by
  constructor
  · rintro ⟨tasks, h⟩
    obtain ⟨jobDataList, metaList, rfl, hlength, hdecodes⟩ := deserializeWithMeta_eq_ok.mp h
    refine ⟨jobDataList, metaList, rfl, hlength, fun entry hentry => ?_⟩
    obtain ⟨i, hi, rfl⟩ := List.getElem_of_mem hentry
    have hdecode := hdecodes.get hi (hdecodes.length_eq ▸ hi)
    exact exists_decodesTo.mp ⟨_, hdecode⟩
  · rintro ⟨jobDataList, metaList, rfl, hlength, hformat⟩
    have hentries : ∀ entry ∈ jobDataList.zip metaList,
        ∃ task, deserializeTask core entry = .ok task := by
      intro entry hentry
      obtain ⟨task, htask⟩ := exists_decodesTo.mpr (hformat entry hentry)
      exact ⟨task, deserializeTask_eq_ok.mpr htask⟩
    obtain ⟨tasks, htasks⟩ := exists_mapM_eq_ok.mpr hentries
    rw [deserializeWithMeta, if_neg (not_not.mpr hlength)]
    exact ⟨tasks, htasks⟩

/-- A row and a reordering of its pairs, which have different keys and meet `P`. -/
inductive Reordered (P : RedisValue × RedisValue → Prop) : RedisValue → RedisValue → Prop where
  | same (row : RedisValue) : Reordered P row row
  | pairs
      {idVal : RedisValue}
      {ps ps' : List (RedisValue × RedisValue)}
      (hperm : ps.Perm ps')
      (hkeys : (ps.map Prod.fst).Nodup)
      (hpairs : ∀ p ∈ ps, P p) :
      Reordered P (.array (idVal :: alternating ps)) (.array (idVal :: alternating ps'))

/-- What reads the same from both orders of every row reads the same from the entries. -/
theorem map_zip_reordered
    {β : Type}
    {P : RedisValue × RedisValue → Prop}
    {f : RedisValue × RedisValue → β}
    (hf : ∀ dataVal row row', Reordered P row row' → f (dataVal, row) = f (dataVal, row'))
    {metaList metaList' : List RedisValue}
    (hrows : List.Forall₂ (Reordered P) metaList metaList')
    (jobDataList : List RedisValue) :
    (jobDataList.zip metaList).map f = (jobDataList.zip metaList').map f := by
  induction hrows generalizing jobDataList with
  | nil => rfl
  | cons hrow _ ih =>
      cases jobDataList with
      | nil => rfl
      | cons dataVal jobDataList =>
          rw [List.zip_cons_cons, List.zip_cons_cons, List.map_cons, List.map_cons,
            hf dataVal _ _ hrow, ih jobDataList]

/-- A reordering of texts is one of their pairs. -/
theorem exists_perm_of_textPair
    {pairs : List (String × String)}
    {ps : List (RedisValue × RedisValue)}
    (hperm : (pairs.map textPair).Perm ps)
    (hkeys : ((pairs.map textPair).map Prod.fst).Nodup) :
    ∃ pairs', ps = pairs'.map textPair ∧ pairs.Perm pairs' ∧ (pairs.map Prod.fst).Nodup := by
  have hcomp : Relation.Comp (fun l pairs' => l = List.map textPair pairs') List.Perm ps pairs := by
    rw [List.eq_map_comp_perm]
    exact hperm.symm
  obtain ⟨pairs', hps, hperm'⟩ := hcomp
  refine ⟨pairs', hps, hperm'.symm, ?_⟩
  have hbulk : (pairs.map textPair).map Prod.fst = (pairs.map Prod.fst).map bulk := by
    simp [textPair]
  rw [hbulk] at hkeys
  exact hkeys.of_map bulk

/-- The same texts in another order set the same fields. -/
theorem setAll_reordered
    {pairs pairs' : List (String × String)}
    (hperm : pairs.Perm pairs')
    (hkeys : (pairs.map Prod.fst).Nodup) :
    Hash.setAll ∅ pairs = Hash.setAll (∅ : Hash String) pairs' := by
  refine Finmap.ext_lookup fun field => ?_
  rw [lookup_setAll_eq_lastValue, lookup_setAll_eq_lastValue, lastValue_perm hperm hkeys]

theorem Reordered.symm
    {P : RedisValue × RedisValue → Prop}
    {row row' : RedisValue}
    (h : Reordered P row row') :
    Reordered P row' row := by
  cases h with
  | same => exact .same row
  | pairs hperm hkeys hpairs =>
      exact .pairs hperm.symm ((hperm.map Prod.fst).nodup hkeys) fun p hp =>
        hpairs p (hperm.mem_iff.mpr hp)

/-- Pairs are never odd. -/
theorem deserializeTask_alternating
    (data : ByteArray)
    (idVal : RedisValue)
    (ps : List (RedisValue × RedisValue)) :
    deserializeTask core (.bulkString data, .array (idVal :: alternating ps)) = (do
      let id ← strFromVal idVal "task_id"
      let taskId ← core.parseTaskId id
      let fields ← readFields (alternating ps) ∅
      takeFields core data taskId fields) := by
  have heven : (alternating ps).length % 2 = 0 := by
    rw [length_alternating]
    omega
  simp only [deserializeTask, heven, ne_eq, not_true, if_false]

theorem deserializeTask_reordered
    {P : RedisValue × RedisValue → Prop}
    {dataVal row row' : RedisValue}
    {task : CompactTask core}
    (hrow : Reordered P row row')
    (h : deserializeTask core (dataVal, row) = .ok task) :
    deserializeTask core (dataVal, row') = .ok task := by
  cases hrow with
  | same => exact h
  | pairs hperm hkeys _ =>
      cases dataVal with
      | bulkString data =>
          rw [deserializeTask_alternating, bind_eq_ok] at h ⊢
          obtain ⟨id, hid, h⟩ := h
          obtain ⟨taskId, htaskId, h⟩ := bind_eq_ok.mp h
          obtain ⟨fields, hfields, h⟩ := bind_eq_ok.mp h
          obtain ⟨pairs, rfl, rfl⟩ := readFields_eq_ok.mp hfields
          obtain ⟨pairs', rfl, hperm', hkeys'⟩ := exists_perm_of_textPair hperm hkeys
          have hfields' := readFields_eq_ok.mpr
            ⟨pairs', rfl, setAll_reordered hperm' hkeys'⟩
          exact ⟨id, hid, bind_eq_ok.mpr ⟨taskId, htaskId, bind_eq_ok.mpr ⟨_, hfields', h⟩⟩⟩
      | nil => cases h
      | int => cases h
      | array => cases h
      | other => cases h

/-- Between texts the order does not even change the error. -/
theorem deserializeTask_reordered_texts
    (dataVal row row' : RedisValue)
    (hrow : Reordered (fun p => p ∈ Set.range textPair) row row') :
    deserializeTask core (dataVal, row) = deserializeTask core (dataVal, row') := by
  cases hrow with
  | same => rfl
  | @pairs idVal ps ps' hperm hkeys hpairs =>
      have hrange : ps ∈ Set.range (List.map textPair) := by
        rw [Set.range_list_map]
        exact hpairs
      obtain ⟨pairs, rfl⟩ := hrange
      obtain ⟨pairs', rfl, hperm', hkeys'⟩ := exists_perm_of_textPair hperm hkeys
      have hfields : readFields (alternating (pairs.map textPair)) ∅ =
          .ok (Hash.setAll ∅ pairs) :=
        readFields_eq_ok.mpr ⟨pairs, rfl, rfl⟩
      have hfields' : readFields (alternating (pairs'.map textPair)) ∅ =
          .ok (Hash.setAll ∅ pairs) :=
        readFields_eq_ok.mpr ⟨pairs', rfl, setAll_reordered hperm' hkeys'⟩
      cases dataVal with
      | bulkString data =>
          rw [deserializeTask_alternating, deserializeTask_alternating, hfields, hfields']
      | nil => rfl
      | int => rfl
      | array => rfl
      | other => rfl

variable (core) in
/-- Reordering the pairs of the rows does not change what is seen of the result. -/
def OrderFree {β : Type} (P : RedisValue × RedisValue → Prop)
    (seen : Except String (List (CompactTask core)) → β) : Prop :=
  ∀ jobDataList metaList metaList', List.Forall₂ (Reordered P) metaList metaList' →
    seen (deserializeWithMeta core [.array jobDataList, .array metaList]) =
      seen (deserializeWithMeta core [.array jobDataList, .array metaList'])

theorem orderFree_toOption :
    OrderFree core (fun _ => True) Except.toOption := by
  intro jobDataList metaList metaList' hrows
  let decoded := fun entry => (deserializeTask core entry).toOption
  have hf : ∀ dataVal row row', Reordered (fun _ => True) row row' →
      decoded (dataVal, row) = decoded (dataVal, row') := by
    intro dataVal row row' hrow
    refine Option.ext fun task => ?_
    rw [toOption_eq_some, toOption_eq_some]
    exact ⟨deserializeTask_reordered hrow, deserializeTask_reordered hrow.symm⟩
  have hmap := map_zip_reordered hf hrows jobDataList
  refine Option.ext fun tasks => ?_
  simp only [deserializeWithMeta, hrows.length_eq]
  split
  · exact Iff.rfl
  · rw [toOption_eq_some, toOption_eq_some, mapM_eq_ok_toOption, mapM_eq_ok_toOption]
    change List.map decoded _ = _ ↔ List.map decoded _ = _
    rw [hmap]

theorem orderFree_texts :
    OrderFree core (fun p => p ∈ Set.range textPair) id := by
  intro jobDataList metaList metaList' hrows
  have hmap := map_zip_reordered (f := deserializeTask core) deserializeTask_reordered_texts
    hrows jobDataList
  have hmapM : ∀ entries : List (RedisValue × RedisValue),
      entries.mapM (deserializeTask core) = (entries.map (deserializeTask core)).mapM id := by
    intro entries
    rw [List.mapM_map]
    rfl
  simp only [deserializeWithMeta, hrows.length_eq, hmapM, hmap]

variable (core) in
/-- What is accepted and what it decodes to, position by position. -/
structure ReadsFormat : Prop where
  accepts : ∀ values,
    (∃ tasks, deserializeWithMeta core values = .ok tasks) ↔ ReplyFormat core values
  decodes : ∀ jobDataList metaList tasks,
    deserializeWithMeta core [.array jobDataList, .array metaList] = .ok tasks →
      List.Forall₂ DecodesTo (jobDataList.zip metaList) tasks

/-- **The decoder accepts exactly the format.**  The order of the pairs changes
neither the tasks nor, between texts, the error. -/
theorem reads_format
    (core : Core) :
    ReadsFormat core ∧ OrderFree core (fun _ => True) Except.toOption ∧
      OrderFree core (fun p => p ∈ Set.range textPair) id := by
  refine ⟨⟨fun _ => exists_deserializeWithMeta, ?_⟩, orderFree_toOption, orderFree_texts⟩
  intro jobDataList metaList tasks h
  obtain ⟨jobDataList', metaList', hvalues, -, hdecodes⟩ := deserializeWithMeta_eq_ok.mp h
  cases hvalues
  exact hdecodes

/-- A bulk string that is no text. -/
def notText : RedisValue :=
  .bulkString ⟨#[255]⟩

theorem strFromVal_notText
    (field : String) :
    strFromVal notText field = .error (field ++ " not UTF-8") := by
  have hread : String.fromUTF8? ⟨#[255]⟩ = none := by decide +kernel
  simp only [strFromVal, notText, hread]

/-- Of a key and a value that are no texts, the error names the one that comes first. -/
theorem error_not_orderFree :
    ¬(ReadsFormat Core.text ∧ OrderFree Core.text (fun _ => True) id) := by
  rintro ⟨-, horder⟩
  let badKey : RedisValue × RedisValue := (notText, bulk "")
  let badValue : RedisValue × RedisValue := (bulk "a", notText)
  have hrow : Reordered (fun _ => True)
      (.array (bulk "t" :: alternating [badKey, badValue]))
      (.array (bulk "t" :: alternating [badValue, badKey])) := by
    refine .pairs (List.Perm.swap _ _ _) ?_ fun _ _ => trivial
    have hne : notText ≠ bulk "a" := by
      intro h
      have hread := strFromVal_notText ""
      rw [h, strFromVal_bulk] at hread
      cases hread
    simp [badKey, badValue, hne]
  have hfails : ∀ ps e, readFields (alternating ps) ∅ = .error e →
      deserializeWithMeta Core.text
        [.array [bulk ""], .array [.array (bulk "t" :: alternating ps)]] = .error e := by
    intro ps e he
    have htask : deserializeTask Core.text (bulk "", .array (bulk "t" :: alternating ps)) =
        .error e := by
      rw [bulk, deserializeTask_alternating, strFromVal_bulk, he]
      rfl
    simp [deserializeWithMeta, htask, bind, Except.bind]
  have hkey : readFields (alternating [badKey, badValue]) ∅ = .error "meta key not UTF-8" := by
    change (strFromVal notText "meta key" >>= _) = _
    rw [strFromVal_notText]
    rfl
  have hvalue : readFields (alternating [badValue, badKey]) ∅ =
      .error "meta value not UTF-8" := by
    change (strFromVal (bulk "a") "meta key" >>= fun _ => strFromVal notText "meta value" >>= _) = _
    rw [strFromVal_bulk, strFromVal_notText]
    rfl
  have hsame := horder [bulk ""] _ _ (.cons hrow .nil)
  rw [hfails _ _ hkey, hfails _ _ hvalue] at hsame
  exact absurd (Except.error.inj hsame) (by decide)

end Format

end ApalisRedis
