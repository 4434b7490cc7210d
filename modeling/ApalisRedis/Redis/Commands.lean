import ApalisRedis.Redis.Script
import ApalisRedis.Redis.Values
import ApalisRedis.Rust.Numbers
import Mathlib.Data.Finset.Basic
import Mathlib.Logic.Function.Basic

/-!
# Redis commands over typed keys

A `Key σ V` names a Redis key and says where a state `σ` keeps its value.  Every
command a script calls is one `Script.command`; an absent list, set, hash or
sorted set is the empty one, as in Redis.

`Runtime` collects what Redis and its embedded Lua 5.1 leave open: the order in
which unordered collections are enumerated, how many values `unpack` may put on
the stack, and the text of a number that Lua hands back to Redis.
-/

namespace Redis

universe u v

open Script

/-- A Redis key with the place its value has in the state. -/
structure Key (σ : Type u) (V : Type v) where
  name : String
  get : σ → V
  set : V → σ → σ

/-- A string key that may expire: its value and the expiry instant in milliseconds. -/
structure Claim where
  value : String
  expireAt : Option Nat
deriving DecidableEq

/-- Whether the string key still exists at `now`. -/
def Claim.live (now : Nat) : Option Claim → Bool
  | none => false
  | some c => c.expireAt.elim true fun t => decide (now < t)

/-- A string key that exists later exists now. -/
theorem Claim.live_of_le
    {now later : Nat}
    (hle : now ≤ later)
    {claim : Claim}
    (hlive : Claim.live later (some claim) = true) :
    Claim.live now (some claim) = true := by
  obtain ⟨value, expireAt⟩ := claim
  cases expireAt with
  | none => rfl
  | some t =>
      have hlt : later < t := of_decide_eq_true hlive
      exact decide_eq_true (Nat.lt_of_le_of_lt hle hlt)

section Commands

variable {σ : Type u}

@[simp] def rpush (k : Key σ (List String)) (xs : List String) : Script σ Nat :=
  command (fun s => (k.get s ++ xs).length) fun s => k.set (k.get s ++ xs) s

@[simp] def lpush (k : Key σ (List String)) (x : String) : Script σ Nat :=
  command (fun s => (x :: k.get s).length) fun s => k.set (x :: k.get s) s

@[simp] def lrange (k : Key σ (List String)) (start stop : Int) : Script σ (List String) :=
  command (fun s => slice (k.get s) start stop) id

@[simp] def ltrim (k : Key σ (List String)) (start stop : Int) : Script σ Unit :=
  command (fun _ => ()) fun s => k.set (slice (k.get s) start stop) s

/-- `LREM key 1 x`: remove the first occurrence. -/
@[simp] def lrem (k : Key σ (List String)) (x : String) : Script σ Nat :=
  command (fun s => if x ∈ k.get s then 1 else 0) fun s => k.set ((k.get s).erase x) s

/-- `DEL` of a list. -/
@[simp] def delList (k : Key σ (List String)) : Script σ Unit :=
  command (fun _ => ()) fun s => k.set [] s

@[simp] def sadd (k : Key σ (Finset String)) (x : String) : Script σ Nat :=
  command (fun s => if x ∈ k.get s then 0 else 1) fun s => k.set (insert x (k.get s)) s

/-- `SADD` with several members. -/
@[simp] def saddAll (k : Key σ (Finset String)) (xs : List String) : Script σ Unit :=
  command (fun _ => ()) fun s => k.set (k.get s ∪ xs.toFinset) s

@[simp] def srem (k : Key σ (Finset String)) (x : String) : Script σ Nat :=
  command (fun s => if x ∈ k.get s then 1 else 0) fun s => k.set ((k.get s).erase x) s

@[simp] def sismember (k : Key σ (Finset String)) (x : String) : Script σ Nat :=
  command (fun s => if x ∈ k.get s then 1 else 0) id

@[simp] def smembers (order : Finset String → List String) (k : Key σ (Finset String)) :
    Script σ (List String) :=
  command (fun s => order (k.get s)) id

/-- `DEL` of a set. -/
@[simp] def delSet (k : Key σ (Finset String)) : Script σ Unit :=
  command (fun _ => ()) fun s => k.set ∅ s

@[simp] def zadd (k : Key σ ZSet) (score : Nat) (x : String) : Script σ Unit :=
  command (fun _ => ()) fun s => k.set ((k.get s).insert x score) s

/-- `ZADD key GT score x`: an existing score only grows. -/
@[simp] def zaddGT (k : Key σ ZSet) (score : Nat) (x : String) : Script σ Unit :=
  command (fun _ => ()) fun s =>
    k.set ((k.get s).insert x (max score (((k.get s).lookup x).getD score))) s

@[simp] def zrem (k : Key σ ZSet) (xs : List String) : Script σ Unit :=
  command (fun _ => ()) fun s => k.set (Hash.eraseAll (k.get s) xs) s

@[simp] def zscore (k : Key σ ZSet) (x : String) : Script σ (Option Nat) :=
  command (fun s => (k.get s).lookup x) id

@[simp] def zrangebyscore (k : Key σ ZSet) (lo hi : Nat) : Script σ (List String) :=
  command (fun s => (k.get s).rangeByScore lo hi) id

section Hashes

variable {β : Type}

@[simp] def hset (k : Key σ (Hash β)) (fs : List (String × β)) : Script σ Unit :=
  command (fun _ => ()) fun s => k.set (Hash.setAll (k.get s) fs) s

@[simp] def hsetnx (k : Key σ (Hash β)) (f : String) (v : β) : Script σ Nat :=
  command (fun s => if f ∈ k.get s then 0 else 1) fun s =>
    if f ∈ k.get s then s else k.set ((k.get s).insert f v) s

@[simp] def hget (k : Key σ (Hash β)) (f : String) : Script σ (Option β) :=
  command (fun s => (k.get s).lookup f) id

@[simp] def hmget (k : Key σ (Hash β)) (fs : List String) : Script σ (List (Option β)) :=
  command (fun s => fs.map fun f => (k.get s).lookup f) id

@[simp] def hkeys (order : Finset String → List String) (k : Key σ (Hash β)) :
    Script σ (List String) :=
  command (fun s => order (k.get s).keys) id

@[simp] def hgetall (k : Key σ (Hash β)) : Script σ (Hash β) :=
  command (fun s => k.get s) id

@[simp] def hdel (k : Key σ (Hash β)) (fs : List String) : Script σ Unit :=
  command (fun _ => ()) fun s => k.set (Hash.eraseAll (k.get s) fs) s

/-- `DEL` of a hash. -/
@[simp] def delHash (k : Key σ (Hash β)) : Script σ Unit :=
  command (fun _ => ()) fun s => k.set ∅ s

end Hashes

/-- `SETNX` at the server instant `clock s`. -/
@[simp] def setnx (clock : σ → Nat) (k : Key σ (Option Claim)) (v : String) : Script σ Nat :=
  command (fun s => if Claim.live (clock s) (k.get s) then 0 else 1) fun s =>
    if Claim.live (clock s) (k.get s) then s else k.set (some ⟨v, none⟩) s

/-- `EXPIRE key seconds`: a time to live that is not positive deletes the key at once. -/
@[simp] def expire (clock : σ → Nat) (k : Key σ (Option Claim)) (seconds : Nat) :
    Script σ Unit :=
  command (fun _ => ()) fun s =>
    if seconds = 0 then k.set none s
    else k.set ((k.get s).map fun c => { c with expireAt := some (clock s + 1000 * seconds) }) s

/-- `PUBLISH channel message`, recorded in order. -/
@[simp] def publish (k : Key σ (List (String × String))) (channel message : String) :
    Script σ Unit :=
  command (fun _ => ()) fun s => k.set (k.get s ++ [(channel, message)]) s

end Commands

/-- What a Redis server and its Lua interpreter are free to choose. -/
structure Runtime where
  /-- Most values that one `unpack` may return; `none` when it never fails. -/
  unpackLimit : Option Nat
  /-- The order in which `SMEMBERS` and `HKEYS` enumerate. -/
  members : Finset String → List String
  nodup_members : ∀ s, (members s).Nodup
  mem_members : ∀ {s x}, x ∈ members s ↔ x ∈ s
  /-- The order in which `HGETALL`, and `pairs` on a decoded table, enumerate. -/
  fields : Hash String → List (String × String)
  nodup_fields : ∀ h, ((fields h).map Prod.fst).Nodup
  mem_fields : ∀ {h k v}, (k, v) ∈ fields h ↔ h.lookup k = some v
  /-- The text of a Lua number passed to `redis.call`: exact for the integers
  that a double represents without a gap. -/
  numeral : Nat → String
  numeral_exact : ∀ {n}, n < 2 ^ 53 → numeral n = n.repr
  /-- `tonumber(text) <= c`, which raises (`none`) when `text` is not a number. -/
  numberLe : String → Int → Option Bool
  numberLe_repr : ∀ {n : Nat}, n < 2 ^ 53 → ∀ c, numberLe n.repr c = some (decide ((n : Int) ≤ c))

namespace Runtime

variable {σ : Type u} (rt : Runtime)

/-- Whether `unpack` of `n` values succeeds. -/
def Fits (n : Nat) : Prop :=
  ∀ limit, rt.unpackLimit = some limit → n ≤ limit

instance (n : Nat) : Decidable (rt.Fits n) :=
  match h : rt.unpackLimit with
  | none => isTrue fun limit hl => by rw [h] at hl; cases hl
  | some limit =>
      decidable_of_iff (n ≤ limit)
        ⟨fun hn l hl => by rw [h] at hl; cases hl; exact hn, fun hf => hf limit h⟩

theorem fits_zero : rt.Fits 0 :=
  fun _ _ => Nat.zero_le _

/-- The stack check of Lua's `unpack` for `n` values. -/
@[simp] def unpack (n : Nat) : Script σ Unit :=
  if rt.Fits n then pure () else raise "too many results to unpack"

/-- The same server with an `unpack` that never fails. -/
def unlimited : Runtime :=
  { rt with unpackLimit := none }

@[simp] theorem unlimited_fits (n : Nat) : rt.unlimited.Fits n := by
  intro limit h
  cases h

theorem members_eq_nil {s : Finset String} : rt.members s = [] ↔ s = ∅ := by
  rw [List.eq_nil_iff_forall_not_mem, Finset.eq_empty_iff_forall_notMem]
  exact forall_congr' fun x => not_congr rt.mem_members

/-- Setting every field of `h` on top of `g`, in whatever order, is their union. -/
theorem lookup_setAll_fields (g h : Hash String) (k : String) :
    (Hash.setAll g (rt.fields h)).lookup k = (h.lookup k).or (g.lookup k) := by
  cases hk : h.lookup k with
  | none =>
      refine Hash.lookup_setAll_of_notMem _ ?_ g
      intro hmem
      obtain ⟨⟨k', v⟩, hkv, rfl⟩ := List.mem_map.mp hmem
      rw [rt.mem_fields.mp hkv] at hk
      cases hk
  | some v =>
      exact Hash.lookup_setAll_of_mem _ (rt.nodup_fields h) (rt.mem_fields.mpr hk) g

/-- A server that enumerates in increasing order and prints every number exactly. -/
def ascending (unpackLimit : Option Nat) : Runtime where
  unpackLimit := unpackLimit
  members s := ordered s.val
  nodup_members s := by
    rw [← Multiset.coe_nodup, coe_ordered]
    exact s.nodup
  mem_members := mem_ordered
  fields h := (ordered (h.entries.map fun e => toLex (e.1, e.2))).map fun p => ofLex p
  nodup_fields h := by
    have hkeys : (h.entries.map Sigma.fst).Nodup := h.nodupKeys.nodup_keys
    rw [List.map_map, ← Multiset.coe_nodup, ← Multiset.map_coe, coe_ordered, Multiset.map_map]
    exact hkeys
  mem_fields := by
    intro h k v
    rw [Finmap.lookup_eq_some_iff, List.mem_map]
    constructor
    · rintro ⟨p, hp, hkv⟩
      rw [mem_ordered, Multiset.mem_map] at hp
      obtain ⟨e, he, rfl⟩ := hp
      cases hkv
      exact he
    · intro he
      refine ⟨toLex (k, v), ?_, rfl⟩
      rw [mem_ordered, Multiset.mem_map]
      exact ⟨⟨k, v⟩, he, rfl⟩
  numeral := Nat.repr
  numeral_exact _ := rfl
  numberLe text c :=
    match Rust.parseUnsigned 53 text with
    | .ok n => some (decide ((n : Int) ≤ c))
    | .error _ => none
  numberLe_repr := by
    intro n hn c
    rw [Rust.parseUnsigned_repr_of_lt hn]

end Runtime

end Redis
