import Mathlib.Data.Finmap
import Mathlib.Data.List.Sort
import Mathlib.Data.Prod.Lex
import Mathlib.Data.String.Basic
import Mathlib.Tactic.Cases

/-!
# The values a Redis key can hold

Lists are `List`, sets are `Finset`, hashes and sorted sets are finite maps
(`Finmap`), so that equality of values is extensional.  Scores are natural
numbers taken as exact integers.

**Results.**
* `lookup_setAll_of_mem`, `lookup_setAll_of_notMem`: what `HMSET` leaves.
* `PartOf.setAll`, `PartOf.eraseAll`: a part of a hash stays one.
* `mem_rangeByScore`, `pairwise_rangeByScore`: what `ZRANGEBYSCORE` returns.
* `slice_zero_isPrefix`, `slice_neg_one`: what `LRANGE` and `LTRIM` cut.
-/

namespace Redis

/-- A hash: field names to values. -/
abbrev Hash (β : Type) := Finmap fun _ : String => β

/-- A sorted set: members to scores. -/
abbrev ZSet := Hash Nat

namespace Hash

variable {β : Type}

/-- `HMSET`: set the fields from left to right, a later one over an earlier one. -/
def setAll (h : Hash β) (fs : List (String × β)) : Hash β :=
  fs.foldl (fun h f => h.insert f.1 f.2) h

/-- `HDEL` and `ZREM` with several fields. -/
def eraseAll (h : Hash β) (ks : List String) : Hash β :=
  ks.foldl (fun h k => h.erase k) h

@[simp] theorem lookup_insert_ite (h : Hash β) (k k' : String) (v : β) :
    (h.insert k v).lookup k' = if k' = k then some v else h.lookup k' := by
  by_cases hk : k' = k
  · subst hk
    simp
  · simp [hk, Finmap.lookup_insert_of_ne h hk]

@[simp] theorem lookup_erase_ite (h : Hash β) (k k' : String) :
    (h.erase k).lookup k' = if k' = k then none else h.lookup k' := by
  by_cases hk : k' = k
  · subst hk
    simp
  · simp [hk, Finmap.lookup_erase_ne hk]

@[simp] theorem setAll_nil (h : Hash β) : setAll h [] = h := rfl

@[simp] theorem setAll_cons (h : Hash β) (f : String × β) (fs : List (String × β)) :
    setAll h (f :: fs) = setAll (h.insert f.1 f.2) fs := rfl

@[simp] theorem setAll_append (h : Hash β) (fs gs : List (String × β)) :
    setAll h (fs ++ gs) = setAll (setAll h fs) gs := by
  simp [setAll]

theorem lookup_setAll_of_notMem (fs : List (String × β)) {k : String}
    (hk : k ∉ fs.map Prod.fst) (h : Hash β) :
    (setAll h fs).lookup k = h.lookup k := by
  induction fs generalizing h with
  | nil => rfl
  | cons f fs ih =>
      rw [List.map_cons, List.mem_cons, not_or] at hk
      rw [setAll_cons, ih hk.2, lookup_insert_ite, if_neg hk.1]

theorem lookup_setAll_of_mem (fs : List (String × β)) {k : String} {v : β}
    (hnd : (fs.map Prod.fst).Nodup) (hkv : (k, v) ∈ fs) (h : Hash β) :
    (setAll h fs).lookup k = some v := by
  induction fs generalizing h with
  | nil => cases hkv
  | cons f fs ih =>
      rw [List.map_cons, List.nodup_cons] at hnd
      rcases List.mem_cons.mp hkv with rfl | hkv
      · rw [setAll_cons, lookup_setAll_of_notMem fs hnd.1, lookup_insert_ite, if_pos rfl]
      · exact ih hnd.2 hkv _

/-- Setting fields of one hash keeps the other fields of every hash. -/
theorem lookup_update_setAll (hashes : String → Hash β) (k : String)
    (fs : List (String × β)) (k' : String) {field : String}
    (hfield : field ∉ fs.map Prod.fst) :
    (Function.update hashes k (setAll (hashes k) fs) k').lookup field =
      (hashes k').lookup field := by
  rcases eq_or_ne k' k with rfl | hne
  · rw [Function.update_self, lookup_setAll_of_notMem fs hfield]
  · rw [Function.update_of_ne hne]

theorem mem_setAll (fs : List (String × β)) {k : String} (h : Hash β) :
    k ∈ setAll h fs ↔ k ∈ fs.map Prod.fst ∨ k ∈ h := by
  induction fs generalizing h with
  | nil => simp
  | cons f fs ih =>
      rw [setAll_cons, ih, Finmap.mem_insert, List.map_cons, List.mem_cons]
      tauto

/-- A field that is set does not depend on what was there before. -/
theorem lookup_setAll_congr (fs : List (String × β)) {k : String}
    (hk : k ∈ fs.map Prod.fst) (h g : Hash β) :
    (setAll h fs).lookup k = (setAll g fs).lookup k := by
  induction fs generalizing h g with
  | nil => cases hk
  | cons f fs ih =>
      by_cases hmem : k ∈ fs.map Prod.fst
      · exact ih hmem _ _
      · obtain rfl : k = f.1 := by
          rw [List.map_cons, List.mem_cons] at hk
          exact hk.resolve_right hmem
        rw [setAll_cons, setAll_cons, lookup_setAll_of_notMem fs hmem,
          lookup_setAll_of_notMem fs hmem, Finmap.lookup_insert, Finmap.lookup_insert]

/-- Setting the same fields a second time changes nothing. -/
@[simp] theorem setAll_setAll_self (h : Hash β) (fs : List (String × β)) :
    setAll (setAll h fs) fs = setAll h fs := by
  refine Finmap.ext_lookup fun k => ?_
  by_cases hk : k ∈ fs.map Prod.fst
  · exact lookup_setAll_congr fs hk _ _
  · rw [lookup_setAll_of_notMem fs hk]

theorem lookup_eraseAll (h : Hash β) (ks : List String) (k : String) :
    (eraseAll h ks).lookup k = if k ∈ ks then none else h.lookup k := by
  induction ks generalizing h with
  | nil => simp [eraseAll]
  | cons k' ks ih =>
      show (eraseAll (h.erase k') ks).lookup k = _
      rw [ih, lookup_erase_ite]
      by_cases hk : k ∈ ks <;> by_cases hk' : k = k' <;> simp [hk, hk']

theorem mem_eraseAll {h : Hash β} {ks : List String} {k : String} :
    k ∈ eraseAll h ks ↔ k ∉ ks ∧ k ∈ h := by
  rw [← Finmap.lookup_isSome, ← Finmap.lookup_isSome, lookup_eraseAll]
  by_cases hk : k ∈ ks <;> simp [hk]

/-- The fields of the first hash are in the second, with the same values. -/
def PartOf (h g : Hash β) : Prop :=
  ∀ k v, h.lookup k = some v → g.lookup k = some v

namespace PartOf

variable {h g : Hash β}

theorem refl (h : Hash β) : PartOf h h :=
  fun _ _ hv => hv

theorem mem (hpart : PartOf h g) {k : String} (hk : k ∈ h) : k ∈ g := by
  obtain ⟨v, hv⟩ := Finmap.mem_iff.mp hk
  exact Finmap.mem_iff.mpr ⟨v, hpart k v hv⟩

/-- The same fields are set in both. -/
theorem setAll (hpart : PartOf h g) (fs : List (String × β)) :
    PartOf (setAll h fs) (setAll g fs) := by
  intro k v hv
  by_cases hk : k ∈ fs.map Prod.fst
  · rwa [lookup_setAll_congr fs hk g h]
  · rw [lookup_setAll_of_notMem fs hk] at hv ⊢
    exact hpart k v hv

/-- The same fields are deleted from both. -/
theorem eraseAll (hpart : PartOf h g) (ks : List String) :
    PartOf (eraseAll h ks) (eraseAll g ks) := by
  intro k v hv
  rw [lookup_eraseAll] at hv ⊢
  split at hv
  · cases hv
  · next hk => rw [if_neg hk, hpart k v hv]

/-- More fields are deleted from the smaller one. -/
theorem eraseAll_left (hpart : PartOf h g) (ks : List String) :
    PartOf (Hash.eraseAll h ks) g := by
  intro k v hv
  rw [lookup_eraseAll] at hv
  split at hv
  · cases hv
  · exact hpart k v hv

end PartOf

end Hash

section Ordered

variable {α : Type} [LinearOrder α]

/-- The elements of a multiset in increasing order, by an insertion sort that
the kernel can run. -/
def ordered (s : Multiset α) : List α :=
  Quot.liftOn s (List.insertionSort (· ≤ ·)) fun l l' h =>
    (((List.perm_insertionSort _ l).trans h).trans
      (List.perm_insertionSort _ l').symm).eq_of_pairwise' (r := (· ≤ ·))
        (List.pairwise_insertionSort _ l) (List.pairwise_insertionSort _ l')

theorem coe_ordered (s : Multiset α) : (ordered s : Multiset α) = s :=
  Quot.inductionOn s fun l => Quot.sound (List.perm_insertionSort _ l)

theorem mem_ordered {s : Multiset α} {a : α} : a ∈ ordered s ↔ a ∈ s := by
  rw [← Multiset.mem_coe, coe_ordered]

/-- Sorting an enumeration of a set puts the set in order. -/
theorem insertionSort_enumeration {l : List α} {s : Finset α} (hnd : l.Nodup)
    (hmem : ∀ x, x ∈ l ↔ x ∈ s) : l.insertionSort (· ≤ ·) = ordered s.val := by
  have hl : (l : Multiset α) = s.val :=
    (Multiset.Nodup.ext (Multiset.coe_nodup.mpr hnd) s.nodup).mpr hmem
  rw [← hl]
  rfl

theorem pairwise_ordered (s : Multiset α) : (ordered s).Pairwise (· ≤ ·) :=
  Quot.inductionOn s fun l => List.pairwise_insertionSort _ l

end Ordered

namespace ZSet

/-- The entries in the order Redis keeps them: by score, then by member. -/
def sorted (z : ZSet) : List (Nat ×ₗ String) :=
  ordered (z.entries.map fun e => toLex (e.2, e.1))

/-- `ZRANGEBYSCORE key lo hi`. -/
def rangeByScore (z : ZSet) (lo hi : Nat) : List String :=
  (z.sorted.filter fun p => decide (lo ≤ (ofLex p).1 ∧ (ofLex p).1 ≤ hi)).map
    fun p => (ofLex p).2

theorem mem_sorted {z : ZSet} {x : String} {score : Nat} :
    toLex (score, x) ∈ z.sorted ↔ z.lookup x = some score := by
  rw [sorted, mem_ordered, Multiset.mem_map]
  constructor
  · rintro ⟨⟨y, v⟩, hmem, heq⟩
    cases heq
    exact Finmap.lookup_eq_some_iff.mpr hmem
  · intro h
    exact ⟨⟨x, score⟩, Finmap.lookup_eq_some_iff.mp h, rfl⟩

theorem mem_rangeByScore {z : ZSet} {lo hi : Nat} {x : String} :
    x ∈ z.rangeByScore lo hi ↔
      ∃ score, z.lookup x = some score ∧ lo ≤ score ∧ score ≤ hi := by
  simp only [rangeByScore, List.mem_map, List.mem_filter, decide_eq_true_eq]
  constructor
  · rintro ⟨p, ⟨hp, hlo, hhi⟩, rfl⟩
    exact ⟨(ofLex p).1, mem_sorted.mp hp, hlo, hhi⟩
  · rintro ⟨score, hx, hlo, hhi⟩
    exact ⟨toLex (score, x), ⟨mem_sorted.mpr hx, hlo, hhi⟩, rfl⟩

theorem nodup_members (z : ZSet) : (z.sorted.map fun p => (ofLex p).2).Nodup := by
  have hkeys : (z.entries.map Sigma.fst).Nodup := z.nodupKeys.nodup_keys
  rw [← Multiset.coe_nodup, ← Multiset.map_coe, sorted, coe_ordered, Multiset.map_map]
  exact hkeys

theorem nodup_rangeByScore (z : ZSet) (lo hi : Nat) : (z.rangeByScore lo hi).Nodup :=
  z.nodup_members.sublist (List.filter_sublist.map _)

theorem pairwise_sorted (z : ZSet) : z.sorted.Pairwise (· < ·) := by
  have hnd : z.sorted.Nodup := z.nodup_members.of_map
  exact ((pairwise_ordered _).and hnd).imp fun h => lt_of_le_of_ne h.1 h.2

/-- A range is in the order of the scores, and of the members where these are equal. -/
theorem pairwise_rangeByScore (z : ZSet) (lo hi : Nat) :
    (z.rangeByScore lo hi).Pairwise fun x y =>
      ∃ m n, z.lookup x = some m ∧ z.lookup y = some n ∧ toLex (m, x) < toLex (n, y) := by
  rw [rangeByScore, List.pairwise_map]
  refine (z.pairwise_sorted.filter _).imp_of_mem fun {p q} hp hq hlt => ?_
  exact ⟨(ofLex p).1, (ofLex q).1, mem_sorted.mp (List.mem_of_mem_filter hp),
    mem_sorted.mp (List.mem_of_mem_filter hq), hlt⟩

theorem mem_of_mem_rangeByScore {z : ZSet} {lo hi : Nat} {x : String}
    (h : x ∈ z.rangeByScore lo hi) : x ∈ z := by
  obtain ⟨score, hx, -⟩ := mem_rangeByScore.mp h
  exact Finmap.mem_of_lookup_eq_some hx

end ZSet

section Lists

variable {α : Type}

/-- A list index of Redis: negative ones count from the end. -/
def fromEnd (len : Nat) (i : Int) : Int :=
  if i < 0 then i + len else i

/-- `LRANGE key start stop`, both ends included. -/
def slice (xs : List α) (start stop : Int) : List α :=
  (xs.take (fromEnd xs.length stop + 1).toNat).drop (fromEnd xs.length start).toNat

theorem slice_zero (xs : List α) (stop : Int) :
    slice xs 0 stop = xs.take (fromEnd xs.length stop + 1).toNat := by
  simp [slice, fromEnd]

theorem slice_zero_isPrefix (xs : List α) (stop : Int) : slice xs 0 stop <+: xs := by
  rw [slice_zero]
  exact List.take_prefix _ _

/-- `LTRIM key n -1` drops the first `n` elements. -/
theorem slice_neg_one (xs : List α) (n : Nat) : slice xs n (-1) = xs.drop n := by
  have hstop : (fromEnd xs.length (-1) + 1).toNat = xs.length := by
    simp only [fromEnd]
    split <;> omega
  have hstart : (fromEnd xs.length (n : Int)).toNat = n := by
    simp only [fromEnd]
    split <;> omega
  rw [slice, hstop, hstart, List.take_length]

end Lists

end Redis
