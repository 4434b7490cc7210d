import Mathlib.Data.List.Infix
import Mathlib.Data.String.Basic

/-!
# Replacing in strings

`str::replace` for a pattern that is not empty.  The occurrences are found from
the left, and one that overlaps an earlier one is none.

**Results.**
* `replaceFrom_of_not_infix`: without an occurrence nothing changes.
* `length_removed_lt`: removing an occurrence makes the string shorter.
* `removed_append_self`: an occurrence at the end is removed, and nothing else
  because of it.
-/

namespace Rust

section Replace

variable {α : Type}

/-- A pattern whose first character does not recur starts nowhere inside itself. -/
theorem prefix_append_self_iff
    {a c : α}
    {rest s : List α}
    (ha : a ∉ rest) :
    a :: rest <+: c :: (s ++ a :: rest) ↔ a :: rest <+: c :: s := by
  rw [← List.cons_append]
  constructor
  · intro h
    rcases List.prefix_or_prefix_of_prefix h (List.prefix_append (c :: s) (a :: rest)) with
      hinside | ⟨t, ht⟩
    · exact hinside
    · cases t with
      | nil =>
          rw [List.append_nil] at ht
          exact ht ▸ List.prefix_rfl
      | cons b t =>
          -- The rest of the pattern would start with the pattern's first character.
          rw [← ht, List.prefix_append_right_inj, ht, List.cons_prefix_cons] at h
          obtain ⟨rfl, -⟩ := h
          have hrest : rest = s ++ b :: t := (List.cons.inj ht).2.symm
          rw [hrest] at ha
          exact absurd (List.mem_append_right s List.mem_cons_self) ha
  · exact fun h => h.trans (List.prefix_append _ _)

variable [DecidableEq α]

/-- `replace`, when the first `skip` characters belong to the last occurrence. -/
def replaceFrom (pattern new : List α) : Nat → List α → List α
  | _, [] => []
  | skip + 1, _ :: s => replaceFrom pattern new skip s
  | 0, c :: s =>
      if pattern <+: c :: s then new ++ replaceFrom pattern new (pattern.length - 1) s
      else c :: replaceFrom pattern new 0 s

variable {pattern : List α}

theorem replaceFrom_of_starts
    (new : List α)
    {c : α}
    {s : List α}
    (h : pattern <+: c :: s) :
    replaceFrom pattern new 0 (c :: s) = new ++ replaceFrom pattern new (pattern.length - 1) s :=
  if_pos h

theorem replaceFrom_of_not_starts
    (new : List α)
    {c : α}
    {s : List α}
    (h : ¬pattern <+: c :: s) :
    replaceFrom pattern new 0 (c :: s) = c :: replaceFrom pattern new 0 s :=
  if_neg h

/-- Without an occurrence nothing changes. -/
theorem replaceFrom_of_not_infix
    (new : List α)
    {s : List α}
    (h : ¬pattern <:+: s) :
    replaceFrom pattern new 0 s = s := by
  induction s with
  | nil => rfl
  | cons c s ih =>
      obtain ⟨hstarts, hrest⟩ := not_or.mp (mt List.infix_cons_iff.mpr h)
      rw [replaceFrom_of_not_starts new hstarts, ih hrest]

/-- What belongs to an occurrence is removed with it. -/
theorem length_removed_le
    (pattern : List α)
    (skip : Nat)
    (s : List α) :
    (replaceFrom pattern [] skip s).length ≤ s.length - skip := by
  induction s generalizing skip with
  | nil => simp [replaceFrom]
  | cons c s ih =>
      cases skip with
      | zero =>
          by_cases h : pattern <+: c :: s
          · have hlength := ih (pattern.length - 1)
            rw [replaceFrom_of_starts [] h, List.nil_append, List.length_cons]
            omega
          · have hlength := ih 0
            rw [replaceFrom_of_not_starts [] h, List.length_cons, List.length_cons]
            omega
      | succ skip =>
          have hlength := ih skip
          rw [replaceFrom, List.length_cons]
          omega

/-- **Removing an occurrence makes the string shorter.** -/
theorem length_removed_lt
    (hpattern : pattern ≠ [])
    {s : List α}
    (h : pattern <:+: s) :
    (replaceFrom pattern [] 0 s).length < s.length := by
  induction s with
  | nil => exact absurd (List.infix_nil.mp h) hpattern
  | cons c s ih =>
      by_cases hstarts : pattern <+: c :: s
      · have hlength := length_removed_le pattern (pattern.length - 1) s
        rw [replaceFrom_of_starts [] hstarts, List.nil_append, List.length_cons]
        omega
      · have hrest := (List.infix_cons_iff.mp h).resolve_left hstarts
        have hlength := ih hrest
        rw [replaceFrom_of_not_starts [] hstarts, List.length_cons, List.length_cons]
        omega

theorem replaceFrom_of_length_le
    (pattern new : List α)
    {skip : Nat}
    {s : List α}
    (h : s.length ≤ skip) :
    replaceFrom pattern new skip s = [] := by
  induction s generalizing skip with
  | nil => cases skip <;> rfl
  | cons c s ih =>
      obtain ⟨skip, rfl⟩ := Nat.exists_eq_add_one_of_ne_zero
        (Nat.ne_of_gt (Nat.lt_of_lt_of_le (Nat.succ_pos _) h))
      exact ih (Nat.le_of_succ_le_succ h)

/-- **An occurrence at the end is removed, and nothing else because of it.** -/
theorem removed_append_self
    {a : α}
    {rest : List α}
    (ha : a ∉ rest)
    {skip : Nat}
    {s : List α}
    (hskip : skip ≤ s.length) :
    replaceFrom (a :: rest) [] skip (s ++ a :: rest) = replaceFrom (a :: rest) [] skip s := by
  induction s generalizing skip with
  | nil =>
      obtain rfl : skip = 0 := Nat.le_zero.mp hskip
      rw [List.nil_append, replaceFrom_of_starts [] List.prefix_rfl, List.nil_append]
      exact replaceFrom_of_length_le _ _ (Nat.le_refl _)
  | cons c s ih =>
      cases skip with
      | zero =>
          by_cases h : a :: rest <+: c :: s
          · have hlength : rest.length ≤ s.length := Nat.le_of_succ_le_succ h.length_le
            have hlonger := (prefix_append_self_iff ha).mpr h
            rw [replaceFrom_of_starts [] h, List.cons_append, replaceFrom_of_starts [] hlonger]
            exact congrArg ([] ++ ·) (ih hlength)
          · have hlonger := mt (prefix_append_self_iff ha).mp h
            rw [replaceFrom_of_not_starts [] h, List.cons_append,
              replaceFrom_of_not_starts [] hlonger, ih (Nat.zero_le _)]
      | succ skip => exact ih (Nat.le_of_succ_le_succ hskip)

end Replace

/-- `str::replace` -/
def replace (s pattern new : String) : String :=
  String.ofList (replaceFrom pattern.toList new.toList 0 s.toList)

example : replace "a:workers:b:workers" ":workers" "" = "a:b" := by decide +kernel

end Rust
