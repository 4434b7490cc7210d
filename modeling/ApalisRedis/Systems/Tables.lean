import Mathlib.Algebra.Order.Floor.Ring
import Mathlib.Data.Rat.Floor
import Mathlib.Tactic.Ring
import Mathlib.Tactic.Linarith

/-!
# Records in a flat sequence

A scripting language with one kind of number: sequences are indexed from 1 by
numbers, reading outside a sequence gives nothing, and a numeric loop counts from
its start to its stop.  The numbers are rational, which is exact for the indices
and quotients of sequences of any practical length.

**Results.**
* `numericFor_eq`: the values of the loop variable, from the first one past the stop.
* `tableGet_records`: reading a field of a record behind a header.
* `map_range_eq_map`: a loop over the positions of a list visits its elements.
-/

namespace Systems

universe u v w

variable {α : Type u} {β : Type v} {ρ : Type w}

/-- `t[i]`, which is `nil` unless `i` is a whole number from 1 to the length. -/
def tableGet (t : List α) (i : ℚ) : Option α :=
  if i.den = 1 ∧ 1 ≤ i then t[i.num.toNat - 1]? else none

theorem tableGet_succ
    (t : List α)
    (n : Nat) :
    tableGet t ((n + 1 : Nat) : ℚ) = t[n]? := by
  have hwhole : ((n + 1 : Nat) : ℚ).den = 1 ∧ (1 : ℚ) ≤ ((n + 1 : Nat) : ℚ) :=
    ⟨Rat.den_natCast _, by exact_mod_cast Nat.le_add_left 1 n⟩
  rw [tableGet, if_pos hwhole, Rat.num_natCast, Int.toNat_natCast, Nat.add_sub_cancel]

/-- One more step brings the variable closer to the stop. -/
theorem floor_steps_lt
    {start stop step : ℚ}
    (hstep : 0 < step)
    (hrun : start ≤ stop) :
    (⌊(stop - (start + step)) / step⌋ + 1).toNat < (⌊(stop - start) / step⌋ + 1).toNat := by
  have hless : (stop - (start + step)) / step = (stop - start) / step - 1 := by
    rw [← sub_sub, sub_div _ step, div_self hstep.ne']
  have hleft : 0 ≤ ⌊(stop - start) / step⌋ :=
    Int.floor_nonneg.mpr (div_nonneg (sub_nonneg.mpr hrun) hstep.le)
  rw [hless, Int.floor_sub_one]
  omega

/-- The values that the variable of `for i = start, stop, step` takes, for a
positive step. -/
def numericFor (start stop step : ℚ) (hstep : 0 < step) : List ℚ :=
  if start ≤ stop then start :: numericFor (start + step) stop step hstep else []
termination_by (⌊(stop - start) / step⌋ + 1).toNat
decreasing_by exact floor_steps_lt hstep ‹_›

/-- **The run of a numeric loop**: `n` values up to the stop, and the next one past it. -/
theorem numericFor_eq
    {stop step : ℚ}
    (hstep : 0 < step)
    {n : Nat} :
    ∀ {start : ℚ}, (∀ k < n, start + k * step ≤ stop) → stop < start + n * step →
      numericFor start stop step hstep = (List.range n).map fun k : Nat => start + k * step := by
  induction n with
  | zero =>
      intro start _ hpast
      have hdone : ¬start ≤ stop := by
        rw [Nat.cast_zero, zero_mul, add_zero] at hpast
        exact not_le.mpr hpast
      rw [numericFor, if_neg hdone]
      rfl
  | succ n ih =>
      intro start hreached hpast
      have hfirst : start ≤ stop := by
        have h := hreached 0 (Nat.succ_pos n)
        rwa [Nat.cast_zero, zero_mul, add_zero] at h
      have hshift : ∀ k : Nat, start + ((k + 1 : Nat) : ℚ) * step = start + step + k * step := by
        intro k
        push_cast
        ring
      rw [numericFor, if_pos hfirst, List.range_succ_eq_map, List.map_cons, List.map_map,
        Nat.cast_zero, zero_mul, add_zero]
      congr 1
      rw [ih (fun k hk => hshift k ▸ hreached (k + 1) (Nat.succ_lt_succ hk)) (hshift n ▸ hpast)]
      exact List.map_congr_left fun k _ => (hshift k).symm

variable {row : ρ → List α} {width : Nat}

theorem length_rows
    (hwidth : ∀ r, (row r).length = width)
    (rows : List ρ) :
    (rows.flatMap row).length = width * rows.length := by
  induction rows with
  | nil => rfl
  | cons r rows ih =>
      rw [List.flatMap_cons, List.length_append, hwidth, ih, List.length_cons, Nat.mul_succ,
        Nat.add_comm]

/-- Row `k` starts where the rows before it end. -/
theorem getElem?_rows
    (hwidth : ∀ r, (row r).length = width)
    {j : Nat}
    {a : α}
    (rows : List ρ) :
    ∀ {k : Nat} {r : ρ}, rows[k]? = some r → (row r)[j]? = some a →
      (rows.flatMap row)[width * k + j]? = some a := by
  induction rows with
  | nil =>
      intro k r hr
      cases hr
  | cons first rows ih =>
      intro k r hr hfield
      rw [List.flatMap_cons]
      cases k with
      | zero =>
          cases hr
          obtain ⟨hj, -⟩ := List.getElem?_eq_some_iff.mp hfield
          rw [Nat.mul_zero, Nat.zero_add, List.getElem?_append_left hj]
          exact hfield
      | succ k =>
          have hnext : width * (k + 1) + j = (row first).length + (width * k + j) := by
            rw [hwidth, Nat.mul_succ]
            omega
          rw [hnext, List.getElem?_append_right (Nat.le_add_right _ _), Nat.add_sub_cancel_left]
          exact ih hr hfield

/-- Reading field `j` of record `k`, behind a header. -/
theorem tableGet_records
    (hwidth : ∀ r, (row r).length = width)
    (header : List α)
    {rows : List ρ}
    {j k : Nat}
    {r : ρ}
    {a : α}
    (hr : rows[k]? = some r)
    (hfield : (row r)[j]? = some a) :
    tableGet (header ++ rows.flatMap row) ((header.length + (width * k + j) + 1 : Nat) : ℚ) =
      some a := by
  rw [tableGet_succ, List.getElem?_append_right (Nat.le_add_right _ _), Nat.add_sub_cancel_left]
  exact getElem?_rows hwidth rows hr hfield

theorem map_range_eq_map
    {rows : List ρ}
    {f : Nat → β}
    {g : ρ → β}
    (h : ∀ k r, rows[k]? = some r → f k = g r) :
    (List.range rows.length).map f = rows.map g := by
  refine List.ext_getElem (by simp) fun k hk hk' => ?_
  have hrow : k < rows.length := by simpa using hk
  rw [List.getElem_map, List.getElem_range, List.getElem_map]
  exact h k _ (List.getElem?_eq_getElem hrow)

end Systems
