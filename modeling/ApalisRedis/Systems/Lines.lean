import Mathlib.Data.List.TakeDrop

/-!
# Waiting lines

Elements join a line at its end and leave it from its front.  In a turn somebody
leaves unless the line is empty.

**Results.**
* `Serves.trans`: a line over several steps.
* `Turns.served_within`: who stands at a place is served, at that place, within
  as many turns.
-/

namespace Systems

section Lines

variable {α : Type}

/-- Some elements have joined, and `served` have left, in this order. -/
def Serves (served xs ys : List α) : Prop :=
  ∃ arrivals, xs ++ arrivals = served ++ ys

theorem serves_of_isPrefix
    {xs ys : List α}
    (h : xs <+: ys) :
    Serves [] xs ys :=
  h

theorem serves_take
    (xs arrivals : List α)
    (n : Nat) :
    Serves ((xs ++ arrivals).take n) xs ((xs ++ arrivals).drop n) :=
  ⟨arrivals, (List.take_append_drop n _).symm⟩

namespace Serves

variable {served later xs ys zs : List α}

theorem trans
    (h : Serves served xs ys)
    (h' : Serves later ys zs) :
    Serves (served ++ later) xs zs := by
  obtain ⟨arrivals, hxs⟩ := h
  obtain ⟨arrivals', hys⟩ := h'
  refine ⟨arrivals ++ arrivals', ?_⟩
  rw [← List.append_assoc, hxs, List.append_assoc, hys, List.append_assoc]

variable {k : Nat} {a : α}

/-- Who stands before the last one to be served has been served. -/
theorem getElem?_served
    (h : Serves served xs ys)
    (ha : xs[k]? = some a)
    (hk : k < served.length) :
    served[k]? = some a := by
  obtain ⟨arrivals, hxs⟩ := h
  obtain ⟨hlt, -⟩ := List.getElem?_eq_some_iff.mp ha
  rw [← List.getElem?_append_left hk, ← hxs, List.getElem?_append_left hlt, ha]

/-- The others have moved up. -/
theorem getElem?_left
    (h : Serves served xs ys)
    (ha : xs[k]? = some a)
    (hk : served.length ≤ k) :
    ys[k - served.length]? = some a := by
  obtain ⟨arrivals, hxs⟩ := h
  obtain ⟨hlt, -⟩ := List.getElem?_eq_some_iff.mp ha
  rw [← List.getElem?_append_right hk, ← hxs, List.getElem?_append_left hlt, ha]

end Serves

/-- Several steps of a line with a number of turns among them. -/
inductive Turns : Nat → List α → List α → List α → Prop
  | idle (xs : List α) : Turns 0 [] xs xs
  | wait {n : Nat} {served later xs ys zs : List α} (h : Serves served xs ys)
      (hrest : Turns n later ys zs) : Turns n (served ++ later) xs zs
  | turn {n : Nat} {served later xs ys zs : List α} (h : Serves served xs ys)
      (hsome : xs ≠ [] → served ≠ []) (hrest : Turns n later ys zs) :
      Turns (n + 1) (served ++ later) xs zs

namespace Turns

variable {n : Nat} {served xs ys : List α}

theorem serves
    (h : Turns n served xs ys) :
    Serves served xs ys := by
  induction h with
  | idle xs => exact serves_of_isPrefix List.prefix_rfl
  | wait h hrest ih => exact h.trans ih
  | turn h hsome hrest ih => exact h.trans ih

/-- **Who stands at place `k` is served as number `k`, within `k + 1` turns.** -/
theorem served_within
    (h : Turns n served xs ys)
    {k : Nat}
    {a : α}
    (ha : xs[k]? = some a)
    (hk : k < n) :
    served[k]? = some a := by
  refine h.serves.getElem?_served ha ?_
  induction h generalizing k with
  | idle xs => exact absurd hk (Nat.not_lt_zero k)
  | @wait n served later xs ys zs h hrest ih =>
      rw [List.length_append]
      rcases Nat.lt_or_ge k served.length with hnow | hlater
      · omega
      · have hrank := ih (h.getElem?_left ha hlater) (by omega)
        omega
  | @turn n served later xs ys zs h hsome hrest ih =>
      rw [List.length_append]
      rcases Nat.lt_or_ge k served.length with hnow | hlater
      · omega
      · have hpos : 0 < served.length :=
          List.length_pos_iff.mpr (hsome (by rintro rfl; cases ha))
        have hrank := ih (h.getElem?_left ha hlater) (by omega)
        omega

end Turns

end Lines

end Systems
