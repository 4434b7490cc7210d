import Mathlib.Logic.Relation

/-!
# Invariants and simulations of transition systems

A transition system is a relation on its states, and a run of it is its
reflexive transitive closure.

**Results.**
* `preserved`: what every step keeps, every run keeps.
* `Simulates.run`: a simulation of steps is a simulation of runs.
* `foldl_comm`: sequences of operations commute when their operations do.
-/

namespace Systems

universe u v w

variable {σ : Type u} {τ : Type v}
variable {R : σ → σ → Prop} {S : τ → τ → Prop} {V : σ → τ → Prop}

/-- What every step keeps, every run keeps. -/
theorem preserved
    {I : σ → Prop}
    (hstep : ∀ s s', R s s' → I s → I s')
    {s s' : σ}
    (hrun : Relation.ReflTransGen R s s')
    (hs : I s) :
    I s' := by
  induction hrun with
  | refl => exact hs
  | tail _ hlast ih => exact hstep _ _ hlast ih

/-- Every step of `R` from a state that `V` relates to an abstract one is
answered by a run of `S` that restores the relation. -/
def Simulates (R : σ → σ → Prop) (S : τ → τ → Prop) (V : σ → τ → Prop) : Prop :=
  ∀ s s' t, R s s' → V s t → ∃ t', Relation.ReflTransGen S t t' ∧ V s' t'

theorem Simulates.run
    (hsim : Simulates R S V)
    {s s' : σ}
    {t : τ}
    (hrun : Relation.ReflTransGen R s s')
    (hst : V s t) :
    ∃ t', Relation.ReflTransGen S t t' ∧ V s' t' := by
  induction hrun with
  | refl => exact ⟨t, .refl, hst⟩
  | tail _ hlast ih =>
      obtain ⟨u, htu, hu⟩ := ih
      obtain ⟨t', hut', ht'⟩ := hsim _ _ u hlast hu
      exact ⟨t', htu.trans hut', ht'⟩

section Operations

variable {α : Type v} {β : Type w} {f : σ → α → σ} {g : σ → β → σ}

/-- An operation that commutes with each operation of a sequence can be made
before or after the sequence. -/
theorem foldl_comm_step
    {xs : List α}
    {b : β}
    (hcomm : ∀ a ∈ xs, ∀ s, g (f s a) b = f (g s b) a)
    (s : σ) :
    g (xs.foldl f s) b = xs.foldl f (g s b) := by
  induction xs generalizing s with
  | nil => rfl
  | cons a xs ih =>
      rw [List.foldl_cons, List.foldl_cons, ih fun a' ha' => hcomm a' (List.mem_cons_of_mem _ ha'),
        hcomm a List.mem_cons_self]

/-- Two sequences of operations commute when their operations do. -/
theorem foldl_comm
    {xs : List α}
    {ys : List β}
    (hcomm : ∀ a ∈ xs, ∀ b ∈ ys, ∀ s, g (f s a) b = f (g s b) a)
    (s : σ) :
    ys.foldl g (xs.foldl f s) = xs.foldl f (ys.foldl g s) := by
  induction ys generalizing s with
  | nil => rfl
  | cons b ys ih =>
      rw [List.foldl_cons, List.foldl_cons,
        foldl_comm_step fun a ha => hcomm a ha b List.mem_cons_self]
      exact ih (fun a ha b' hb' => hcomm a ha b' (List.mem_cons_of_mem _ hb')) (g s b)

end Operations

end Systems
