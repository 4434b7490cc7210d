import Mathlib.Data.List.Induction

/-!
# Histories of events

A system whose events can or cannot happen in a state: its step function is
partial.  What holds after a history of events is shown one event at a time, from
the state and the history before it.

**Results.**
* `history_induction`: what the first events establish and each further event keeps.
-/

namespace Systems

universe u v

variable {σ : Type u} {ε : Type v} {step : σ → ε → Option σ}

/-- The state after some events, if each of them can happen in its turn. -/
def after (step : σ → ε → Option σ) (s : σ) (events : List ε) : Option σ :=
  events.foldlM step s

theorem after_append
    {s : σ}
    {events later : List ε} :
    after step s (events ++ later) = (after step s events).bind fun t => after step t later :=
  List.foldlM_append

theorem after_append_singleton
    {s u : σ}
    {events : List ε}
    {e : ε} :
    after step s (events ++ [e]) = some u ↔
      ∃ t, after step s events = some t ∧ step t e = some u := by
  rw [after_append, Option.bind_eq_some_iff]
  refine exists_congr fun t => and_congr_right fun _ => ?_
  change (step t e).bind some = some u ↔ _
  rw [Option.bind_fun_some]

/-- What holds of the empty history, and of a history with one more event when it
holds of the history before it, holds of every history. -/
theorem history_induction
    {s : σ}
    {P : List ε → σ → Prop}
    (hnil : P [] s)
    (hsnoc : ∀ events t e u, after step s events = some t → P events t → step t e = some u →
      P (events ++ [e]) u)
    {events : List ε}
    {t : σ}
    (h : after step s events = some t) :
    P events t := by
  induction events using List.reverseRecOn generalizing t with
  | nil =>
      cases h
      exact hnil
  | append_singleton events e ih =>
      obtain ⟨u, hu, hstep⟩ := after_append_singleton.mp h
      exact hsnoc events u e t hu (ih hu) hstep

end Systems
