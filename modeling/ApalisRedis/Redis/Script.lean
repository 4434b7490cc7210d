import Mathlib.Logic.Relation

/-!
# Scripts whose writes survive an error

A Lua script that Redis evaluates is atomic, but it is not transactional: when
it raises an error, the writes made before the error stay.  This module is the
monad of such scripts over an arbitrary state type, with the equations that
execute a script symbolically and the rules that compose step relations.

**Results.**
* `run_bind_ok`, `run_bind_error`: one `redis.call` after another.
* `MovesBy.bind`, `MovesBy.foldlM`: a script moves along a step relation when
  each of its pieces does, whether or not a piece raises.
* `Alike.bind`, `Alike.foldlM`: a script behaves alike in two related states when
  each of its pieces does.
-/

namespace Redis

universe u v w

/-- A script over the state `σ`: a reply or an error, and the state it leaves. -/
def Script (σ : Type u) (α : Type v) : Type (max u v) :=
  σ → Except String α × σ

namespace Script

variable {σ : Type u} {α β : Type v}

/-- Evaluate a script in a state. -/
def run (x : Script σ α) (s : σ) : Except String α × σ :=
  x s

/-- `error(message)` of Lua: the state is left as it stands. -/
def raise (message : String) : Script σ α :=
  fun s => (.error message, s)

instance : Monad (Script σ) where
  pure a := fun s => (.ok a, s)
  bind x f := fun s =>
    match x.run s with
    | (.ok a, t) => (f a).run t
    | (.error e, t) => (.error e, t)

/-- Reply with `f s` and leave `g s`. -/
def command (f : σ → α) (g : σ → σ) : Script σ α :=
  fun s => (.ok (f s), g s)

/-- A step of the client that may fail, on no state. -/
def fallible (x : Except String α) : Script σ α :=
  fun s => (x, s)

/-- The client goes on with the error that a script raises. -/
def catching (x : Script σ α) : Script σ (Except String α) :=
  fun s => (.ok (x.run s).1, (x.run s).2)

@[simp] theorem run_pure (a : α) (s : σ) :
    (pure a : Script σ α).run s = (.ok a, s) := rfl

@[simp] theorem run_raise (message : String) (s : σ) :
    (raise message : Script σ α).run s = (.error message, s) := rfl

@[simp] theorem run_command (f : σ → α) (g : σ → σ) (s : σ) :
    (command f g).run s = (.ok (f s), g s) := rfl

@[simp] theorem run_fallible (x : Except String α) (s : σ) :
    (fallible x : Script σ α).run s = (x, s) := rfl

@[simp] theorem run_catching (x : Script σ α) (s : σ) :
    (catching x).run s = (.ok (x.run s).1, (x.run s).2) := rfl

theorem run_bind (x : Script σ α) (f : α → Script σ β) (s : σ) :
    (x >>= f).run s =
      match x.run s with
      | (.ok a, t) => (f a).run t
      | (.error e, t) => (.error e, t) := rfl

@[simp] theorem run_ite (c : Prop) [Decidable c] (x y : Script σ α) (s : σ) :
    (if c then x else y).run s = if c then x.run s else y.run s := by
  split <;> rfl

theorem run_bind_ok {x : Script σ α} {s t : σ} {a : α}
    (h : x.run s = (.ok a, t)) (f : α → Script σ β) :
    (x >>= f).run s = (f a).run t := by
  rw [run_bind, h]

theorem run_bind_error {x : Script σ α} {s t : σ} {e : String}
    (h : x.run s = (.error e, t)) (f : α → Script σ β) :
    (x >>= f).run s = (.error e, t) := by
  rw [run_bind, h]

/-- A sequence succeeds when its parts do, one after the other. -/
theorem run_bind_eq_ok {x : Script σ α} {f : α → Script σ β} {s t : σ} {b : β} :
    (x >>= f).run s = (.ok b, t) ↔ ∃ a u, x.run s = (.ok a, u) ∧ (f a).run u = (.ok b, t) := by
  rw [run_bind]
  rcases x.run s with ⟨e | a, u⟩
  · simp
  · constructor
    · exact fun h => ⟨a, u, rfl, h⟩
    · rintro ⟨a', u', heq, h⟩
      cases heq
      exact h

/-- What the first part keeps and the second part keeps after it, the sequence keeps. -/
theorem run_bind_keeps {I : σ → Prop} {x : Script σ α} {f : α → Script σ β} {s : σ}
    (hx : I (x.run s).2) (hf : ∀ a t, x.run s = (.ok a, t) → I ((f a).run t).2) :
    I ((x >>= f).run s).2 := by
  rw [run_bind]
  rcases h : x.run s with ⟨e | a, t⟩
  · rwa [h] at hx
  · exact hf a t h

@[simp] theorem run_command_bind (f : σ → α) (g : σ → σ) (k : α → Script σ β) (s : σ) :
    (command f g >>= k).run s = (k (f s)).run (g s) := rfl

@[simp] theorem run_pure_bind (a : α) (k : α → Script σ β) (s : σ) :
    ((pure a : Script σ α) >>= k).run s = (k a).run s := rfl

@[simp] theorem run_raise_bind (message : String) (k : α → Script σ β) (s : σ) :
    ((raise message : Script σ α) >>= k).run s = (.error message, s) := rfl

theorem run_map (f : α → β) (x : Script σ α) (s : σ) :
    (f <$> x).run s =
      match x.run s with
      | (.ok a, t) => (.ok (f a), t)
      | (.error e, t) => (.error e, t) := rfl

theorem run_map_snd (f : α → β) (x : Script σ α) (s : σ) :
    ((f <$> x).run s).2 = (x.run s).2 := by
  rw [run_map]
  rcases x.run s with ⟨_ | a, t⟩ <;> rfl

theorem run_map_ok {x : Script σ α} {s t : σ} {a : α}
    (h : x.run s = (.ok a, t)) (f : α → β) :
    (f <$> x).run s = (.ok (f a), t) := by
  rw [run_map, h]

@[simp] theorem run_command_map (k : α → β) (f : σ → α) (g : σ → σ) (s : σ) :
    (k <$> command f g).run s = (.ok (k (f s)), g s) := rfl

@[simp] theorem run_ite_bind (c : Prop) [Decidable c] (x y : Script σ α)
    (k : α → Script σ β) (s : σ) :
    ((if c then x else y) >>= k).run s =
      if c then (x >>= k).run s else (y >>= k).run s := by
  split <;> rfl

/-- A loop whose body always succeeds is a fold over the states. -/
theorem run_foldlM_unit {γ : Type w} {f : γ → Script σ PUnit} {g : σ → γ → σ}
    (hf : ∀ x s, (f x).run s = (.ok ⟨⟩, g s x)) (xs : List γ) (s : σ) :
    (xs.foldlM (fun _ x => f x) ⟨⟩).run s = (.ok ⟨⟩, xs.foldl g s) := by
  induction xs generalizing s with
  | nil => rfl
  | cons x xs ih =>
      rw [List.foldlM_cons, run_bind_ok (hf x s), ih]
      rfl

theorem bind_assoc'
    {γ : Type v}
    (x : Script σ α)
    (f : α → Script σ β)
    (g : β → Script σ γ) :
    x >>= f >>= g = x >>= fun a => f a >>= g := by
  funext s
  change ((x >>= f) >>= g).run s = (x >>= fun a => f a >>= g).run s
  rw [run_bind, run_bind, run_bind]
  rcases x.run s with ⟨_ | a, t⟩
  · rfl
  · exact (run_bind (f a) g t).symm

theorem id_map'
    (x : Script σ α) :
    id <$> x = x := by
  funext s
  change (match x.run s with
    | (.ok a, t) => (.ok a, t)
    | (.error e, t) => (.error e, t)) = x.run s
  rcases x.run s with ⟨_ | a, t⟩ <;> rfl

instance : LawfulMonad (Script σ) :=
  .mk' _ id_map' (fun _ _ => rfl) bind_assoc'

/-- A traversal that succeeds without writing collects replies of its body. -/
theorem mapM_replies {γ : Type w} {f : γ → Script σ β} {P : β → Prop} {s : σ}
    (hf : ∀ x b t, (f x).run s = (.ok b, t) → t = s ∧ P b) :
    ∀ {xs : List γ} {bs : List β} {t : σ}, (xs.mapM f).run s = (.ok bs, t) →
      t = s ∧ ∀ b ∈ bs, P b
  | [], bs, t, h => by
      cases h
      exact ⟨rfl, by simp⟩
  | x :: xs, bs, t, h => by
      rw [List.mapM_cons, run_bind_eq_ok] at h
      obtain ⟨b, u, hb, hrest⟩ := h
      obtain ⟨rfl, hP⟩ := hf x b u hb
      obtain ⟨bs', u', hbs, hcons⟩ := run_bind_eq_ok.mp hrest
      obtain ⟨rfl, hall⟩ := mapM_replies hf hbs
      cases hcons
      exact ⟨rfl, List.forall_mem_cons.mpr ⟨hP, hall⟩⟩

section Steps

variable {R : σ → σ → Prop}

/-- Started in `s`, the script ends in a state that is some steps away, also
when it ends by raising. -/
def MovesBy (R : σ → σ → Prop) (x : Script σ α) (s : σ) : Prop :=
  Relation.ReflTransGen R s (x.run s).2

theorem MovesBy.pure (a : α) (s : σ) : MovesBy R (Pure.pure a : Script σ α) s :=
  .refl

theorem MovesBy.raise (message : String) (s : σ) :
    MovesBy R (raise message : Script σ α) s :=
  .refl

theorem MovesBy.of_run {x : Script σ α} {s t : σ} {r : Except String α}
    (h : x.run s = (r, t)) (ht : Relation.ReflTransGen R s t) :
    MovesBy R x s := by
  unfold MovesBy
  rw [h]
  exact ht

theorem MovesBy.bind {x : Script σ α} {f : α → Script σ β} {s : σ}
    (hx : MovesBy R x s)
    (hf : ∀ a t, x.run s = (.ok a, t) → MovesBy R (f a) t) :
    MovesBy R (x >>= f) s := by
  unfold MovesBy at *
  rw [run_bind]
  rcases h : x.run s with ⟨e | a, t⟩
  · rw [h] at hx
    exact hx
  · rw [h] at hx
    exact hx.trans (hf a t h)

theorem MovesBy.map {x : Script σ α} {f : α → β} {s : σ} (hx : MovesBy R x s) :
    MovesBy R (f <$> x) s := by
  unfold MovesBy at *
  rw [run_map]
  rcases h : x.run s with ⟨e | a, t⟩ <;> rw [h] at hx <;> exact hx

theorem MovesBy.raise_bind (message : String) (k : α → Script σ β) (s : σ) :
    MovesBy R ((Script.raise message : Script σ α) >>= k) s :=
  .refl

/-- A command that only reads. -/
theorem MovesBy.query_bind {f : σ → α} {k : α → Script σ β} {s : σ}
    (hk : MovesBy R (k (f s)) s) : MovesBy R (command f id >>= k) s :=
  hk

/-- The rule for a Lua `for` loop with an accumulator: an invariant `I` that the
body keeps, also when it raises, makes the whole loop move along `R`. -/
theorem MovesBy.foldlM {γ : Type w} {I : σ → Prop} {f : β → γ → Script σ β} :
    ∀ (xs : List γ),
      (∀ x ∈ xs, ∀ b s, I s →
        MovesBy R (f b x) s ∧ I ((f b x).run s).2) →
      ∀ (b : β) (s : σ), I s →
        MovesBy R (xs.foldlM f b) s ∧ I ((xs.foldlM f b).run s).2
  | [], _, b, s, hs => ⟨.refl, hs⟩
  | x :: xs, body, b, s, hs => by
      obtain ⟨hstep, hinv⟩ := body x (by simp) b s hs
      have ih := MovesBy.foldlM xs fun y hy => body y (List.mem_cons_of_mem _ hy)
      rw [List.foldlM_cons]
      rcases h : (f b x).run s with ⟨e | b', t⟩
      · rw [h] at hinv
        refine ⟨hstep.bind fun a t' ht => ?_, ?_⟩
        · rw [h] at ht
          cases ht
        · rw [run_bind_error h]
          exact hinv
      · rw [h] at hinv
        refine ⟨hstep.bind fun a t' ht => ?_, ?_⟩
        · rw [h] at ht
          cases ht
          exact (ih b' t hinv).1
        · rw [run_bind_ok h]
          exact (ih b' t hinv).2

/-- The same rule when only the invariant matters. -/
theorem foldlM_keeps {γ : Type w} {I : σ → Prop} {f : β → γ → Script σ β} (xs : List γ)
    (body : ∀ x ∈ xs, ∀ b s, I s → I ((f b x).run s).2) (b : β) (s : σ) (hs : I s) :
    I ((xs.foldlM f b).run s).2 := by
  have hloop := MovesBy.foldlM (R := fun _ _ => True) xs
    fun x hx b s hs => ⟨.single trivial, body x hx b s hs⟩
  exact (hloop b s hs).2

end Steps

section Alike

variable {R : σ → σ → Prop}

/-- The script replies the same in both states, and `R` relates what it leaves. -/
def Alike (R : σ → σ → Prop) (x : Script σ α) (s t : σ) : Prop :=
  (x.run s).1 = (x.run t).1 ∧ R (x.run s).2 (x.run t).2

theorem Alike.of_run {x : Script σ α} {s t s' t' : σ} {r : Except String α}
    (hs : x.run s = (r, s')) (ht : x.run t = (r, t')) (h : R s' t') :
    Alike R x s t := by
  unfold Alike
  rw [hs, ht]
  exact ⟨rfl, h⟩

theorem Alike.pure (a : α) {s t : σ} (h : R s t) :
    Alike R (Pure.pure a : Script σ α) s t :=
  ⟨rfl, h⟩

theorem Alike.raise (message : String) {s t : σ} (h : R s t) :
    Alike R (Script.raise message : Script σ α) s t :=
  ⟨rfl, h⟩

theorem Alike.raise_bind (message : String) (k : α → Script σ β) {s t : σ} (h : R s t) :
    Alike R ((Script.raise message : Script σ α) >>= k) s t :=
  ⟨rfl, h⟩

/-- A weaker relation `R` may hold where the first part ends the script by raising. -/
theorem Alike.bind_into {I : σ → σ → Prop} {x : Script σ α} {f : α → Script σ β} {s t : σ}
    (hx : Alike I x s t)
    (hweak : ∀ s' t', I s' t' → R s' t')
    (hf : ∀ a s' t', I s' t' → Alike R (f a) s' t') :
    Alike R (x >>= f) s t := by
  obtain ⟨hreply, hleft⟩ := hx
  rcases hs : x.run s with ⟨rs, s'⟩
  rcases ht : x.run t with ⟨rt, t'⟩
  rw [hs, ht] at hreply hleft
  obtain rfl : rs = rt := hreply
  cases rs with
  | error e => exact .of_run (run_bind_error hs f) (run_bind_error ht f) (hweak s' t' hleft)
  | ok a =>
      unfold Alike
      rw [run_bind_ok hs, run_bind_ok ht]
      exact hf a s' t' hleft

theorem Alike.bind {x : Script σ α} {f : α → Script σ β} {s t : σ} (hx : Alike R x s t)
    (hf : ∀ a s' t', R s' t' → Alike R (f a) s' t') :
    Alike R (x >>= f) s t :=
  hx.bind_into (fun _ _ h => h) hf

theorem Alike.map {x : Script σ α} {f : α → β} {s t : σ} (hx : Alike R x s t) :
    Alike R (f <$> x) s t := by
  obtain ⟨hreply, hleft⟩ := hx
  rw [← run_map_snd f, ← run_map_snd f x t] at hleft
  refine ⟨?_, hleft⟩
  rw [run_map, run_map]
  rcases hs : x.run s with ⟨rs, s'⟩
  rcases ht : x.run t with ⟨rt, t'⟩
  rw [hs, ht] at hreply
  obtain rfl : rs = rt := hreply
  cases rs <;> rfl

/-- The rule for a loop: `I rest` relates the states before the rest of the
elements, and `R` is what it leaves when the loop ends or raises. -/
theorem Alike.foldlM_into {γ : Type w} {I : List γ → σ → σ → Prop} {f : β → γ → Script σ β}
    (hweak : ∀ xs s t, I xs s t → R s t)
    (body : ∀ x xs b s t, I (x :: xs) s t → Alike (I xs) (f b x) s t) :
    ∀ (xs : List γ) (b : β) (s t : σ), I xs s t → Alike R (xs.foldlM f b) s t
  | [], b, s, t, h => .pure b (hweak [] s t h)
  | x :: xs, b, s, t, h => by
      rw [List.foldlM_cons]
      exact (body x xs b s t h).bind_into (hweak xs) fun b' s' t' h' =>
        Alike.foldlM_into hweak body xs b' s' t' h'

/-- The rule for a loop whose body behaves alike in all related states. -/
theorem Alike.foldlM {γ : Type w} {f : β → γ → Script σ β}
    (body : ∀ x b s t, R s t → Alike R (f b x) s t) (xs : List γ) (b : β) {s t : σ} (h : R s t) :
    Alike R (xs.foldlM f b) s t :=
  .foldlM_into (I := fun _ => R) (fun _ _ _ h => h) (fun x _ b s t => body x b s t) xs b s t h

end Alike

end Script
end Redis
