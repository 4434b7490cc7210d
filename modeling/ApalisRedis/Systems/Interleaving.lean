import ApalisRedis.Systems.Simulation

/-!
# Interleaved programs

A program performs instructions on a shared state, one at a time, and goes on
with their replies.  An instruction is atomic, and between two instructions of a
program anything can happen that the others are relied on to do.

In a pool any number of programs run at once.  A program can be started at any
time, and dropped before any of its instructions.

**Results.**
* `Meets.bind`, `Meets.later`, `Meets.within`: the rules for programs under interference.
* `Meets.alone`: a program that nobody interferes with.
* `Pool.Step.meets`, `Pool.meets_of_reaches`: programs that meet their
  specifications under the interference of programs that do so meet them together.
* `Pool.Watch.step`, `Pool.Watch.meets`: one program of a pool.
* `Pool.watch_alone`, `Pool.reaches_alone`: a program alone is one of the interleavings.
* `Pool.Watch.done_of_idle`: a program that only the environment interferes with.
-/

namespace Systems

universe u v w

/-- A program whose instructions `i` are answered by replies in `ρ i`. -/
inductive Program (ι : Type u) (ρ : ι → Type v) (α : Type v) where
  | done (result : α)
  | perform (i : ι) (next : ρ i → Program ι ρ α)

namespace Program

variable {ι : Type u} {ρ : ι → Type v} {α β : Type v}

protected def bind : Program ι ρ α → (α → Program ι ρ β) → Program ι ρ β
  | .done a, f => f a
  | .perform i next, f => .perform i fun r => (next r).bind f

instance : Monad (Program ι ρ) where
  pure := .done
  bind := Program.bind

protected theorem bind_done
    (x : Program ι ρ α) :
    x.bind .done = x := by
  induction x with
  | done a => rfl
  | perform i next ih => exact congrArg (perform i) (funext ih)

protected theorem bind_assoc
    {γ : Type v}
    (x : Program ι ρ α)
    (f : α → Program ι ρ β)
    (g : β → Program ι ρ γ) :
    (x.bind f).bind g = x.bind fun a => (f a).bind g := by
  induction x with
  | done a => rfl
  | perform i next ih => exact congrArg (perform i) (funext ih)

instance : LawfulMonad (Program ι ρ) :=
  .mk' _ Program.bind_done (fun _ _ => rfl) Program.bind_assoc

/-- The program that performs one instruction and returns the reply. -/
def request (i : ι) : Program ι ρ (ρ i) :=
  .perform i .done

section Alone

variable {σ : Type w} (answer : (i : ι) → σ → ρ i × σ)

/-- What a program returns and leaves when its instructions are answered in
turn and nothing happens in between. -/
def alone : Program ι ρ α → σ → α × σ
  | .done a, s => (a, s)
  | .perform i next, s => (next (answer i s).1).alone (answer i s).2

@[simp] theorem alone_pure
    (a : α)
    (s : σ) :
    (pure a : Program ι ρ α).alone answer s = (a, s) := rfl

@[simp] theorem alone_request
    (i : ι)
    (s : σ) :
    (request i : Program ι ρ (ρ i)).alone answer s = answer i s := rfl

theorem alone_bind
    (x : Program ι ρ α)
    (f : α → Program ι ρ β)
    (s : σ) :
    (x >>= f).alone answer s = (f (x.alone answer s).1).alone answer (x.alone answer s).2 := by
  induction x generalizing s with
  | done a => rfl
  | perform i next ih => exact ih (answer i s).1 (answer i s).2

end Alone

section Meets

variable {σ : Type w} (acts : (i : ι) → σ → ρ i → σ → Prop)
variable (R : σ → σ → Prop)

/-- Whatever the others do within `R`, the program performs only instructions
that `P` admits in the state at hand, and what it returns satisfies `Q`. -/
def Meets (P : ι → σ → Prop) (Q : α → σ → Prop) : Program ι ρ α → σ → Prop
  | .done a, s => ∀ t, R s t → Q a t
  | .perform i next, s =>
      ∀ t, R s t → P i t ∧ ∀ r u, acts i t r u → Meets P Q (next r) u

variable {acts R} {P P' : ι → σ → Prop} {s t : σ}

theorem meets_request
    {i : ι}
    {Q : ρ i → σ → Prop}
    (hP : ∀ t, R s t → P i t)
    (hQ : ∀ t r u u', R s t → acts i t r u → R u u' → Q r u') :
    (request i : Program ι ρ (ρ i)).Meets acts R P Q s :=
  fun t ht => ⟨hP t ht, fun r u hu u' hu' => hQ t r u u' ht hu hu'⟩

/-- One program after another. -/
theorem Meets.bind
    (hrefl : ∀ s, R s s)
    {Q : α → σ → Prop}
    {Q' : β → σ → Prop}
    {x : Program ι ρ α}
    {f : α → Program ι ρ β}
    (hx : x.Meets acts R P Q s)
    (hf : ∀ a t, Q a t → (f a).Meets acts R P Q' t) :
    (x >>= f).Meets acts R P Q' s := by
  induction x generalizing s with
  | done a => exact hf a s (hx s (hrefl s))
  | perform i next ih =>
      intro t ht
      obtain ⟨hP, hnext⟩ := hx t ht
      exact ⟨hP, fun r u hu => ih r (hnext r u hu)⟩

theorem Meets.imp
    {Q Q' : α → σ → Prop}
    {x : Program ι ρ α}
    (hQ : ∀ a s, Q a s → Q' a s)
    (hx : x.Meets acts R P Q s) :
    x.Meets acts R P Q' s := by
  induction x generalizing s with
  | done a => exact fun t ht => hQ a t (hx t ht)
  | perform i next ih =>
      intro t ht
      obtain ⟨hadmitted, hnext⟩ := hx t ht
      exact ⟨hadmitted, fun r u hu => ih r (hnext r u hu)⟩

/-- What the others do before its first instruction is interference as well. -/
theorem Meets.later
    (htrans : ∀ s t u, R s t → R t u → R s u)
    {Q : α → σ → Prop}
    {x : Program ι ρ α}
    (hst : R s t)
    (hx : x.Meets acts R P Q s) :
    x.Meets acts R P Q t := by
  cases x with
  | done a => exact fun u hu => hx u (htrans s t u hst hu)
  | perform i next => exact fun u hu => hx u (htrans s t u hst hu)

/-- When its instructions are interference as well, so is all that it does. -/
theorem Meets.within
    (htrans : ∀ s t u, R s t → R t u → R s u)
    (hacts : ∀ i s r t, acts i s r t → P i s → R s t)
    {Q : α → σ → Prop}
    {x : Program ι ρ α}
    {s₀ : σ}
    (h₀ : R s₀ s)
    (hx : x.Meets acts R P Q s) :
    x.Meets acts R P (fun a t => Q a t ∧ R s₀ t) s := by
  induction x generalizing s with
  | done a => exact fun t ht => ⟨hx t ht, htrans s₀ s t h₀ ht⟩
  | perform i next ih =>
      intro t ht
      obtain ⟨hadmitted, hnext⟩ := hx t ht
      refine ⟨hadmitted, fun r u hu => ih r ?_ (hnext r u hu)⟩
      exact htrans s₀ t u (htrans s₀ s t h₀ ht) (hacts i t r u hu hadmitted)

/-- A program that nobody interferes with meets its specification. -/
theorem Meets.alone
    (hrefl : ∀ s, R s s)
    {answer : (i : ι) → σ → ρ i × σ}
    (hanswer : ∀ i s, acts i s (answer i s).1 (answer i s).2)
    {Q : α → σ → Prop}
    {x : Program ι ρ α}
    (hx : x.Meets acts R P Q s) :
    Q (x.alone answer s).1 (x.alone answer s).2 := by
  induction x generalizing s with
  | done a => exact hx s (hrefl s)
  | perform i next ih => exact ih _ ((hx s (hrefl s)).2 _ _ (hanswer i s))

end Meets

end Program

/-- A state, and the programs that run on it. -/
structure Pool (σ : Type w) (ι : Type u) (ρ : ι → Type v) (α : Type v) where
  state : σ
  running : List (Program ι ρ α)

namespace Pool

variable {σ : Type w} {ι : Type u} {ρ : ι → Type v} {α : Type v}
variable (acts : (i : ι) → σ → ρ i → σ → Prop) (env : σ → σ → Prop)
variable (starts : Program ι ρ α → Prop)

/-- One step of a pool, with the instruction that it performs. -/
inductive Step : Option ι → Pool σ ι ρ α → Pool σ ι ρ α → Prop
  | start {s : σ} (ps : List (Program ι ρ α)) {qs : List (Program ι ρ α)} {p : Program ι ρ α}
      (hp : starts p) :
      Step none ⟨s, ps ++ qs⟩ ⟨s, ps ++ p :: qs⟩
  | perform {s t : σ} (ps : List (Program ι ρ α)) {qs : List (Program ι ρ α)} {i : ι}
      {next : ρ i → Program ι ρ α} {r : ρ i} (hacts : acts i s r t) :
      Step (some i) ⟨s, ps ++ .perform i next :: qs⟩ ⟨t, ps ++ next r :: qs⟩
  | drop {s : σ} (ps : List (Program ι ρ α)) {qs : List (Program ι ρ α)} {p : Program ι ρ α} :
      Step none ⟨s, ps ++ p :: qs⟩ ⟨s, ps ++ qs⟩
  | elapse {s t : σ} {ps : List (Program ι ρ α)} (henv : env s t) : Step none ⟨s, ps⟩ ⟨t, ps⟩

/-- Any number of steps. -/
abbrev Reaches : Pool σ ι ρ α → Pool σ ι ρ α → Prop :=
  Relation.ReflTransGen fun c c' => ∃ l, Step acts env starts l c c'

variable {acts env starts}
variable {R : σ → σ → Prop} {P : ι → σ → Prop} {Q : α → σ → Prop}

/-- The programs of the pool meet the specification from now on. -/
def AllMeet (acts : (i : ι) → σ → ρ i → σ → Prop) (R : σ → σ → Prop) (P : ι → σ → Prop)
    (Q : α → σ → Prop) (c : Pool σ ι ρ α) : Prop :=
  ∀ p ∈ c.running, p.Meets acts R P Q c.state

/-- **A step of programs that meet a specification performs an admitted
instruction, and they still meet it afterwards.** -/
theorem Step.meets
    (hrefl : ∀ s, R s s)
    (htrans : ∀ s t u, R s t → R t u → R s u)
    (hacts : ∀ i s r t, acts i s r t → P i s → R s t)
    (henv : ∀ s t, env s t → R s t)
    {l : Option ι}
    {c c' : Pool σ ι ρ α}
    (hstep : Step acts env starts l c c')
    (hstarts : ∀ p, starts p → p.Meets acts R P Q c.state)
    (hmeet : c.AllMeet acts R P Q) :
    R c.state c'.state ∧ (∀ i, l = some i → P i c.state) ∧ c'.AllMeet acts R P Q := by
  cases hstep with
  | @start s ps qs q hq =>
      refine ⟨hrefl _, by simp, fun p hmem => ?_⟩
      rcases List.mem_append.mp hmem with hps | hrest
      · exact hmeet p (List.mem_append_left _ hps)
      · rcases List.mem_cons.mp hrest with rfl | hqs
        · exact hstarts p hq
        · exact hmeet p (List.mem_append_right _ hqs)
  | @perform s t ps qs i next r hr =>
      obtain ⟨hadmitted, hnext⟩ := hmeet (.perform i next) (by simp) s (hrefl s)
      have hst : R s t := hacts i s r t hr hadmitted
      refine ⟨hst, fun j hj => ?_, fun p hmem => ?_⟩
      · cases hj
        exact hadmitted
      · -- The others see the instruction as interference.
        have hothers : ∀ q, q ∈ ps ∨ q ∈ qs → q.Meets acts R P Q t := by
          intro q hq
          have hrunning : q ∈ ps ++ .perform i next :: qs :=
            List.mem_append.mpr (hq.imp_right (List.mem_cons_of_mem _))
          have hbefore : q.Meets acts R P Q s := hmeet q hrunning
          exact hbefore.later htrans hst
        rcases List.mem_append.mp hmem with hps | hrest
        · exact hothers p (.inl hps)
        · rcases List.mem_cons.mp hrest with rfl | hqs
          · exact hnext r t hr
          · exact hothers p (.inr hqs)
  | @drop s ps qs q =>
      refine ⟨hrefl _, by simp, fun p hmem => hmeet p ?_⟩
      change p ∈ ps ++ q :: qs
      rcases List.mem_append.mp hmem with hps | hqs
      · exact List.mem_append_left _ hps
      · exact List.mem_append_right _ (List.mem_cons_of_mem _ hqs)
  | elapse helapses =>
      have hst := henv _ _ helapses
      exact ⟨hst, by simp, fun p hmem => (hmeet p hmem).later htrans hst⟩

/-- **So they do however far the pool gets.** -/
theorem meets_of_reaches
    (hrefl : ∀ s, R s s)
    (htrans : ∀ s t u, R s t → R t u → R s u)
    (hacts : ∀ i s r t, acts i s r t → P i s → R s t)
    (henv : ∀ s t, env s t → R s t)
    {c c' : Pool σ ι ρ α}
    (hstarts : ∀ p s, starts p → R c.state s → p.Meets acts R P Q s)
    (hmeet : c.AllMeet acts R P Q)
    (hreaches : Reaches acts env starts c c') :
    R c.state c'.state ∧ c'.AllMeet acts R P Q := by
  refine preserved (I := fun c' => R c.state c'.state ∧ c'.AllMeet acts R P Q)
    (fun d d' ⟨l, hstep⟩ ⟨hfrom, hd⟩ => ?_) hreaches ⟨hrefl c.state, hmeet⟩
  obtain ⟨hlast, -, hd'⟩ := hstep.meets hrefl htrans hacts henv
    (fun p hp => hstarts p d.state hp hfrom) hd
  exact ⟨htrans _ _ _ hfrom hlast, hd'⟩

variable {β : Type v}

/-- A step of a program, or a step of the others whose instruction `S` allows. -/
inductive Watch (acts : (i : ι) → σ → ρ i → σ → Prop) (env : σ → σ → Prop)
    (starts : Program ι ρ α → Prop) (S : ι → Prop) :
    Program ι ρ β × Pool σ ι ρ α → Program ι ρ β × Pool σ ι ρ α → Prop
  | own {s t : σ} {ps : List (Program ι ρ α)} {i : ι} {next : ρ i → Program ι ρ β} {r : ρ i}
      (hacts : acts i s r t) : Watch acts env starts S (.perform i next, ⟨s, ps⟩) (next r, ⟨t, ps⟩)
  | others {p : Program ι ρ β} {c c' : Pool σ ι ρ α} {l : Option ι}
      (hstep : Step acts env starts l c c') (hallowed : ∀ i ∈ l, S i) :
      Watch acts env starts S (p, c) (p, c')

/-- The program, of whose result the pool keeps `f`, and the others. -/
def whole (f : β → α) (x : Program ι ρ β × Pool σ ι ρ α) : Pool σ ι ρ α :=
  ⟨x.2.state, (f <$> x.1) :: x.2.running⟩

/-- A program that is watched runs in the pool. -/
theorem Watch.step
    {S : ι → Prop}
    {x y : Program ι ρ β × Pool σ ι ρ α}
    (h : Watch acts env starts S x y)
    (f : β → α) :
    ∃ l, Step acts env starts l (whole f x) (whole f y) := by
  cases h with
  | @own s t ps i next r hr => exact ⟨some i, .perform [] hr⟩
  | @others p c c' l hstep hallowed =>
      refine ⟨l, ?_⟩
      cases hstep with
      | @start s ps qs q hq => exact .start ((f <$> p) :: ps) hq
      | @perform s t ps qs i next r hr => exact .perform ((f <$> p) :: ps) hr
      | @drop s ps qs q => exact .drop ((f <$> p) :: ps)
      | elapse helapses => exact .elapse helapses

/-- **It meets its specification as long as the others keep to the interference.** -/
theorem Watch.meets
    (htrans : ∀ s t u, R s t → R t u → R s u)
    (hrefl : ∀ s, R s s)
    {Q : β → σ → Prop}
    {S : ι → Prop}
    {x y : Program ι ρ β × Pool σ ι ρ α}
    (h : Watch acts env starts S x y)
    (hothers : ∀ l, Step acts env starts l x.2 y.2 → (∀ i ∈ l, S i) → R x.2.state y.2.state)
    (hmeets : x.1.Meets acts R P Q x.2.state) :
    y.1.Meets acts R P Q y.2.state := by
  cases h with
  | @own s t ps i next r hr => exact (hmeets s (hrefl s)).2 r t hr
  | @others p c c' l hstep hallowed => exact hmeets.later htrans (hothers l hstep hallowed)

/-- It can run to its end before anything else happens. -/
theorem watch_alone
    {answer : (i : ι) → σ → ρ i × σ}
    (hanswer : ∀ i s, acts i s (answer i s).1 (answer i s).2)
    (S : ι → Prop)
    (p : Program ι ρ β)
    (ps : List (Program ι ρ α))
    (s : σ) :
    Relation.ReflTransGen (Watch acts env starts S) (p, ⟨s, ps⟩)
      (.done (p.alone answer s).1, ⟨(p.alone answer s).2, ps⟩) := by
  induction p generalizing s with
  | done a => exact .refl
  | perform i next ih =>
      have hfirst : Watch acts env starts S (.perform i next, ⟨s, ps⟩)
          (next (answer i s).1, ⟨(answer i s).2, ps⟩) := .own (hanswer i s)
      exact (Relation.ReflTransGen.single hfirst).trans (ih _ _)

/-- And then it can be gone. -/
theorem reaches_alone
    {answer : (i : ι) → σ → ρ i × σ}
    (hanswer : ∀ i s, acts i s (answer i s).1 (answer i s).2)
    (p : Program ι ρ α)
    (ps : List (Program ι ρ α))
    (s : σ) :
    Reaches acts env starts ⟨s, p :: ps⟩ ⟨(p.alone answer s).2, ps⟩ := by
  have hruns : Reaches acts env starts (whole id (p, ⟨s, ps⟩))
      ⟨(p.alone answer s).2, .done (p.alone answer s).1 :: ps⟩ :=
    (watch_alone hanswer (fun _ => True) p ps s).lift (whole id) fun _ _ hwatch => hwatch.step id
  rw [whole, id_map] at hruns
  exact hruns.tail ⟨none, .drop []⟩

/-- In a pool that is idle and in which nothing is started, only time passes. -/
theorem Step.of_idle
    {l : Option ι}
    {c c' : Pool σ ι ρ α}
    (hstep : Step acts env (fun _ => False) l c c')
    (hidle : c.running = []) :
    env c.state c'.state ∧ c'.running = [] := by
  cases hstep with
  | start ps hp => exact hp.elim
  | perform ps hacts => simp at hidle
  | drop ps => simp at hidle
  | elapse henv => exact ⟨henv, hidle⟩

/-- **A program that only the environment interferes with.** -/
theorem Watch.done_of_idle
    (hrefl : ∀ s, R s s)
    (htrans : ∀ s t u, R s t → R t u → R s u)
    (henv : ∀ s t, env s t → R s t)
    {Q : β → σ → Prop}
    {S : ι → Prop}
    {p : Program ι ρ β}
    {s : σ}
    {b : β}
    {c : Pool σ ι ρ α}
    (hmeets : p.Meets acts R P Q s)
    (hruns : Relation.ReflTransGen (Watch acts env (fun _ => False) S) (p, ⟨s, []⟩) (.done b, c)) :
    Q b c.state := by
  have hlast := preserved
    (I := fun x : Program ι ρ β × Pool σ ι ρ α =>
      x.2.running = [] ∧ x.1.Meets acts R P Q x.2.state)
    (fun x y hwatch ⟨hidle, hx⟩ => ?_) hruns ⟨rfl, hmeets⟩
  · exact hlast.2 c.state (hrefl c.state)
  · refine ⟨?_, hwatch.meets htrans hrefl
      (fun l hstep _ => henv _ _ (hstep.of_idle hidle).1) hx⟩
    cases hwatch with
    | own hacts => exact hidle
    | others hstep hallowed => exact (hstep.of_idle hidle).2

end Pool

end Systems
