import Mathlib.Algebra.BigOperators.Group.List.Basic
import Mathlib.Algebra.Order.Ring.Int
import Mathlib.Data.List.Basic

/-!
# Metered computations

A metered computation announces what it spends, in order, before it gives its outcome.  Against a
meter it stops at the first spending the meter refuses, and otherwise gives its outcome
(`Metered.run`).  Running is a morphism of monads (`run_bind`), so a program written in this monad
is the program that spends from the meter as it goes.  What a computation spends does not depend on
the meter, which is what makes its cost a property of the computation.
-/

/-- A computation with what it spends before its outcome is known. -/
@[ext] structure Metered (ω : Type) (ε : Type) (α : Type) where
  spent : List ω
  outcome : Except ε α

namespace Metered

variable {ω ε α β σ : Type}

/-- The outcome of a computation that spends nothing. -/
def lift (x : Except ε α) : Metered ω ε α where
  spent := []
  outcome := x

/-- Spend once. -/
def spend (w : ω) : Metered ω ε Unit where
  spent := [w]
  outcome := .ok ()

protected def pure (a : α) : Metered ω ε α := lift (.ok a)

protected def bind (m : Metered ω ε α) (f : α → Metered ω ε β) : Metered ω ε β :=
  match m.outcome with
  | .error e => { spent := m.spent, outcome := .error e }
  | .ok a => { spent := m.spent ++ (f a).spent, outcome := (f a).outcome }

instance : Monad (Metered ω ε) where
  pure := Metered.pure
  bind := Metered.bind

instance : MonadLift (Except ε) (Metered ω ε) where
  monadLift := lift

/-! ### What is spent, and what comes of it -/

@[simp] theorem ok_bind (spent : List ω) (a : α) (f : α → Metered ω ε β) :
    ((⟨spent, .ok a⟩ : Metered ω ε α) >>= f) = ⟨spent ++ (f a).spent, (f a).outcome⟩ := rfl

@[simp] theorem error_bind (spent : List ω) (e : ε) (f : α → Metered ω ε β) :
    ((⟨spent, .error e⟩ : Metered ω ε α) >>= f) = ⟨spent, .error e⟩ := rfl

/-- A computation that spends nothing and succeeds only passes its value on. -/
@[simp] theorem lift_ok_bind (a : α) (f : α → Metered ω ε β) :
    ((lift (.ok a) : Metered ω ε α) >>= f) = f a := rfl

instance : LawfulMonad (Metered ω ε) := LawfulMonad.mk' _
  (fun ⟨spent, outcome⟩ ↦ by
    cases outcome with
    | error e => rfl
    | ok a => exact Metered.ext (List.append_nil spent) rfl)
  (fun a f ↦ rfl)
  (fun ⟨spent, outcome⟩ f g ↦ by
    cases outcome with
    | error e => rfl
    | ok a =>
      rcases hf : f a with ⟨rest, e | b⟩
      · simp [hf]
      · simp [hf, List.append_assoc])

/-- **A computation succeeds when each of its steps does**, and it spends what they spend. -/
theorem bind_eq_ok {m : Metered ω ε α} {f : α → Metered ω ε β} {spent : List ω} {b : β} :
    (m >>= f) = ⟨spent, .ok b⟩ ↔
      ∃ first a rest, m = ⟨first, .ok a⟩ ∧ f a = ⟨rest, .ok b⟩ ∧ spent = first ++ rest := by
  obtain ⟨first, outcome⟩ := m
  cases outcome with
  | error e =>
    simp only [error_bind, Metered.mk.injEq, reduceCtorEq, and_false, false_and, exists_false]
  | ok a =>
    rcases hf : f a with ⟨rest, outcome⟩
    simp only [ok_bind, hf, Metered.mk.injEq, Except.ok.injEq]
    constructor
    · rintro ⟨rfl, rfl⟩
      exact ⟨first, a, rest, ⟨rfl, rfl⟩, hf, rfl⟩
    · rintro ⟨_, _, rest', ⟨rfl, rfl⟩, hrest, rfl⟩
      rw [hf, Metered.mk.injEq] at hrest
      exact ⟨by rw [hrest.1], hrest.2⟩

/-- What follows a step that spends nothing matters only for the value it gives. -/
theorem lift_bind_congr {x : Except ε α} {f g : α → Metered ω ε β}
    (h : ∀ a, x = .ok a → f a = g a) :
    ((liftM x : Metered ω ε α) >>= f) = ((liftM x : Metered ω ε α) >>= g) := by
  cases x with
  | error e => rfl
  | ok a => exact h a rfl

/-- The outcome of a sequence is that of its steps. -/
theorem outcome_bind_eq_ok {m : Metered ω ε α} {f : α → Metered ω ε β} {b : β} :
    (m >>= f).outcome = .ok b ↔ ∃ a, m.outcome = .ok a ∧ (f a).outcome = .ok b := by
  obtain ⟨spent, outcome⟩ := m
  cases outcome with
  | error e => simp only [error_bind, reduceCtorEq, false_and, exists_false]
  | ok a => simp only [ok_bind, Except.ok.injEq, exists_eq_left']

/-! ### What a success costs -/

section Costs

variable {weight : ω → ℕ}

/-- A computation succeeds with a value, and what it spends on the way weighs `cost`. -/
structure Costs (weight : ω → ℕ) (m : Metered ω ε α) (cost : ℕ) (a : α) : Prop where
  outcome : m.outcome = .ok a
  weight_spent : (m.spent.map weight).sum = cost

theorem costs_pure (a : α) : Costs weight (pure a : Metered ω ε α) 0 a :=
  ⟨rfl, rfl⟩

theorem costs_lift {x : Except ε α} {a : α} (h : x = .ok a) :
    Costs weight (liftM x : Metered ω ε α) 0 a :=
  ⟨h, rfl⟩

theorem costs_spend (w : ω) : Costs weight (spend w : Metered ω ε Unit) (weight w) () :=
  ⟨rfl, Nat.add_zero _⟩

theorem Costs.congr {m : Metered ω ε α} {cost cost' : ℕ} {a : α} (h : Costs weight m cost a)
    (hcost : cost = cost') : Costs weight m cost' a :=
  hcost ▸ h

/-- **The cost of a sequence is the sum of the costs.** -/
theorem Costs.bind {m : Metered ω ε α} {f : α → Metered ω ε β} {first rest : ℕ} {a : α} {b : β}
    (hm : Costs weight m first a) (hf : Costs weight (f a) rest b) :
    Costs weight (m >>= f) (first + rest) b := by
  obtain ⟨spent, outcome⟩ := m
  obtain ⟨rfl, hfirst⟩ := hm
  rw [ok_bind]
  refine ⟨hf.outcome, ?_⟩
  rw [List.map_append, List.sum_append, hfirst, hf.weight_spent]

/-- A step that spends nothing adds nothing to the cost. -/
theorem Costs.lift_bind {x : Except ε α} {f : α → Metered ω ε β} {cost : ℕ} {a : α} {b : β}
    (hx : x = .ok a) (hf : Costs weight (f a) cost b) :
    Costs weight ((liftM x : Metered ω ε α) >>= f) cost b := by
  subst hx
  exact hf

/-- Returning a function of the value adds nothing to the cost. -/
theorem Costs.map {m : Metered ω ε α} {cost : ℕ} {a : α} (h : Costs weight m cost a)
    (f : α → β) : Costs weight (m >>= fun a ↦ pure (f a)) cost (f a) :=
  (h.bind (costs_pure (f a))).congr (Nat.add_zero cost)

/-- **The cost of a run of steps is the sum of their costs.** -/
theorem Costs.foldlM {step : σ → α → Metered ω ε σ} {next : σ → α → σ} {cost : α → ℕ}
    {xs : List α} (h : ∀ x ∈ xs, ∀ s, Costs weight (step s x) (cost x) (next s x)) (s : σ) :
    Costs weight (xs.foldlM step s) (xs.map cost).sum (xs.foldl next s) := by
  induction xs generalizing s with
  | nil => exact costs_pure s
  | cons x xs ih =>
    obtain ⟨hx, hxs⟩ := List.forall_mem_cons.mp h
    rw [List.foldlM_cons, List.map_cons, List.sum_cons]
    exact (hx s).bind (ih hxs _)

end Costs

/-! ### What a value is worth -/

section Affords

variable {weight : ω → ℕ} {paid : ℕ}

/-- The size of the value a computation gives is covered by what it spends and what has been paid
before it. -/
def Affords (weight : ω → ℕ) (paid : ℕ) (m : Metered ω ε α) (size : α → ℕ) : Prop :=
  ∀ a, m.outcome = .ok a → size a ≤ paid + (m.spent.map weight).sum

theorem affords_lift {x : Except ε α} {size : α → ℕ} (h : ∀ a, x = .ok a → size a ≤ paid) :
    Affords weight paid (liftM x : Metered ω ε α) size :=
  fun a ha ↦ h a ha

theorem affords_pure {a : α} {size : α → ℕ} (h : size a ≤ paid) :
    Affords weight paid (pure a : Metered ω ε α) size := by
  rintro _ ⟨⟩
  exact h

theorem affords_spend (w : ω) :
    Affords weight paid (spend w : Metered ω ε Unit) fun _ ↦ paid + weight w :=
  fun _ _ ↦ Nat.le_refl _

theorem Affords.mono {m : Metered ω ε α} {size size' : α → ℕ} (h : Affords weight paid m size)
    (hsize : ∀ a, m.outcome = .ok a → size' a ≤ size a) : Affords weight paid m size' :=
  fun a ha ↦ Nat.le_trans (hsize a ha) (h a ha)

/-- **What the first step has paid is there for the rest.** -/
theorem Affords.bind {m : Metered ω ε α} {f : α → Metered ω ε β} {first : α → ℕ} {size : β → ℕ}
    (hm : Affords weight paid m first)
    (hf : ∀ a, m.outcome = .ok a → Affords weight (first a) (f a) size) :
    Affords weight paid (m >>= f) size := by
  obtain ⟨spent, outcome⟩ := m
  cases outcome with
  | error e =>
    intro b hb
    cases hb
  | ok a =>
    intro b hb
    have hfirst := hm a rfl
    have hrest := hf a rfl b hb
    rw [ok_bind, List.map_append, List.sum_append]
    dsimp only at hfirst
    omega

/-- A step that spends nothing keeps what has been paid. -/
theorem Affords.lift_bind {x : Except ε α} {f : α → Metered ω ε β} {size : β → ℕ}
    (hf : ∀ a, x = .ok a → Affords weight paid (f a) size) :
    Affords weight paid ((liftM x : Metered ω ε α) >>= f) size :=
  Affords.bind (affords_lift fun _ _ ↦ Nat.le_refl paid) hf

/-- What has been paid stays paid over a step whose value is not counted. -/
theorem affords_paid (m : Metered ω ε α) : Affords weight paid m fun _ ↦ paid :=
  fun _ _ ↦ Nat.le_add_right _ _

/-- A loop affords what its state is worth if each turn does. -/
theorem Affords.foldlM {f : β → α → Metered ω ε β} {size : β → ℕ}
    (h : ∀ state a, Affords weight (size state) (f state a) size) (steps : List α) (start : β) :
    Affords weight (size start) (steps.foldlM f start) size := by
  induction steps generalizing start with
  | nil => exact affords_pure (Nat.le_refl _)
  | cons a steps ih =>
    rw [List.foldlM_cons]
    exact (h start a).bind fun next _ ↦ ih next

end Affords

/-! ### Running against a meter -/

/-- Spend from a meter, in order, until it refuses. -/
def spendAll (step : ω → σ → Except ε Unit × σ) : List ω → σ → Except ε Unit × σ
  | [], s => (.ok (), s)
  | w :: rest, s =>
    match step w s with
    | (.error e, s) => (.error e, s)
    | (.ok _, s) => spendAll step rest s

/-- Run against a meter. -/
def run (step : ω → σ → Except ε Unit × σ) (m : Metered ω ε α) (s : σ) : Except ε α × σ :=
  match spendAll step m.spent s with
  | (.error e, s) => (.error e, s)
  | (.ok _, s) => (m.outcome, s)

variable {step : ω → σ → Except ε Unit × σ}

theorem spendAll_append (first rest : List ω) (s : σ) :
    spendAll step (first ++ rest) s =
      match spendAll step first s with
      | (.error e, s) => (.error e, s)
      | (.ok _, s) => spendAll step rest s := by
  induction first generalizing s with
  | nil => rfl
  | cons w first ih =>
    rw [List.cons_append, spendAll, spendAll]
    rcases step w s with ⟨e | u, s'⟩
    · rfl
    · exact ih s'

theorem run_spend (w : ω) (s : σ) : run step (spend w) s = step w s := by
  rw [run, spend, spendAll]
  rcases step w s with ⟨e | u, s'⟩ <;> rfl

/-- **Running is a morphism of monads**: a program spends from the meter as it goes. -/
theorem run_bind (m : Metered ω ε α) (f : α → Metered ω ε β) (s : σ) :
    run step (m >>= f) s =
      match run step m s with
      | (.error e, s) => (.error e, s)
      | (.ok a, s) => run step (f a) s := by
  obtain ⟨spent, outcome⟩ := m
  cases outcome with
  | error e =>
    simp only [error_bind, run]
    rcases spendAll step spent s with ⟨e' | u, s'⟩ <;> rfl
  | ok a =>
    simp only [ok_bind, run, spendAll_append]
    rcases spendAll step spent s with ⟨e' | u, s'⟩ <;> rfl

/-- What every spending keeps of a meter, accepted or refused, a run keeps. -/
theorem inv_run {inv : σ → Prop} (hstep : ∀ w s, inv s → inv (step w s).2)
    (m : Metered ω ε α) {s : σ} (hs : inv s) : inv (run step m s).2 := by
  have hspend (spent : List ω) (s : σ) (hs : inv s) : inv (spendAll step spent s).2 := by
    induction spent generalizing s with
    | nil => exact hs
    | cons w rest ih =>
      have hnext := hstep w s hs
      rw [spendAll]
      rcases hcase : step w s with ⟨e | u, next⟩
      · rwa [hcase] at hnext
      · rw [hcase] at hnext
        exact ih next hnext
  have hlast := hspend m.spent s hs
  rw [run]
  rcases hcase : spendAll step m.spent s with ⟨e | u, last⟩
  · rwa [hcase] at hlast
  · rwa [hcase] at hlast

/-! ### What a meter accepts -/

/-- The spendings a meter accepts, up to the first it refuses. -/
def accepted (step : ω → σ → Except ε Unit × σ) : List ω → σ → List ω
  | [], _ => []
  | w :: rest, s =>
    match step w s with
    | (.error _, _) => []
    | (.ok _, s) => w :: accepted step rest s

/-- A computation that succeeds has spent all it announced. -/
theorem accepted_of_run_eq_ok {m : Metered ω ε α} {s s' : σ} {a : α}
    (h : run step m s = (.ok a, s')) :
    m.outcome = .ok a ∧ accepted step m.spent s = m.spent := by
  obtain ⟨spent, outcome⟩ := m
  unfold run at h
  dsimp only at h ⊢
  rcases hspend : spendAll step spent s with ⟨e | u, left⟩
  · rw [hspend] at h
    cases h
  · rw [hspend] at h
    cases h
    refine ⟨rfl, ?_⟩
    induction spent generalizing s with
    | nil => rfl
    | cons w rest ih =>
      rw [spendAll] at hspend
      rw [accepted]
      rcases hstep : step w s with ⟨e | u', next⟩
      · rw [hstep] at hspend
        cases hspend
      · rw [hstep] at hspend
        dsimp only at hspend ⊢
        rw [ih hspend]

/-- **What a meter accepts is taken off its level**, and a refusal takes nothing. -/
theorem level_run {weight : ω → ℕ} {level : σ → ℕ}
    (hok : ∀ w s u s', step w s = (.ok u, s') → level s' + weight w = level s)
    (herror : ∀ w s e s', step w s = (.error e, s') → level s' = level s)
    (m : Metered ω ε α) (s : σ) :
    level (run step m s).2 + ((accepted step m.spent s).map weight).sum = level s := by
  have hspend (spent : List ω) (s : σ) :
      level (spendAll step spent s).2 + ((accepted step spent s).map weight).sum = level s := by
    induction spent generalizing s with
    | nil => rfl
    | cons w rest ih =>
      rw [spendAll, accepted]
      rcases hstep : step w s with ⟨e | u, next⟩
      · exact herror w s e next hstep
      · have hrest := ih next
        have hfirst := hok w s u next hstep
        dsimp only
        rw [List.map_cons, List.sum_cons]
        omega
  have hsame : (run step m s).2 = (spendAll step m.spent s).2 := by
    rw [run]
    rcases spendAll step m.spent s with ⟨e | u, next⟩ <;> rfl
  rw [hsame]
  exact hspend m.spent s

end Metered
