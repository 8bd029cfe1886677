import Mathlib.Data.Nat.Notation
import Mathlib.Logic.Relation

/-!
# Scanning a log

A log is read record by record from the front.  `LogScan` is one step of the scan: from a state it
either fails, finds that the log stops inside a record, or moves to a state further on.  `run`
repeats the step until the end of the log.

The scan is described by the states it goes through.  `Advances` is one successful step inside the
log and `Reaches` any number of them.  A run is decided by the last state it reaches
(`run_eq_of_reaches`, `run_eq_ok`), so to compare two scans it is enough to carry the reached states
over from one to the other (`Reaches.simulate`).
-/

/-- One step of a scan, over states that each have a position in the log. -/
structure LogScan (σ ε : Type) where
  /-- How far a state has read. -/
  pos : σ → ℕ
  /-- Read one record, or nothing when the log stops inside it. -/
  step : σ → Except ε (Option σ)
  /-- A record is never empty. -/
  progress : ∀ {s t}, step s = .ok (some t) → pos s < pos t

namespace LogScan

variable {σ ε : Type} (L : LogScan σ ε) (size : ℕ)

/-- Scan to the end of a log of the given size.  The flag says whether the log stops inside a
record. -/
def run (s : σ) : Except ε (σ × Bool) :=
  if L.pos s < size then
    match _h : L.step s with
    | .error e => .error e
    | .ok none => .ok (s, true)
    | .ok (some t) => run t
  else
    .ok (s, false)
termination_by size - L.pos s
decreasing_by
  have := L.progress _h
  omega

/-- One record is read, inside the log. -/
def Advances (s t : σ) : Prop :=
  L.pos s < size ∧ L.step s = .ok (some t)

/-- Some number of records are read. -/
def Reaches : σ → σ → Prop :=
  Relation.ReflTransGen (L.Advances size)

variable {L size} {s t u : σ} {e : ε}

theorem Advances.pos_lt (h : L.Advances size s t) : L.pos s < L.pos t :=
  L.progress h.2

theorem Reaches.pos_le (h : L.Reaches size s t) : L.pos s ≤ L.pos t := by
  induction h with
  | refl => exact Nat.le_refl _
  | tail _ hstep ih => exact Nat.le_trans ih (Nat.le_of_lt hstep.pos_lt)

theorem Reaches.trans (hst : L.Reaches size s t) (htu : L.Reaches size t u) :
    L.Reaches size s u :=
  Relation.ReflTransGen.trans hst htu

/-! ### Runs -/

theorem run_of_le (h : size ≤ L.pos s) : L.run size s = .ok (s, false) := by
  rw [run, if_neg (Nat.not_lt.mpr h)]

theorem run_of_none (h : L.pos s < size) (hstep : L.step s = .ok none) :
    L.run size s = .ok (s, true) := by
  rw [run, if_pos h]
  split <;> simp_all

theorem run_of_error (h : L.pos s < size) (hstep : L.step s = .error e) :
    L.run size s = .error e := by
  rw [run, if_pos h]
  split <;> simp_all

theorem run_of_advances (h : L.Advances size s t) : L.run size s = L.run size t := by
  obtain ⟨hpos, hstep⟩ := h
  rw [run, if_pos hpos]
  split <;> simp_all

/-- **A run may be picked up at any state it reaches.** -/
theorem run_eq_of_reaches (h : L.Reaches size s t) : L.run size s = L.run size t := by
  induction h with
  | refl => rfl
  | tail _ hstep ih => rw [ih, run_of_advances hstep]

/-- Every run ends in a state it reaches: there the log ends, or stops inside a record, or the next
record is refused. -/
theorem exists_reaches_end (L : LogScan σ ε) (size : ℕ) (s : σ) : ∃ t, L.Reaches size s t ∧
    (size ≤ L.pos t ∨ L.pos t < size ∧ (L.step t = .ok none ∨ ∃ e, L.step t = .error e)) := by
  induction hn : size - L.pos s using Nat.strongRecOn generalizing s with
  | _ n ih =>
    by_cases hpos : L.pos s < size
    · match hstep : L.step s with
      | .error e => exact ⟨s, .refl, .inr ⟨hpos, .inr ⟨e, hstep⟩⟩⟩
      | .ok none => exact ⟨s, .refl, .inr ⟨hpos, .inl hstep⟩⟩
      | .ok (some t) =>
        have hlt := L.progress hstep
        obtain ⟨u, hreach, hend⟩ := ih (size - L.pos t) (by omega) t rfl
        exact ⟨u, .head ⟨hpos, hstep⟩ hreach, hend⟩
    · exact ⟨s, .refl, .inl (Nat.not_lt.mp hpos)⟩

/-- **What a successful run says**: the states it reached, and why it stopped there. -/
theorem run_eq_ok {stopped : Bool} : L.run size s = .ok (t, stopped) ↔ L.Reaches size s t ∧
    (if stopped then L.pos t < size ∧ L.step t = .ok none else size ≤ L.pos t) := by
  constructor
  · intro h
    obtain ⟨u, hreach, hend⟩ := exists_reaches_end L size s
    rw [run_eq_of_reaches hreach] at h
    rcases hend with hend | ⟨hpos, hstep | ⟨e, hstep⟩⟩
    · rw [run_of_le hend] at h
      cases h
      exact ⟨hreach, hend⟩
    · rw [run_of_none hpos hstep] at h
      cases h
      exact ⟨hreach, hpos, hstep⟩
    · rw [run_of_error hpos hstep] at h
      cases h
  · rintro ⟨hreach, hend⟩
    rw [run_eq_of_reaches hreach]
    cases stopped with
    | false => exact run_of_le hend
    | true => exact run_of_none hend.1 hend.2

/-- **What a failed run says**: the state whose next record is refused. -/
theorem run_eq_error : L.run size s = .error e ↔
    ∃ t, L.Reaches size s t ∧ L.pos t < size ∧ L.step t = .error e := by
  constructor
  · intro h
    obtain ⟨u, hreach, hend⟩ := exists_reaches_end L size s
    rw [run_eq_of_reaches hreach] at h
    rcases hend with hend | ⟨hpos, hstep | ⟨e', hstep⟩⟩
    · rw [run_of_le hend] at h
      cases h
    · rw [run_of_none hpos hstep] at h
      cases h
    · rw [run_of_error hpos hstep] at h
      cases h
      exact ⟨u, hreach, hpos, hstep⟩
  · rintro ⟨t, hreach, hpos, hstep⟩
    rw [run_eq_of_reaches hreach, run_of_error hpos hstep]

/-! ### How many turns a run takes -/

/-- The scan as a loop of a bounded number of turns.  There is no result where the turns run out. -/
def loop (L : LogScan σ ε) (size : ℕ) (turns : ℕ) (s : σ) : Option (Except ε (σ × Bool)) :=
  if L.pos s < size then
    match turns with
    | 0 => none
    | turns + 1 =>
      match L.step s with
      | .error e => some (.error e)
      | .ok none => some (.ok (s, true))
      | .ok (some t) => loop L size turns t
  else
    some (.ok (s, false))

/-- **A run ends** within as many turns as records of the least size cover the rest of the log. -/
theorem loop_eq_run {stride turns : ℕ}
    (hstride : ∀ a b, L.step a = .ok (some b) → L.pos a + stride ≤ L.pos b)
    (h : size ≤ L.pos s + stride * turns) : L.loop size turns s = some (L.run size s) := by
  induction turns generalizing s with
  | zero => rw [loop, if_neg (by omega), run_of_le h]
  | succ turns ih =>
    rw [loop]
    by_cases hpos : L.pos s < size
    · rw [if_pos hpos]
      match hstep : L.step s with
      | .error e => rw [run_of_error hpos hstep]
      | .ok none => rw [run_of_none hpos hstep]
      | .ok (some t) =>
        have hfurther := hstride s t hstep
        rw [Nat.mul_succ] at h
        rw [run_of_advances ⟨hpos, hstep⟩]
        exact ih (by omega)
    · rw [if_neg hpos, run_of_le (Nat.not_lt.mp hpos)]

/-! ### Invariants -/

/-- A property every step preserves holds of every state reached. -/
theorem Reaches.invariant {P : σ → Prop} (hstep : ∀ a b, L.Advances size a b → P a → P b)
    (h : L.Reaches size s t) (hs : P s) : P t := by
  induction h with
  | refl => exact hs
  | tail _ hadv ih => exact hstep _ _ hadv ih

/-- The record that covers a position below the last state reached. -/
theorem Reaches.exists_covering {i : ℕ} (h : L.Reaches size s t) (hlo : L.pos s ≤ i)
    (hhi : i < L.pos t) : ∃ a b, L.Reaches size s a ∧ L.Advances size a b ∧
      L.Reaches size b t ∧ L.pos a ≤ i ∧ i < L.pos b := by
  induction h with
  | refl => omega
  | @tail a b hreach hadv ih =>
    by_cases hi : i < L.pos a
    · obtain ⟨c, d, hc, hcd, hd, hle, hlt⟩ := ih hi
      exact ⟨c, d, hc, hcd, hd.tail hadv, hle, hlt⟩
    · exact ⟨a, b, hreach, hadv, .refl, Nat.not_lt.mp hi, hhi⟩

/-! ### Comparing two scans -/

variable {τ : Type} {M : LogScan τ ε} {size' : ℕ} {R : σ → τ → Prop}

/-- **Simulation**: when every step of one scan that ends by `bound` is matched by a step of the
other, the states reached by then are matched too. -/
theorem Reaches.simulate {bound : ℕ} {s' : τ}
    (hstep : ∀ a b a', L.Advances size a b → L.pos b ≤ bound → R a a' →
      ∃ b', M.Advances size' a' b' ∧ R b b')
    (h : L.Reaches size s t) (hbound : L.pos t ≤ bound) (hs : R s s') :
    ∃ t', M.Reaches size' s' t' ∧ R t t' := by
  induction h with
  | refl => exact ⟨s', .refl, hs⟩
  | tail hreach hadv ih =>
    obtain ⟨a', hreach', ha⟩ := ih (Nat.le_trans (Nat.le_of_lt hadv.pos_lt) hbound)
    obtain ⟨b', hadv', hb⟩ := hstep _ _ _ hadv hbound ha
    exact ⟨b', hreach'.tail hadv', hb⟩

/-- Two outcomes of a step that go to related states, or stop for the same reason. -/
inductive StepsAlike (R : σ → τ → Prop) : Except ε (Option σ) → Except ε (Option τ) → Prop
  | error (e : ε) : StepsAlike R (.error e) (.error e)
  | stopped : StepsAlike R (.ok none) (.ok none)
  | moved {a : σ} {b : τ} (h : R a b) : StepsAlike R (.ok (some a)) (.ok (some b))

/-- Two outcomes of a run that end in related states, or fail alike. -/
inductive RunsAlike (R : σ → τ → Prop) : Except ε (σ × Bool) → Except ε (τ × Bool) → Prop
  | error (e : ε) : RunsAlike R (.error e) (.error e)
  | ended {a : σ} {b : τ} (stopped : Bool) (h : R a b) :
      RunsAlike R (.ok (a, stopped)) (.ok (b, stopped))

/-- **Bisimulation**: scans whose steps are alike on related states run alike from them. -/
theorem run_alike (hpos : ∀ a b, R a b → L.pos a = M.pos b)
    (hstep : ∀ a b, R a b → StepsAlike R (L.step a) (M.step b)) {s : σ} {s' : τ} (hs : R s s') :
    RunsAlike R (L.run size s) (M.run size s') := by
  induction hn : size - L.pos s using Nat.strongRecOn generalizing s s' with
  | _ n ih =>
    have hsame := hpos s s' hs
    by_cases hlt : L.pos s < size
    · have hlt' : M.pos s' < size := hsame ▸ hlt
      have halike := hstep s s' hs
      generalize hleft : L.step s = left at halike
      generalize hright : M.step s' = right at halike
      cases halike with
      | error e =>
        rw [run_of_error hlt hleft, run_of_error hlt' hright]
        exact .error e
      | stopped =>
        rw [run_of_none hlt hleft, run_of_none hlt' hright]
        exact .ended true hs
      | moved hmoved =>
        rw [run_of_advances ⟨hlt, hleft⟩, run_of_advances ⟨hlt', hright⟩]
        have hfurther := L.progress hleft
        exact ih _ (by omega) hmoved rfl
    · rw [run_of_le (Nat.not_lt.mp hlt), run_of_le (hsame ▸ Nat.not_lt.mp hlt)]
      exact .ended false hs

end LogScan
