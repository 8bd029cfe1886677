import Mathlib.Data.List.Perm.Basic
import Mathlib.Data.List.Sort
import Mathlib.Data.Prod.Lex

/-!
# Selection by a key

Two steps of choosing among priced entries.  A shortlist is the first few entries of a list sorted
by a key; whether an entry makes it depends only on how many entries have a smaller key, and on no
order among the entries.  A fold that keeps the better entry ends with one that no admissible entry
beats.
-/

namespace Ranking

variable {α κ : Type*} [LinearOrder κ]

/-! ### Shortlists -/

section Shortlist

variable (key : α → κ)

/-- Entries in the order of their keys. -/
def sorted (entries : List α) : List α :=
  entries.mergeSort fun a b ↦ key a ≤ key b

/-- How many entries have a smaller key. -/
def preceding (entries : List α) (entry : α) : ℕ :=
  (entries.filter fun other ↦ key other < key entry).length

variable {key}

theorem perm_sorted (entries : List α) : (sorted key entries).Perm entries :=
  List.mergeSort_perm entries _

theorem pairwise_sorted (entries : List α) :
    (sorted key entries).Pairwise fun a b ↦ key a ≤ key b := by
  have hpairwise := @List.pairwise_mergeSort _ (fun a b : α ↦ decide (key a ≤ key b))
    (fun a b c hab hbc ↦ decide_eq_true ((of_decide_eq_true hab).trans (of_decide_eq_true hbc)))
    (fun a b ↦ by simpa using le_total (key a) (key b)) entries
  exact hpairwise.imp fun h ↦ of_decide_eq_true h

/-- Keys that no two entries share tell sorted entries apart. -/
theorem pairwise_sorted_lt {entries : List α} (hnodup : (entries.map key).Nodup) :
    (sorted key entries).Pairwise fun a b ↦ key a < key b := by
  have hkeys : ((sorted key entries).map key).Nodup :=
    ((perm_sorted entries).map key).nodup_iff.mpr hnodup
  have hne := List.pairwise_map.mp hkeys
  exact (pairwise_sorted entries).imp₂ (fun a b hle hne ↦ lt_of_le_of_ne hle hne) hne

/-- **Sorting forgets the order of the entries.** -/
theorem sorted_eq_of_perm {entries others : List α} (hperm : entries.Perm others)
    (hnodup : (entries.map key).Nodup) : sorted key entries = sorted key others := by
  have hothers : (others.map key).Nodup := (hperm.map key).nodup_iff.mp hnodup
  have hantisymm : ∀ a b, a ∈ sorted key entries → b ∈ sorted key others → key a < key b →
      key b < key a → a = b := fun a b _ _ hab hba ↦ absurd hab hba.asymm
  exact List.Perm.eq_of_pairwise hantisymm (pairwise_sorted_lt hnodup)
    (pairwise_sorted_lt hothers)
    ((perm_sorted entries).trans (hperm.trans (perm_sorted others).symm))

theorem preceding_perm {entries others : List α} (hperm : entries.Perm others) (entry : α) :
    preceding key entries entry = preceding key others entry :=
  (hperm.filter _).length_eq

theorem mem_take_iff {entries : List α} (hsorted : entries.Pairwise fun a b ↦ key a < key b)
    {count : ℕ} {entry : α} :
    entry ∈ entries.take count ↔ entry ∈ entries ∧ preceding key entries entry < count := by
  induction entries generalizing count with
  | nil => simp
  | cons first rest ih =>
    obtain ⟨hfirst, hrest⟩ := List.pairwise_cons.mp hsorted
    cases count with
    | zero => simp
    | succ count =>
      rw [List.take_succ_cons, List.mem_cons, List.mem_cons, ih hrest]
      have hnone : preceding key (first :: rest) first = 0 := by
        rw [preceding, List.length_eq_zero_iff, List.filter_eq_nil_iff]
        intro other hother
        rcases List.mem_cons.mp hother with rfl | hother
        · simp
        · simpa using (hfirst other hother).le
      have hmore : entry ∈ rest →
          preceding key (first :: rest) entry = preceding key rest entry + 1 := by
        intro hentry
        rw [preceding, List.filter_cons_of_pos (by simpa using hfirst entry hentry),
          List.length_cons]
        rfl
      constructor
      · rintro (rfl | ⟨hentry, hlt⟩)
        · exact ⟨.inl rfl, by omega⟩
        · exact ⟨.inr hentry, by rw [hmore hentry]; omega⟩
      · rintro ⟨rfl | hentry, hlt⟩
        · exact .inl rfl
        · exact .inr ⟨hentry, by rw [hmore hentry] at hlt; omega⟩

/-- **An entry is among the first of the sorted ones exactly when few enough precede it.** -/
theorem mem_take_sorted_iff {entries : List α} (hnodup : (entries.map key).Nodup) {count : ℕ}
    {entry : α} :
    entry ∈ (sorted key entries).take count ↔
      entry ∈ entries ∧ preceding key entries entry < count := by
  rw [mem_take_iff (pairwise_sorted_lt hnodup), (perm_sorted entries).mem_iff,
    preceding_perm (perm_sorted entries)]

end Shortlist

/-! ### The better entry -/

section Better

variable (admissible : α → Prop) [DecidablePred admissible] (key : α → κ)

/-- Keep the best entry so far, unless an admissible entry has a smaller key. -/
def better (best candidate : α) : α :=
  if admissible candidate ∧ key candidate < key best then candidate else best

variable {admissible key}

theorem better_le (best candidate : α) :
    key (better admissible key best candidate) ≤ key best ∧
      (admissible candidate → key (better admissible key best candidate) ≤ key candidate) := by
  rw [better]
  split
  case isTrue h => exact ⟨h.2.le, fun _ ↦ le_rfl⟩
  case isFalse h => exact ⟨le_rfl, fun hadmissible ↦ le_of_not_gt fun hlt ↦ h ⟨hadmissible, hlt⟩⟩

/-- **No admissible entry beats the one a fold ends with.** -/
theorem foldl_better_le (candidates : List α) (start : α) :
    key (candidates.foldl (better admissible key) start) ≤ key start ∧
      ∀ candidate ∈ candidates, admissible candidate →
        key (candidates.foldl (better admissible key) start) ≤ key candidate := by
  induction candidates generalizing start with
  | nil => exact ⟨le_rfl, by simp⟩
  | cons first rest ih =>
    obtain ⟨hstart, hrest⟩ := ih (better admissible key start first)
    obtain ⟨hbest, hfirst⟩ : key (better admissible key start first) ≤ key start ∧
        (admissible first → key (better admissible key start first) ≤ key first) :=
      better_le start first
    refine ⟨hstart.trans hbest, List.forall_mem_cons.mpr ⟨fun hadmissible ↦ ?_, hrest⟩⟩
    exact hstart.trans (hfirst hadmissible)

/-- The fold ends where it started or with an admissible entry. -/
theorem foldl_better_mem (candidates : List α) (start : α) :
    candidates.foldl (better admissible key) start = start ∨
      candidates.foldl (better admissible key) start ∈ candidates ∧
        admissible (candidates.foldl (better admissible key) start) := by
  induction candidates generalizing start with
  | nil => exact .inl rfl
  | cons first rest ih =>
    rw [List.foldl_cons]
    rcases ih (better admissible key start first) with hsame | ⟨hmem, hadmissible⟩
    · rw [hsame, better]
      split
      case isTrue h => exact .inr ⟨List.mem_cons_self, h.1⟩
      case isFalse => exact .inl rfl
    · exact .inr ⟨List.mem_cons_of_mem _ hmem, hadmissible⟩

end Better

end Ranking
