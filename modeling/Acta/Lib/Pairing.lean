import Mathlib.Data.List.Forall2

/-!
# Lists related element by element

Relations between lists of one length, as the elements at each position are related, compose
(`Related.trans`), go over to pairs (`Related.zip_right`), and say of every element of one list that
it has a partner in the other (`Related.exists_left`).
-/

namespace Related

variable {α β γ : Type*} {R : α → β → Prop} {S : β → γ → Prop} {xs : List α} {ys : List β}
  {zs : List γ}

/-- Two relations that meet at a middle list. -/
theorem trans (h : List.Forall₂ R xs ys) (h' : List.Forall₂ S ys zs) :
    List.Forall₂ (fun x z ↦ ∃ y, R x y ∧ S y z) xs zs := by
  induction h generalizing zs with
  | nil =>
    cases h'
    exact .nil
  | cons hfirst _ ih =>
    cases h' with
    | cons hsecond hrest => exact .cons ⟨_, hfirst, hsecond⟩ (ih hrest)

/-- A list related to the first of two others is related to the pairs of these. -/
theorem zip_right (h : List.Forall₂ R xs ys) (h' : List.Forall₂ S ys zs) :
    List.Forall₂ (fun x pair ↦ R x pair.1 ∧ S pair.1 pair.2) xs (ys.zip zs) := by
  induction h generalizing zs with
  | nil => exact .nil
  | cons hfirst _ ih =>
    cases h' with
    | cons hsecond hrest => exact .cons ⟨hfirst, hsecond⟩ (ih hrest)

/-- An element of the second list is related to one of the first. -/
theorem exists_left (h : List.Forall₂ R xs ys) {y : β} (hy : y ∈ ys) : ∃ x ∈ xs, R x y := by
  induction h with
  | nil => cases hy
  | cons hfirst _ ih =>
    rcases List.mem_cons.mp hy with rfl | hy
    · exact ⟨_, List.mem_cons_self, hfirst⟩
    · obtain ⟨x, hx, hrelated⟩ := ih hy
      exact ⟨x, List.mem_cons_of_mem _ hx, hrelated⟩

/-- An element of the first list is related to one of the second. -/
theorem exists_right (h : List.Forall₂ R xs ys) {x : α} (hx : x ∈ xs) : ∃ y ∈ ys, R x y :=
  exists_left h.flip hx

end Related
