import Mathlib.Data.List.Basic

/-!
# Cutting a sequence into blocks

Items arrive in batches and are cut into blocks.  A block is cut off before an item that it does not
take.  A block that is full is cut off as well, but this is only looked at where a batch ends.  So
the blocks can depend on where the batches end, and `cut_eq_iff` says when two ways to batch one
sequence give the same blocks: at every item after which the block is full and would still take the
next item, both end a batch, or neither does.
-/

namespace Cutting

/-- When a block takes one more item, and when it is full. -/
structure Rules (α : Type*) where
  takes : List α → α → Bool
  full : List α → Bool

variable {α : Type*} (rules : Rules α)

/-! ### Batches -/

/-- The items of a batch, each with whether the batch ends with it. -/
def marks : List α → List (α × Bool)
  | [] => []
  | item :: rest => (item, rest.isEmpty) :: marks rest

theorem marks_fst (batch : List α) : (marks batch).map Prod.fst = batch := by
  induction batch with
  | nil => rfl
  | cons item rest ih => rw [marks, List.map_cons, ih]

/-- The items of a sequence of batches, each with whether a batch ends with it. -/
def marked (batches : List (List α)) : List (α × Bool) :=
  batches.flatMap marks

theorem marked_fst (batches : List (List α)) :
    (marked batches).map Prod.fst = batches.flatten := by
  induction batches with
  | nil => rfl
  | cons batch batches ih =>
    rw [marked, List.flatMap_cons, List.map_append, marks_fst, List.flatten_cons, ← ih]
    rfl

/-- Two ways to batch one sequence, side by side. -/
def together (items items' : List (α × Bool)) : List (α × Bool × Bool) :=
  items.zipWith (fun item item' ↦ (item.1, item.2, item'.2)) items'

/-! ### Blocks -/

/-- The block that an item ends up in, after the block assembled so far. -/
def Rules.next (block : List α) (item : α) : List α :=
  if block = [] ∨ rules.takes block item = true then block ++ [item] else [item]

/-- The block that an item cuts off, if there is one. -/
def Rules.shut (block : List α) (item : α) : List (List α) :=
  if block = [] ∨ rules.takes block item = true then [] else [block]

/-- **The blocks of a sequence**, after the block assembled so far.  What is left at the end is the
last block. -/
def Rules.cut : List α → List (α × Bool) → List (List α)
  | block, [] => if block = [] then [] else [block]
  | block, (item, ends) :: rest =>
    rules.shut block item ++
      if ends ∧ rules.full (rules.next block item) then
        rules.next block item :: cut [] rest
      else
        cut (rules.next block item) rest

/-- The first item of a sequence goes into the block. -/
def Rules.Continues {β : Type*} (block : List α) : List (α × β) → Prop
  | [] => False
  | (item, _) :: _ => rules.takes block item = true

instance {β : Type*} (block : List α) : (items : List (α × β)) →
    Decidable (rules.Continues block items)
  | [] => inferInstanceAs (Decidable False)
  | (item, _) :: _ => inferInstanceAs (Decidable (rules.takes block item = true))

/-- **Two ways to batch a sequence agree** where it matters: at every item after which the block is
full and would take the next one, both end a batch or neither does. -/
def Rules.Agree : List α → List (α × Bool × Bool) → Prop
  | _, [] => True
  | block, (item, ends, ends') :: rest =>
    if rules.full (rules.next block item) ∧ rules.Continues (rules.next block item) rest then
      ends = ends' ∧ Agree (if ends then [] else rules.next block item) rest
    else
      Agree (rules.next block item) rest

instance Rules.decidableAgree : (block : List α) → (items : List (α × Bool × Bool)) →
    Decidable (rules.Agree block items)
  | _, [] => inferInstanceAs (Decidable True)
  | block, (item, ends, _) :: rest =>
    have := decidableAgree (if ends then [] else rules.next block item) rest
    have := decidableAgree (rules.next block item) rest
    inferInstanceAs (Decidable (if rules.full (rules.next block item) = true ∧
      rules.Continues (rules.next block item) rest then _ else _))

variable {rules}

theorem Rules.next_ne_nil (block : List α) (item : α) : rules.next block item ≠ [] := by
  rw [Rules.next]
  split
  · exact List.append_ne_nil_of_right_ne_nil _ (List.cons_ne_nil _ _)
  · exact List.cons_ne_nil _ _

/-- **No item is lost, doubled or moved.** -/
theorem flatten_cut (block : List α) (items : List (α × Bool)) :
    (rules.cut block items).flatten = block ++ items.map Prod.fst := by
  induction items generalizing block with
  | nil =>
    rw [Rules.cut, List.map_nil, List.append_nil]
    split
    case isTrue hnone => rw [hnone, List.flatten_nil]
    case isFalse => exact List.flatten_singleton
  | cons first rest ih =>
    obtain ⟨item, ends⟩ := first
    have hitem : (rules.shut block item).flatten ++ rules.next block item = block ++ [item] := by
      rw [Rules.shut, Rules.next]
      split
      · rfl
      · rw [List.flatten_singleton]
    rw [Rules.cut, List.flatten_append, List.map_cons, List.append_cons, ← hitem,
      List.append_assoc]
    refine congrArg (_ ++ ·) ?_
    split
    · rw [List.flatten_cons, ih, List.nil_append]
    · exact ih _

/-- **A block that does not go on** is cut off, now or with the next item. -/
theorem cut_of_not_continues {block : List α} (hne : block ≠ []) {items : List (α × Bool)}
    (h : ¬rules.Continues block items) : rules.cut block items = block :: rules.cut [] items := by
  cases items with
  | nil => rw [Rules.cut, if_neg hne, Rules.cut, if_pos rfl]
  | cons first rest =>
    obtain ⟨item, ends⟩ := first
    have hrefuses : ¬(block = [] ∨ rules.takes block item = true) := not_or.mpr ⟨hne, h⟩
    have hshut : rules.shut block item = [block] := if_neg hrefuses
    have hnext : rules.next block item = [item] := if_neg hrefuses
    have hshut' : rules.shut [] item = [] := if_pos (.inl rfl)
    have hnext' : rules.next [] item = [item] := if_pos (.inl rfl)
    rw [Rules.cut, Rules.cut, hshut, hnext, hshut', hnext']
    rfl

/-- The first block goes on from the one assembled so far. -/
theorem exists_cut_eq_cons {block : List α} (hne : block ≠ []) (items : List (α × Bool)) :
    ∃ first blocks, rules.cut block items = first :: blocks ∧ block.length ≤ first.length ∧
      (rules.Continues block items → block.length < first.length) := by
  induction items generalizing block with
  | nil => exact ⟨block, [], if_neg hne, Nat.le_refl _, False.elim⟩
  | cons first rest ih =>
    obtain ⟨item, ends⟩ := first
    by_cases htakes : rules.takes block item = true
    · have hshut : rules.shut block item = [] := if_pos (.inr htakes)
      have hnext : rules.next block item = block ++ [item] := if_pos (.inr htakes)
      have hlength : (block ++ [item]).length = block.length + 1 := List.length_append
      rw [Rules.cut, hshut, hnext, List.nil_append]
      split
      · exact ⟨_, _, rfl, by omega, fun _ ↦ by omega⟩
      · obtain ⟨grown, blocks, hcut, hle, -⟩ := ih (hnext ▸ rules.next_ne_nil block item)
        exact ⟨grown, blocks, hcut, by omega, fun _ ↦ by omega⟩
    · have hshut : rules.shut block item = [block] := if_neg (not_or.mpr ⟨hne, htakes⟩)
      rw [Rules.cut, hshut]
      exact ⟨block, _, rfl, Nat.le_refl _, fun hcontinues ↦ absurd hcontinues htakes⟩

/-- The first block begins with the items assembled so far. -/
theorem exists_cut_eq_append_cons {block : List α} (hne : block ≠ []) (items : List (α × Bool)) :
    ∃ more blocks, rules.cut block items = (block ++ more) :: blocks := by
  obtain ⟨first, blocks, hcut, hle, -⟩ := @exists_cut_eq_cons _ rules block hne items
  have hflatten : (rules.cut block items).flatten = block ++ items.map Prod.fst :=
    flatten_cut block items
  rw [hcut, List.flatten_cons] at hflatten
  obtain ⟨more, rfl⟩ : block <+: first :=
    List.prefix_of_prefix_length_le (List.prefix_append block _)
      (hflatten ▸ List.prefix_append first _) hle
  exact ⟨more, blocks, hcut⟩

/-- Where nothing is assembled yet, the first block begins with the first item. -/
theorem exists_cut_nil_eq_cons (item : α) (ends : Bool) (items : List (α × Bool)) :
    ∃ more blocks, rules.cut [] ((item, ends) :: items) = (item :: more) :: blocks := by
  have hshut : rules.shut [] item = [] := if_pos (.inl rfl)
  have hnext : rules.next [] item = [item] := if_pos (.inl rfl)
  rw [Rules.cut, hshut, hnext, List.nil_append]
  split
  · exact ⟨[], _, rfl⟩
  · exact exists_cut_eq_append_cons (List.cons_ne_nil item []) items

/-- Items that a block takes one after another. -/
def Rules.TakesAll (rules : Rules α) : List α → List α → Prop
  | _, [] => True
  | block, item :: rest =>
    (block = [] ∨ rules.takes block item = true) ∧ TakesAll rules (block ++ [item]) rest

theorem takesAll_iff {block taken : List α} :
    rules.TakesAll block taken ↔ ∀ index, ∀ hindex : index < taken.length,
      block ++ taken.take index = [] ∨
        rules.takes (block ++ taken.take index) taken[index] = true := by
  induction taken generalizing block with
  | nil => exact iff_of_true trivial fun index hindex ↦ absurd hindex (Nat.not_lt_zero _)
  | cons item rest ih =>
    rw [Rules.TakesAll, ih]
    constructor
    · rintro ⟨hfirst, hrest⟩ index hindex
      cases index with
      | zero => rwa [List.take_zero, List.append_nil]
      | succ index =>
        have hlater := hrest index (Nat.lt_of_succ_lt_succ hindex)
        rwa [List.append_assoc] at hlater
    · intro h
      refine ⟨?_, fun index hindex ↦ ?_⟩
      · have hfirst := h 0 (Nat.succ_pos _)
        rwa [List.take_zero, List.append_nil] at hfirst
      · have hlater := h (index + 1) (Nat.succ_lt_succ hindex)
        rwa [List.take_succ_cons, List.append_cons] at hlater

/-- **Items that are taken grow the block**, and where they end a batch a full block is cut off. -/
theorem cut_of_takesAll {block taken : List α} (h : rules.TakesAll block taken) (hne : taken ≠ [])
    (rest : List α) (later : List (α × Bool)) :
    rules.cut block (marks (taken ++ rest) ++ later) =
      if rest = [] ∧ rules.full (block ++ taken) then (block ++ taken) :: rules.cut [] later
      else rules.cut (block ++ taken) (marks rest ++ later) := by
  induction taken generalizing block with
  | nil => exact absurd rfl hne
  | cons item taken ih =>
    obtain ⟨htakes, htaken⟩ := h
    have hshut : rules.shut block item = [] := if_pos htakes
    have hnext : rules.next block item = block ++ [item] := if_pos htakes
    rw [List.cons_append, marks, List.cons_append, Rules.cut, hshut, hnext, List.nil_append]
    cases taken with
    | nil =>
      rcases rest with - | ⟨first, rest⟩
      · simp [marks]
      · simp
    | cons second taken =>
      have hmore : ¬(((second :: taken) ++ rest).isEmpty = true ∧
          rules.full (block ++ [item]) = true) := fun hends ↦ Bool.false_ne_true hends.1
      rw [if_neg hmore, ih htaken (List.cons_ne_nil _ _), List.append_assoc]
      rfl

/-- **Two ways to batch one sequence give the same blocks exactly where they agree.** -/
theorem cut_eq_iff (block : List α) (items : List (α × Bool × Bool)) :
    rules.cut block (items.map fun item ↦ (item.1, item.2.1)) =
      rules.cut block (items.map fun item ↦ (item.1, item.2.2)) ↔ rules.Agree block items := by
  induction items generalizing block with
  | nil => exact iff_of_true rfl trivial
  | cons first rest ih =>
    obtain ⟨item, ends, ends'⟩ := first
    have hmarks (side : Bool × Bool → Bool) :
        rules.Continues (rules.next block item) (rest.map fun item ↦ (item.1, side item.2)) ↔
          rules.Continues (rules.next block item) rest := by
      cases rest <;> exact Iff.rfl
    have hne := rules.next_ne_nil block item
    rw [List.map_cons, List.map_cons, Rules.cut, Rules.cut, List.append_cancel_left_eq, Rules.Agree]
    generalize rules.next block item = next at *
    by_cases hfull : rules.full next = true
    case neg => simp only [hfull, and_false, Bool.false_eq_true, false_and, if_false, ih]
    by_cases hcontinues : rules.Continues next rest
    case neg =>
      -- Cut off now or with the next item, the block is the same.
      have hcut (ends : Bool) (side : Bool × Bool → Bool) :
          (if ends = true ∧ rules.full next = true then
              next :: rules.cut [] (rest.map fun item ↦ (item.1, side item.2))
            else rules.cut next (rest.map fun item ↦ (item.1, side item.2))) =
            rules.cut next (rest.map fun item ↦ (item.1, side item.2)) := by
        split
        · exact (cut_of_not_continues hne fun h ↦ hcontinues ((hmarks side).mp h)).symm
        · rfl
      rw [hcut ends Prod.fst, hcut ends' Prod.snd, if_neg fun h ↦ hcontinues h.2, ih]
    case pos =>
      have hlonger (side : Bool × Bool → Bool) (blocks : List (List α)) :
          next :: blocks ≠ rules.cut next (rest.map fun item ↦ (item.1, side item.2)) := by
        obtain ⟨first, blocks', hcut, -, hlt⟩ := @exists_cut_eq_cons _ rules _ hne
          (rest.map fun item ↦ (item.1, side item.2))
        rw [hcut]
        intro heq
        have hlength := hlt ((hmarks side).mpr hcontinues)
        rw [(List.cons.inj heq).1] at hlength
        exact Nat.lt_irrefl _ hlength
      simp only [hfull, hcontinues, and_true, if_true]
      rcases ends with - | - <;> rcases ends' with - | - <;>
        simp only [Bool.false_eq_true, if_false, if_true, ih, true_and, false_and, List.cons.injEq,
          reduceCtorEq, iff_false]
      · exact (hlonger Prod.fst _).symm
      · exact hlonger Prod.snd _

/-- Two sequences of batches with the same items give the same blocks exactly where they agree. -/
theorem cut_marked_eq_iff {batches batches' : List (List α)}
    (h : batches.flatten = batches'.flatten) :
    rules.cut [] (marked batches) = rules.cut [] (marked batches') ↔
      rules.Agree [] (together (marked batches) (marked batches')) := by
  have hitems : (marked batches).map Prod.fst = (marked batches').map Prod.fst := by
    rw [marked_fst, marked_fst, h]
  generalize marked batches = items at *
  generalize marked batches' = items' at *
  have hsides : (together items items').map (fun item ↦ (item.1, item.2.1)) = items ∧
      (together items items').map (fun item ↦ (item.1, item.2.2)) = items' := by
    clear h
    induction items generalizing items' with
    | nil => cases items' with
      | nil => exact ⟨rfl, rfl⟩
      | cons item items' => cases hitems
    | cons item items ih => cases items' with
      | nil => cases hitems
      | cons item' items' =>
        rw [List.map_cons, List.map_cons, List.cons.injEq] at hitems
        obtain ⟨hfst, hrest⟩ := ih items' hitems.2
        refine ⟨congrArg (item :: ·) hfst, ?_⟩
        show (item.1, item'.2) :: _ = _
        rw [hitems.1]
        exact congrArg (item' :: ·) hrest
  have hiff := @cut_eq_iff _ rules [] (together items items')
  rwa [hsides.1, hsides.2] at hiff

end Cutting
