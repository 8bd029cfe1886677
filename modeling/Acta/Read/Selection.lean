import Acta.Read.Cost
import Acta.Read.Decode
import Acta.Read.Scan

/-!
# Decoding a selection

What a block decode does is settled column by column: each column is decoded into an array at a
cost, and the values of the primary column bear out what the header says of them
(`BlockDecoder.Yields`).  Any selection of the columns is then decoded into those arrays, at the sum
of those costs (`Yields.block_decodes`).  A full decode that succeeds yields its columns
(`exists_yields`), so what holds of a selection of them can be read off the full decode.
-/

namespace Acta

open Machine Wire

/-! ### Arrays in their positions -/

/-- Every position of a list, in order, is the list. -/
theorem filterMap_getElem?_range {α : Type} (xs : List α) :
    (List.range xs.length).filterMap (xs[·]?) = xs := by
  induction xs using List.reverseRecOn with
  | nil => rfl
  | append_singleton xs x ih =>
    have hfirst : (List.range xs.length).filterMap ((xs ++ [x])[·]?) =
        (List.range xs.length).filterMap (xs[·]?) :=
      List.filterMap_congr fun i hi ↦ List.getElem?_append_left (List.mem_range.mp hi)
    rw [List.length_append, List.length_singleton, List.range_succ, List.filterMap_append,
      hfirst, ih]
    simp

/-- Each position holds what was last put there. -/
theorem getElem?_foldl_set {α : Type} (put : ℕ → α) (indices : List ℕ) (xs : List α) (i : ℕ)
    (hi : i < xs.length) :
    (indices.foldl (fun xs index ↦ xs.set index (put index)) xs)[i]? =
      if i ∈ indices then some (put i) else xs[i]? := by
  induction indices generalizing xs with
  | nil => rfl
  | cons index indices ih =>
    rw [List.foldl_cons, ih _ (by rwa [List.length_set])]
    by_cases hmem : i ∈ indices
    · rw [if_pos hmem, if_pos (List.mem_cons_of_mem _ hmem)]
    · rw [if_neg hmem]
      by_cases hsame : i = index
      · subst hsame
        rw [if_pos List.mem_cons_self, List.getElem?_set_self hi]
      · rw [if_neg (by simp [hsame, hmem]), List.getElem?_set_ne (Ne.symm hsame)]

/-- Arrays that are there are taken in the order they are asked for. -/
theorem takeArrays_eq {selected : List ℕ} (hnodup : selected.Nodup) {arrays : BlockDecoder.Arrays}
    (h : ∀ index ∈ selected, (arrays[index]?.join).isSome = true) :
    BlockDecoder.takeArrays selected arrays =
      .ok (selected.filterMap fun index ↦ arrays[index]?.join) := by
  induction selected generalizing arrays with
  | nil => rfl
  | cons index selected ih =>
    obtain ⟨hnot, hnodup⟩ := List.nodup_cons.mp hnodup
    obtain ⟨hindex, hrest⟩ := List.forall_mem_cons.mp h
    obtain ⟨array, harray⟩ := Option.isSome_iff_exists.mp hindex
    have hkept (other : ℕ) (hother : other ∈ selected) :
        (arrays.set index none)[other]?.join = arrays[other]?.join := by
      have hne : index ≠ other := fun hsame ↦ hnot (hsame ▸ hother)
      rw [List.getElem?_set_ne hne]
    have htaken := @ih hnodup (arrays.set index none) fun other hother ↦ by
      rw [hkept other hother]
      exact hrest other hother
    rw [BlockDecoder.takeArrays, harray, htaken, List.filterMap_cons, harray,
      List.filterMap_congr hkept]
    rfl

theorem RecordBatch.tryNew_of_fits {schema : Schema} {columns : List LogicalArray} {rowCount : ℕ}
    (h : List.Forall₂ (Fits · rowCount) schema.columns columns) :
    tryNew schema columns rowCount = .ok ⟨schema, columns, rowCount, h⟩ := by
  have hcheck : checkColumns schema.columns columns rowCount = .ok () := by
    rw [checkColumns, forM_eq_ok]
    intro pair hpair
    exact checkColumn_eq_ok.mpr (List.forall₂_zip h hpair)
  rw [tryNew, dif_pos h.length_eq.symm]
  split
  · rfl
  · rename_i e he
    rw [hcheck] at he
    cases he

theorem RecordBatch.fits_of_tryNew {schema : Schema} {columns : List LogicalArray} {rowCount : ℕ}
    {batch : RecordBatch} (h : tryNew schema columns rowCount = .ok batch) :
    List.Forall₂ (Fits · rowCount) schema.columns columns := by
  rw [tryNew] at h
  split at h
  · rename_i hlength
    split at h
    · rename_i hcheck
      exact forall₂_of_checkColumns hlength hcheck
    · cases h
  · cases h

/-- Arrays that fit the columns of a schema one by one fit any selection of them. -/
theorem forall₂_fits {schema : Schema} {rowCount : ℕ} {arrayAt : ℕ → Option LogicalArray}
    {indices : List ℕ}
    (h : ∀ index ∈ indices, ∃ column array, schema.columns[index]? = some column ∧
      arrayAt index = some array ∧ Fits column rowCount array) :
    List.Forall₂ (Fits · rowCount) (indices.filterMap (schema.columns[·]?))
      (indices.filterMap arrayAt) := by
  induction indices with
  | nil => exact .nil
  | cons index indices ih =>
    obtain ⟨⟨column, array, hcolumn, harray, hfits⟩, hrest⟩ := List.forall_mem_cons.mp h
    rw [List.filterMap_cons_some hcolumn, List.filterMap_cons_some harray]
    exact .cons hfits (ih hrest)

/-- Arrays that fit any selection of columns fit them one by one. -/
theorem fits_of_forall₂ {schema : Schema} {rowCount : ℕ} {arrayAt : ℕ → Option LogicalArray}
    {indices : List ℕ}
    (hsome : ∀ index ∈ indices, ∃ column array, schema.columns[index]? = some column ∧
      arrayAt index = some array)
    (h : List.Forall₂ (Fits · rowCount) (indices.filterMap (schema.columns[·]?))
      (indices.filterMap arrayAt)) {index : ℕ} {column : Column} {array : LogicalArray}
    (hindex : index ∈ indices) (hcolumn : schema.columns[index]? = some column)
    (harray : arrayAt index = some array) : Fits column rowCount array := by
  induction indices with
  | nil => cases hindex
  | cons first indices ih =>
    obtain ⟨⟨column', array', hcolumn', harray'⟩, hrest⟩ := List.forall_mem_cons.mp hsome
    rw [List.filterMap_cons_some hcolumn', List.filterMap_cons_some harray'] at h
    obtain ⟨hfirst, htail⟩ := List.forall₂_cons.mp h
    rcases List.mem_cons.mp hindex with rfl | hindex
    · rw [hcolumn] at hcolumn'
      rw [harray] at harray'
      cases hcolumn'
      cases harray'
      exact hfirst
    · exact ih hrest htail hindex

/-! ### The primary column -/

/-- Values that do not decrease begin with the least of them and end with the greatest. -/
theorem ends_of_isChain {values : List ℤ} (h : values.IsChain (· ≤ ·)) {low high : ℤ}
    (hlow : values.min? = some low) (hhigh : values.max? = some high) :
    values.head? = some low ∧ values.getLast? = some high := by
  have hsorted := List.isChain_iff_pairwise.mp h
  obtain ⟨hlowMem, hlowLe⟩ := List.min?_eq_some_iff.mp hlow
  obtain ⟨hhighMem, hhighLe⟩ := List.max?_eq_some_iff.mp hhigh
  constructor
  · cases values with
    | nil => cases hlowMem
    | cons first rest =>
      have hfirst : first ≤ low := by
        rcases List.mem_cons.mp hlowMem with rfl | hmem
        · exact le_rfl
        · exact List.rel_of_pairwise_cons hsorted hmem
      rw [List.head?_cons, Int.le_antisymm hfirst (hlowLe first List.mem_cons_self)]
  · rcases List.eq_nil_or_concat values with rfl | ⟨rest, last, rfl⟩
    · cases hhighMem
    · rw [List.concat_eq_append] at hhighMem hhighLe hsorted ⊢
      have hlast : high ≤ last := by
        rcases List.mem_append.mp hhighMem with hmem | hmem
        · exact (List.pairwise_append.mp hsorted).2.2 high hmem last (List.mem_singleton_self _)
        · exact (List.mem_singleton.mp hmem).le
      rw [List.getLast?_append, List.getLast?_singleton, Option.some_or,
        Int.le_antisymm hlast (hhighLe last (by simp))]

/-- The primary column stands where the reader looks for it. -/
theorem getElem?_primaryIndex {schema : Schema} {index : ℕ} (h : primaryIndex schema = some index) :
    ∃ column id, schema.primaryColumnId = some id ∧ schema.columns[index]? = some column ∧
      column.id = id := by
  rw [primaryIndex, Option.bind_eq_some_iff] at h
  obtain ⟨id, hid, hfind⟩ := h
  obtain ⟨hindex, hcolumn, -⟩ := List.findIdx?_eq_some_iff_getElem.mp hfind
  exact ⟨_, id, hid, List.getElem?_eq_getElem hindex, by simpa using hcolumn⟩

/-- Primary values bear out what the header of their block says of them. -/
structure DataFrameMetadata.Confirmed (metadata : DataFrameMetadata) (values : List ℤ) : Prop where
  minimum : values.min? = metadata.primaryBounds.map Prod.fst
  maximum : values.max? = metadata.primaryBounds.map Prod.snd
  sorted : metadata.tsSorted = true → values.IsChain (· ≤ ·)

/-- **A block's claims about its primary values are verified.** -/
theorem BlockDecoder.checkPrimaryValues_eq_ok {decoder : BlockDecoder} {values : List ℤ} :
    decoder.checkPrimaryValues values = .ok () ↔ decoder.layout.metadata.Confirmed values := by
  rw [checkPrimaryValues, bind_eq_ok]
  constructor
  · rintro ⟨_, hbounds, hclaim⟩
    obtain ⟨hminimum, hmaximum⟩ := not_or.mp (failIf_eq_ok.mp hbounds)
    refine ⟨not_not.mp hminimum, not_not.mp hmaximum, fun hsorted ↦ ?_⟩
    rw [if_pos hsorted] at hclaim
    obtain ⟨_, hchain, -⟩ := bind_eq_ok.mp hclaim
    exact not_not.mp (failIf_eq_ok.mp hchain)
  · rintro ⟨hminimum, hmaximum, hsorted⟩
    refine ⟨(), failIf_neg (not_or.mpr ⟨not_not.mpr hminimum, not_not.mpr hmaximum⟩), ?_⟩
    split
    · rename_i hclaim
      have hchain := hsorted hclaim
      refine bind_eq_ok.mpr ⟨(), failIf_neg (not_not.mpr hchain), failIf_neg ?_⟩
      -- Values in order begin and end with their bounds.
      cases hcase : decoder.layout.metadata.primaryBounds with
      | none =>
        rw [hcase] at hminimum
        obtain rfl := List.min?_eq_none_iff.mp hminimum
        simp
      | some bounds =>
        rw [hcase] at hminimum hmaximum
        obtain ⟨hfirst, hlast⟩ := ends_of_isChain hchain hminimum hmaximum
        rw [hfirst, hlast]
        simp
    · rfl

/-! ### Selections -/

/-- A selection of columns of a schema, each at most once, that asks for no primary column but the
schema's. -/
structure Selection.Of (schema : Schema) (selection : Selection) : Prop where
  source : selection.sourceSchema = schema
  nodup : selection.selected.Nodup
  inside : ∀ index ∈ selection.selected, index < schema.columns.length
  primary : ∀ index ∈ selection.primary, primaryIndex schema = some index
  output : selection.outputSchema.columns =
    selection.selected.filterMap (schema.columns[·]?)

/-- All columns in schema order are a selection. -/
theorem Selection.of_all {schema : Schema} :
    (Selection.all schema (List.range schema.columns.length)).Of schema where
  source := rfl
  nodup := List.nodup_range
  inside _ hindex := List.mem_range.mp hindex
  primary _ hindex := hindex
  output := (filterMap_getElem?_range _).symm

/-- The positions that a decode of a selection goes through. -/
def Selection.positions (selection : Selection) : List ℕ :=
  selection.selected ++ (selection.primary.filter fun index ↦ index ∉ selection.selected).toList

/-- The decoded bytes that decoding a selection asks for: what each column asks for, and the primary
values that are verified. -/
def Selection.cost (selection : Selection) (costAt : ℕ → ℕ) (rowCount : ℕ) : ℕ :=
  (selection.positions.map costAt).sum + if selection.primary.isSome then rowCount * 8 else 0

/-- A decoded block holds the arrays of the selected columns, and the values of the primary column
where it was asked for. -/
structure DecodedAs (arrayAt : ℕ → Option LogicalArray) (metadata : DataFrameMetadata)
    (selection : Selection) (decoded : DecodedBlock) : Prop where
  outputSchema : decoded.batch.schema = selection.outputSchema
  columns : decoded.batch.columns = selection.selected.filterMap arrayAt
  rowCount : decoded.batch.rowCount = metadata.rowCount
  primaryValues : ∀ index ∈ selection.primary, ∃ array values, arrayAt index = some array ∧
    decoded.primaryValues = some values ∧
      array.rows.mapM BlockDecoder.primaryValue = .ok values ∧ metadata.Confirmed values
  absent : selection.primary = none → decoded.primaryValues = none
  primarySorted : decoded.primarySorted = (selection.primary.isSome && metadata.tsSorted)

namespace BlockDecoder

/-- Every column of a block is decoded, at a cost, into an array that fits it, and the values of the
primary column bear out what the header of the block says of them. -/
structure Yields (decoder : BlockDecoder) (schema : Schema) (arrayAt : ℕ → Option LogicalArray)
    (costAt : ℕ → ℕ) : Prop where
  rowCount_le : decoder.layout.metadata.rowCount ≤ decoder.limits.maxRowsPerBlock
  column : ∀ {index : ℕ} {column : Column}, schema.columns[index]? = some column →
    ∃ array, arrayAt index = some array ∧ Fits column decoder.layout.metadata.rowCount array ∧
      Decodes (decoder.decodedColumn schema index decoder.layout.metadata.rowCount) (costAt index)
        array
  primary : ∀ {index : ℕ} {array : LogicalArray}, primaryIndex schema = some index →
    arrayAt index = some array → array.len * 8 ≤ u64Max ∧
      ∃ values, array.rows.mapM primaryValue = .ok values ∧
        decoder.layout.metadata.Confirmed values

namespace Yields

variable {decoder : BlockDecoder} {schema : Schema} {arrayAt : ℕ → Option LogicalArray}
  {costAt : ℕ → ℕ} {selection : Selection} (h : decoder.Yields schema arrayAt costAt)
include h

/-- The columns of a selection fit the columns of the schema that it selects. -/
theorem fits {indices : List ℕ} (hinside : ∀ index ∈ indices, index < schema.columns.length) :
    List.Forall₂ (Fits · decoder.layout.metadata.rowCount)
      (indices.filterMap (schema.columns[·]?)) (indices.filterMap arrayAt) := by
  refine forall₂_fits fun index hindex ↦ ?_
  have hcolumn := List.getElem?_eq_getElem (hinside index hindex)
  obtain ⟨array, harray, hfits, -⟩ := h.column hcolumn
  exact ⟨_, array, hcolumn, harray, hfits⟩

/-- One more column is decoded into its position. -/
theorem decodeInto_decodes {index : ℕ} (hindex : index < schema.columns.length)
    (arrays : BlockDecoder.Arrays) :
    Decodes (decoder.decodeInto schema decoder.layout.metadata.rowCount arrays index) (costAt index)
      (arrays.set index (arrayAt index)) := by
  obtain ⟨array, harray, -, hdecodes⟩ := h.column (List.getElem?_eq_getElem hindex)
  rw [harray]
  exact hdecodes.map fun array ↦ arrays.set index (some array)

theorem rowCount_eq : decoder.rowCount = .ok decoder.layout.metadata.rowCount := by
  rw [BlockDecoder.rowCount, failIf_neg (Nat.not_lt.mpr h.rowCount_le)]
  rfl

/-- **The primary values are verified** where they were asked for. -/
theorem primaryValues_decodes (hselection : selection.Of schema) {arrays : BlockDecoder.Arrays}
    (harrays : ∀ index ∈ selection.primary, arrays[index]? = some (arrayAt index)) :
    ∃ primaryValues, Decodes (decoder.primaryValues selection arrays)
        (if selection.primary.isSome then decoder.layout.metadata.rowCount * 8 else 0)
        primaryValues ∧
      primaryValues.isSome = selection.primary.isSome ∧
        ∀ index ∈ selection.primary, ∃ array values, arrayAt index = some array ∧
          primaryValues = some values ∧ array.rows.mapM primaryValue = .ok values ∧
            decoder.layout.metadata.Confirmed values := by
  cases hcase : selection.primary with
  | none =>
    refine ⟨none, ?_, rfl, fun _ hindex ↦ by cases hindex⟩
    rw [BlockDecoder.primaryValues, hcase]
    exact Metered.costs_pure none
  | some index =>
    have hindex := hselection.primary index hcase
    obtain ⟨column, id, hid, hcolumn, -⟩ := getElem?_primaryIndex hindex
    obtain ⟨array, harray, hfits, -⟩ := h.column hcolumn
    obtain ⟨hcount, values, hread, hconfirmed⟩ := h.primary hindex harray
    refine ⟨some values, ?_, rfl, fun other hother ↦ ?_⟩
    · have hcharge := decodes_chargeElements hcount
      have hverify : Decodes (decoder.verifyPrimaryColumn array)
          (decoder.layout.metadata.rowCount * 8) values := by
        rw [← hfits.len, BlockDecoder.verifyPrimaryColumn]
        refine (hcharge.bind (.lift_bind hread ?_)).congr (Nat.add_zero _)
        exact .lift_bind (checkPrimaryValues_eq_ok.mpr hconfirmed) (Metered.costs_pure values)
      have hsource : selection.sourceSchema.columns[index]? = some column := by
        rw [hselection.source, hcolumn]
      have hdecoded : arrays[index]?.join = some array := by
        rw [harrays index hcase, harray]
        rfl
      rw [BlockDecoder.primaryValues, hcase]
      exact .lift_bind (okOr_eq_ok.mpr hsource) (.lift_bind (okOr_eq_ok.mpr hdecoded)
        (hverify.map some))
    · cases hother
      exact ⟨array, values, harray, rfl, hread, hconfirmed⟩

/-- **Any selection of the columns of a block is decoded**, at the cost of its columns. -/
theorem block_decodes (hselection : selection.Of schema) :
    ∃ decoded, Decodes (decoder.block selection)
        (selection.cost costAt decoder.layout.metadata.rowCount) decoded ∧
      DecodedAs arrayAt decoder.layout.metadata selection decoded := by
  have hprimary (index : ℕ) (hindex : index ∈ selection.primary) :
      index ∈ selection.positions ∧ index < schema.columns.length := by
    obtain ⟨column, -, -, hcolumn, -⟩ := getElem?_primaryIndex (hselection.primary index hindex)
    refine ⟨?_, (List.getElem?_eq_some_iff.mp hcolumn).1⟩
    by_cases hmem : index ∈ selection.selected
    · exact List.mem_append_left _ hmem
    · refine List.mem_append_right _ (Option.mem_toList.mpr ?_)
      exact Option.mem_filter_iff.mpr ⟨hindex, decide_eq_true hmem⟩
  have hinside (index : ℕ) (hindex : index ∈ selection.positions) :
      index < schema.columns.length := by
    rcases List.mem_append.mp hindex with hmem | hmem
    · exact hselection.inside index hmem
    · exact (hprimary index (Option.mem_filter_iff.mp (Option.mem_toList.mp hmem)).1).2
  have hfold (indices : List ℕ) (hmem : ∀ index ∈ indices, index ∈ selection.positions)
      (arrays : BlockDecoder.Arrays) :=
    Metered.Costs.foldlM (fun index hindex arrays ↦
      h.decodeInto_decodes (hinside index (hmem index hindex)) arrays) arrays
  -- Both loops together put each column into its position.
  have hfinal (index : ℕ) (hindex : index ∈ selection.positions) :
      (selection.positions.foldl (fun arrays index ↦
        arrays.set index (arrayAt index))
          (List.replicate schema.columns.length none))[index]? =
            some (arrayAt index) := by
    rw [getElem?_foldl_set _ _ _ _ (by rw [List.length_replicate]; exact hinside index hindex),
      if_pos hindex]
  generalize hdone : selection.positions.foldl (fun arrays index ↦
    arrays.set index (arrayAt index)) (List.replicate schema.columns.length none) =
      final at hfinal
  rw [Selection.positions, List.foldl_append] at hdone
  obtain ⟨primaryValues, hvalues, hsome, hread⟩ := h.primaryValues_decodes hselection
    fun index hindex ↦ hfinal index (hprimary index hindex).1
  have hselected (index : ℕ) (hindex : index ∈ selection.selected) :
      final[index]?.join = arrayAt index := by
    rw [hfinal index (List.mem_append_left _ hindex), Option.join_some]
  have htaken : BlockDecoder.takeArrays selection.selected final =
      .ok (selection.selected.filterMap (arrayAt)) := by
    rw [takeArrays_eq hselection.nodup, List.filterMap_congr hselected]
    intro index hindex
    obtain ⟨array, harray, -, -⟩ :=
      h.column (List.getElem?_eq_getElem (hselection.inside index hindex))
    rw [hselected index hindex, harray]
    rfl
  have hfits := h.fits hselection.inside
  rw [← hselection.output] at hfits
  have hcheck : BlockDecoder.checkSelection selection = .ok () := by
    rw [BlockDecoder.checkSelection, hselection.source]
    refine bind_eq_ok.mpr ⟨(), failIf_neg ?_, failIf_neg ?_⟩
    · rintro ⟨index, hindex, hle⟩
      exact absurd (hselection.inside index hindex) (by omega)
    · rintro ⟨index, hindex, hle⟩
      exact absurd (hprimary index hindex).2 (by omega)
  have hfirst := hfold selection.selected (fun _ ↦ List.mem_append_left _)
    (List.replicate schema.columns.length none)
  have hsecond := hfold (selection.primary.filter fun index ↦ index ∉ selection.selected).toList
    (fun _ ↦ List.mem_append_right _) (selection.selected.foldl (fun arrays index ↦
      arrays.set index (arrayAt index)) (List.replicate schema.columns.length none))
  rw [hdone] at hsecond
  have hbatch := RecordBatch.tryNew_of_fits hfits
  refine ⟨⟨⟨_, _, _, hfits⟩, primaryValues,
    primaryValues.isSome && decoder.layout.metadata.tsSorted⟩, ?_, ?_⟩
  · refine .lift_bind (h.rowCount_eq) (.lift_bind hcheck ?_)
    rw [hselection.source]
    have hlift : Decodes (liftM (RecordBatch.tryNew selection.outputSchema
        (selection.selected.filterMap (arrayAt)) decoder.layout.metadata.rowCount)) 0
          ⟨_, _, _, hfits⟩ := Metered.costs_lift hbatch
    have houtput := hlift.map fun batch ↦ DecodedBlock.mk batch primaryValues
      (primaryValues.isSome && decoder.layout.metadata.tsSorted)
    refine (hfirst.bind (hsecond.bind (hvalues.bind (.lift_bind htaken houtput)))).congr ?_
    rw [Selection.cost, Selection.positions, List.map_append, List.sum_append]
    omega
  · refine ⟨rfl, rfl, rfl, hread, fun hnone ↦ ?_, ?_⟩
    · rwa [hnone, Option.isSome_none, Option.isSome_eq_false_iff, Option.isNone_iff_eq_none]
        at hsome
    · rw [← hsome]

end Yields

/-! ### What a full decode yields -/

section Inversion

variable {decoder : BlockDecoder} {schema : Schema} {rowCount : ℕ}

/-- The array that a column is decoded into, if it is. -/
def outcomeAt (decoder : BlockDecoder) (schema : Schema) (rowCount index : ℕ) :
    Option LogicalArray :=
  (decoder.decodedColumn schema index rowCount).outcome.toOption

theorem outcomeAt_eq_some {index : ℕ} {array : LogicalArray} :
    decoder.outcomeAt schema rowCount index = some array ↔
      (decoder.decodedColumn schema index rowCount).outcome = .ok array := by
  rw [outcomeAt]
  cases (decoder.decodedColumn schema index rowCount).outcome with
  | error e => exact iff_of_false (fun h ↦ by cases h) fun h ↦ by cases h
  | ok found => exact ⟨fun h ↦ congrArg Except.ok (Option.some.inj h), fun h ↦ by cases h; rfl⟩

/-- A loop over columns that succeeds has decoded each of them into its position. -/
theorem foldlM_decodeInto {indices : List ℕ} {arrays last : Arrays}
    (h : (indices.foldlM (decoder.decodeInto schema rowCount) arrays).outcome = .ok last) :
    (∀ index ∈ indices, ∃ array, decoder.outcomeAt schema rowCount index = some array) ∧
      last = indices.foldl (fun arrays index ↦
        arrays.set index (decoder.outcomeAt schema rowCount index)) arrays := by
  induction indices generalizing arrays with
  | nil =>
    cases h
    exact ⟨fun _ hindex ↦ absurd hindex List.not_mem_nil, rfl⟩
  | cons index indices ih =>
    rw [List.foldlM_cons] at h
    obtain ⟨next, hnext, h⟩ := Metered.outcome_bind_eq_ok.mp h
    obtain ⟨array, harray, hset⟩ := Metered.outcome_bind_eq_ok.mp hnext
    cases hset
    obtain ⟨hall, rfl⟩ := ih h
    have hsome := outcomeAt_eq_some.mpr harray
    refine ⟨List.forall_mem_cons.mpr ⟨⟨array, hsome⟩, hall⟩, ?_⟩
    rw [List.foldl_cons, hsome]

/-- What a block decode that succeeds has done. -/
structure Decoded (decoder : BlockDecoder) (schema : Schema) (selected : List ℕ)
    (primary : Option ℕ) (outputs : List LogicalArray) (arrays : Arrays) : Prop where
  rowCount_le : decoder.layout.metadata.rowCount ≤ decoder.limits.maxRowsPerBlock
  columns : ((selected ++ (primary.filter fun index ↦ index ∉ selected).toList).foldlM
    (decoder.decodeInto schema decoder.layout.metadata.rowCount)
      (List.replicate schema.columns.length none)).outcome = .ok arrays
  primary : ∀ index ∈ primary, ∃ array values, arrays[index]?.join = some array ∧
    array.len * 8 ≤ u64Max ∧ array.rows.mapM primaryValue = .ok values ∧
      decoder.layout.metadata.Confirmed values
  outputs : takeArrays selected arrays = .ok outputs

/-- **What a block decode that succeeds has done.** -/
theorem exists_decoded {selection : Selection} {decoded : DecodedBlock}
    (h : (decoder.block selection).outcome = .ok decoded) :
    ∃ outputs arrays, decoder.Decoded selection.sourceSchema selection.selected selection.primary
        outputs arrays ∧
      RecordBatch.tryNew selection.outputSchema outputs decoder.layout.metadata.rowCount =
        .ok decoded.batch := by
  obtain ⟨declared, hdeclared, h⟩ := Metered.outcome_bind_eq_ok.mp h
  obtain ⟨_, -, h⟩ := Metered.outcome_bind_eq_ok.mp h
  obtain ⟨first, hfirst, h⟩ := Metered.outcome_bind_eq_ok.mp h
  obtain ⟨arrays, harrays, h⟩ := Metered.outcome_bind_eq_ok.mp h
  obtain ⟨values, hvalues, h⟩ := Metered.outcome_bind_eq_ok.mp h
  obtain ⟨outputs, houtputs, h⟩ := Metered.outcome_bind_eq_ok.mp h
  obtain ⟨batch, hbatch, h⟩ := Metered.outcome_bind_eq_ok.mp h
  cases h
  obtain ⟨_, hlimit, hsame⟩ := bind_eq_ok.mp (show decoder.rowCount = .ok declared from hdeclared)
  cases hsame
  refine ⟨outputs, arrays, ⟨Nat.not_lt.mp (failIf_eq_ok.mp hlimit), ?_, fun index hindex ↦ ?_,
    houtputs⟩, hbatch⟩
  · rw [List.foldlM_append, Metered.outcome_bind_eq_ok]
    exact ⟨first, hfirst, harrays⟩
  · rw [primaryValues, show selection.primary = some index from hindex] at hvalues
    obtain ⟨_, -, hvalues⟩ := Metered.outcome_bind_eq_ok.mp hvalues
    obtain ⟨array, harray, hvalues⟩ := Metered.outcome_bind_eq_ok.mp hvalues
    obtain ⟨found, hverify, -⟩ := Metered.outcome_bind_eq_ok.mp hvalues
    obtain ⟨_, hcharge, hverify⟩ := Metered.outcome_bind_eq_ok.mp hverify
    obtain ⟨found', hread, hverify⟩ := Metered.outcome_bind_eq_ok.mp hverify
    obtain ⟨_, hcheck, hsame⟩ := Metered.outcome_bind_eq_ok.mp hverify
    cases hsame
    obtain ⟨_, hbytes, -⟩ := Metered.outcome_bind_eq_ok.mp hcharge
    have hcount := (checkedMul_eq_some.mp (okOr_eq_ok.mp hbytes)).1
    exact ⟨array, found, okOr_eq_ok.mp harray, hcount, hread, checkPrimaryValues_eq_ok.mp hcheck⟩

/-- **A full decode yields its columns.** -/
theorem exists_yields {decoded : DecodedBlock}
    (h : (decoder.block (Selection.all schema (List.range schema.columns.length))).outcome =
      .ok decoded) :
    ∃ arrayAt costAt, decoder.Yields schema arrayAt costAt := by
  obtain ⟨outputs, arrays, hdecoded, hbatch⟩ := exists_decoded h
  change decoder.Decoded schema (List.range schema.columns.length) (primaryIndex schema) outputs
    arrays at hdecoded
  -- The primary column is among the columns, so nothing is decoded besides them.
  have hinternal : (primaryIndex schema).filter
      (fun index ↦ index ∉ List.range schema.columns.length) = none := by
    refine Option.filter_eq_none_iff.mpr fun index hindex ↦ ?_
    obtain ⟨_, _, _, hcolumn, -⟩ := getElem?_primaryIndex hindex
    simpa using (List.getElem?_eq_some_iff.mp hcolumn).1
  have hcolumns := hdecoded.columns
  rw [hinternal, Option.toList_none, List.append_nil] at hcolumns
  obtain ⟨hall, hset⟩ := foldlM_decodeInto hcolumns
  have hget (index : ℕ) (hindex : index < schema.columns.length) : arrays[index]?.join =
      decoder.outcomeAt schema decoder.layout.metadata.rowCount index := by
    rw [hset, getElem?_foldl_set _ _ _ _ (by rwa [List.length_replicate]),
      if_pos (List.mem_range.mpr hindex), Option.join_some]
  have houtputs := hdecoded.outputs
  rw [takeArrays_eq List.nodup_range fun index hindex ↦ by
      rw [hget index (List.mem_range.mp hindex)]
      obtain ⟨array, harray⟩ := hall index hindex
      rw [harray]
      rfl,
    List.filterMap_congr fun index hindex ↦ hget index (List.mem_range.mp hindex)] at houtputs
  have hfits := RecordBatch.fits_of_tryNew hbatch
  rw [← Except.ok.inj houtputs, Selection.of_all.output] at hfits
  refine ⟨decoder.outcomeAt schema decoder.layout.metadata.rowCount, fun index ↦
    Budget.charged (decoder.decodedColumn schema index decoder.layout.metadata.rowCount).spent,
    hdecoded.rowCount_le, fun {index column} hcolumn ↦ ?_, fun {index array} hindex harray ↦ ?_⟩
  · have hmem := List.mem_range.mpr (List.getElem?_eq_some_iff.mp hcolumn).1
    obtain ⟨array, harray⟩ := hall index hmem
    refine ⟨array, harray, fits_of_forall₂ (fun other hother ↦ ?_) hfits hmem hcolumn harray,
      decodes_of_outcome (outcomeAt_eq_some.mp harray)⟩
    obtain ⟨found, hfound⟩ := hall other hother
    exact ⟨_, found, List.getElem?_eq_getElem (List.mem_range.mp hother), hfound⟩
  · obtain ⟨found, values, hfound, hcount, hread, hconfirmed⟩ := hdecoded.primary index hindex
    obtain ⟨_, _, _, hcolumn, -⟩ := getElem?_primaryIndex hindex
    rw [hget index (List.getElem?_eq_some_iff.mp hcolumn).1, harray] at hfound
    cases hfound
    exact ⟨hcount, values, hread, hconfirmed⟩

end Inversion

end BlockDecoder

end Acta
