import Acta.Lib.Ranking
import Acta.Write.Encode

/-!
# The adaptive selection

The adaptive policy prices the candidates of a table, materializes the two that are priced lowest,
and keeps the one that is stored in the fewest bytes, or the raw column when none saves the margin.
The table is a parameter here: the selection does not depend on the order it lists the encodings in
(`adaptiveColumnCandidateFrom_perm`).
-/

namespace Acta

open Machine Wire Candidates Ranking

namespace Write

/-! ### Any table of encodings -/

/-- The candidates of a table, with their prices. -/
def priced (table : List ValueEncoding) (logicalType : LogicalType) (values : PreparedValues)
    (profile : ValueProfile) (validity : Validity) (codec : WriterCodec) :
    List (ℕ × ValueEncoding) :=
  let offered := (table.filter (isValid · logicalType values profile)).filter fun candidate ↦
    ¬(candidate = .raw ∧ validity.transform = transformRaw)
  offered.filterMap fun candidate ↦
    (estimateColumnCandidate logicalType values profile candidate validity codec).map (·, candidate)

/-- The order of the shortlist: by price, and at one price by rank. -/
def order (entry : ℕ × ValueEncoding) : ℕ ×ₗ ℕ := toLex (entry.1, entry.2.rank)

/-- What one column keeps on choosing by: its cost, and at one cost its layout. -/
def merit (column : SelectedColumn) : ℕ ×ₗ ℕ := toLex (storedColumnCost column, column.layout)

section Zstandard

variable (zstd : Zstd)

/-- The adaptive selection over a table of encodings. -/
def adaptiveColumnCandidateFrom (table : List ValueEncoding) (column : Column) (rows : BlockRows)
    (index : ℕ) (validBits : List Bool) (codec : WriterCodec) (zstdLevel : ℤ) :
    Result SelectedColumn :=
  if validBits.count false = validBits.length then
    materializeSelected zstd columnLayoutPlain [] codec zstdLevel
  else do
    let dense := denseValues column rows index validBits
    let (prepared, profile) ← prepare column.logicalType dense
    let validity ← Validity.plan validBits codec
    let estimates := sorted order (priced table column.logicalType prepared profile validity codec)
    let raw ← rawColumnCandidate zstd column rows index validBits codec zstdLevel
    let rawCost := storedColumnCost raw
    let selected := (estimates.take 2).foldl (fun selected (_, candidate) ↦
      chooseCheaper rawCost selected
        (materializeCandidate zstd column.logicalType prepared profile validity codec zstdLevel
          candidate))
      (rawCost, raw)
    return selected.2

theorem shortlist_eq (logicalType : LogicalType) (values : PreparedValues) (profile : ValueProfile)
    (validity : Validity) (codec : WriterCodec) :
    shortlist logicalType values profile validity codec =
      sorted order
        (priced (supportedCandidates logicalType) logicalType values profile validity codec) := by
  rw [shortlist, sorted]
  congr 1
  funext a b
  refine decide_eq_decide.mpr ?_
  show _ ↔ toLex (a.1, a.2.rank) ≤ toLex (b.1, b.2.rank)
  rw [Prod.Lex.toLex_le_toLex]

/-- **The writer selects over its own table.** -/
theorem adaptiveColumnCandidate_eq (column : Column) (rows : BlockRows) (index : ℕ)
    (validBits : List Bool) (codec : WriterCodec) (zstdLevel : ℤ) :
    adaptiveColumnCandidate zstd column rows index validBits codec zstdLevel =
      adaptiveColumnCandidateFrom zstd (supportedCandidates column.logicalType) column rows index
        validBits codec zstdLevel := by
  rw [adaptiveColumnCandidate, adaptiveColumnCandidateFrom]
  simp only [shortlist_eq]

end Zstandard

/-! ### The shortlist -/

theorem rank_injective : Function.Injective ValueEncoding.rank := by
  intro left right h
  cases left <;> cases right <;> first | rfl | cases h

theorem nodup_supportedCandidates (logicalType : LogicalType) :
    (supportedCandidates logicalType).Nodup := by
  cases logicalType <;> simp [supportedCandidates]

section Priced

variable {table : List ValueEncoding} {logicalType : LogicalType} {values : PreparedValues}
variable {profile : ValueProfile} {validity : Validity} {codec : WriterCodec}

/-- No two prices of a table share price and rank. -/
theorem nodup_order (hnodup : table.Nodup) :
    ((priced table logicalType values profile validity codec).map order).Nodup := by
  rw [List.Nodup, List.pairwise_map, priced, List.pairwise_filterMap]
  refine ((hnodup.filter _).filter _).imp fun {left right} hne ↦ ?_
  intro a ha b hb horder
  obtain ⟨cost, -, rfl⟩ := Option.map_eq_some_iff.mp ha
  obtain ⟨other, -, rfl⟩ := Option.map_eq_some_iff.mp hb
  exact hne (rank_injective (congrArg (fun key ↦ (ofLex key).2) horder))

theorem priced_perm {other : List ValueEncoding} (hperm : table.Perm other) :
    (priced table logicalType values profile validity codec).Perm
      (priced other logicalType values profile validity codec) :=
  ((hperm.filter _).filter _).filterMap _

end Priced

/-! ### The choice -/

section Choice

variable (zstd : Zstd)

/-- A column that stays the margin below the raw one. -/
def Saves (rawCost : ℕ) (column : SelectedColumn) : Prop :=
  saturatingAdd (storedColumnCost column) (Validity.margin rawCost) ≤ rawCost

instance (rawCost : ℕ) (column : SelectedColumn) : Decidable (Saves rawCost column) :=
  inferInstanceAs (Decidable (_ ≤ _))

/-- The columns that are materialized at all. -/
def made (materialized : List (Result SelectedColumn)) : List SelectedColumn :=
  materialized.filterMap Except.toOption

/-- **Choosing is keeping the better column**, where failed candidates are discarded. -/
theorem foldl_chooseCheaper (rawCost : ℕ) (materialized : List (Result SelectedColumn))
    (start : SelectedColumn) :
    materialized.foldl (chooseCheaper rawCost) (storedColumnCost start, start) =
      (storedColumnCost ((made materialized).foldl (better (Saves rawCost) merit) start),
        (made materialized).foldl (better (Saves rawCost) merit) start) := by
  induction materialized generalizing start with
  | nil => rfl
  | cons first rest ih =>
    cases first with
    | error failure => exact ih start
    | ok column =>
      have hstep : chooseCheaper rawCost (storedColumnCost start, start) (.ok column) =
          (storedColumnCost (better (Saves rawCost) merit start column),
            better (Saves rawCost) merit start column) := by
        rw [chooseCheaper, better, merit, merit]
        simp only [Prod.Lex.toLex_lt_toLex]
        split
        case isTrue h =>
          rw [if_pos]
          exact h
        case isFalse h =>
          rw [if_neg]
          exact h
      rw [List.foldl_cons, hstep]
      exact ih _

/-- **The selection does not depend on the order of the table.** -/
theorem adaptiveColumnCandidateFrom_perm {table other : List ValueEncoding}
    (hperm : table.Perm other) (hnodup : table.Nodup) (column : Column) (rows : BlockRows)
    (index : ℕ) (validBits : List Bool) (codec : WriterCodec) (zstdLevel : ℤ) :
    adaptiveColumnCandidateFrom zstd table column rows index validBits codec zstdLevel =
      adaptiveColumnCandidateFrom zstd other column rows index validBits codec zstdLevel := by
  have hsorted : ∀ values profile validity,
      sorted order (priced table column.logicalType values profile validity codec) =
        sorted order (priced other column.logicalType values profile validity codec) :=
    fun values profile validity ↦ sorted_eq_of_perm (priced_perm hperm) (nodup_order hnodup)
  rw [adaptiveColumnCandidateFrom, adaptiveColumnCandidateFrom]
  simp only [hsorted]

/-- **What contends with the raw column**: a priced candidate that at most one other precedes, once
materialized, if its cost stays the margin below the raw one. -/
def Contends (column : Column) (rows : BlockRows) (index : ℕ) (validBits : List Bool)
    (codec : WriterCodec) (zstdLevel : ℤ) (rawCost : ℕ) (contender : SelectedColumn) : Prop :=
  ∃ values profile validity entry,
    prepare column.logicalType (denseValues column rows index validBits) = .ok (values, profile) ∧
      Validity.plan validBits codec = .ok validity ∧
        entry ∈ priced (supportedCandidates column.logicalType) column.logicalType values profile
          validity codec ∧
        preceding order (priced (supportedCandidates column.logicalType) column.logicalType values
          profile validity codec) entry < 2 ∧
        materializeCandidate zstd column.logicalType values profile validity codec zstdLevel
          entry.2 = .ok contender ∧
        storedColumnCost contender + Validity.margin rawCost ≤ rawCost

/-- A sum that saturates at its bound is the sum below the bound. -/
theorem saves_iff {rawCost : ℕ} {column : SelectedColumn} (hcost : rawCost < u64Max) :
    Saves rawCost column ↔ storedColumnCost column + Validity.margin rawCost ≤ rawCost := by
  rw [Saves, saturatingAdd, min_le_iff]
  omega

theorem Saves.of_le {rawCost : ℕ} {column : SelectedColumn}
    (h : storedColumnCost column + Validity.margin rawCost ≤ rawCost) : Saves rawCost column :=
  (Nat.min_le_left _ _).trans h

/-! ### Columns without a value -/

section AllNull

variable {column : Column} {rows : BlockRows} {index : ℕ} {validBits : List Bool}

theorem denseValues_eq_nil (hnull : ∀ valid ∈ validBits, valid = false) :
    denseValues column rows index validBits = [] := by
  rw [denseValues, List.map_eq_nil_iff, List.filter_eq_nil_iff]
  rintro ⟨position, valid⟩ hposition
  simp [hnull valid (List.of_mem_zip hposition).2]

/-- Nothing is priced where there is nothing to store. -/
theorem priced_eq_nil {table : List ValueEncoding} {logicalType : LogicalType}
    {values : PreparedValues} {profile : ValueProfile} {validity : Validity} {codec : WriterCodec}
    (h : prepare logicalType [] = .ok (values, profile)) :
    priced table logicalType values profile validity codec = [] := by
  obtain ⟨start, hstart, h⟩ := bind_eq_ok.mp h
  have hpair : (start, Candidates.profile start) = (values, profile) := Except.ok.inj h
  obtain ⟨rfl, rfl⟩ := Prod.mk.inj hpair
  have hcount : (Candidates.profile start).count = 0 := by
    cases logicalType with
    | fixedBinary byteWidth =>
      obtain ⟨-, -, hstart⟩ := bind_eq_ok.mp hstart
      cases hstart
      exact Nat.zero_div _
    | _ =>
      cases hstart
      first | rfl | exact Nat.zero_div _
  have hnone : table.filter (isValid · logicalType start (Candidates.profile start)) = [] := by
    rw [List.filter_eq_nil_iff]
    intro encoding _ hvalid
    have hinvalid : isValid encoding logicalType start (Candidates.profile start) = false :=
      if_pos hcount
    rw [hvalid] at hinvalid
    cases hinvalid
  rw [priced, hnone]
  rfl

/-- A column without a value is stored raw: as no stream at all. -/
theorem rawColumnCandidate_of_null (hnull : ∀ valid ∈ validBits, valid = false)
    (codec : WriterCodec) (zstdLevel : ℤ) :
    rawColumnCandidate zstd column rows index validBits codec zstdLevel =
      materializeSelected zstd columnLayoutPlain [] codec zstdLevel := by
  have himplicit : isImplicit validBits = true := by
    refine Bool.or_eq_true_iff.mpr (.inr (List.all_eq_true.mpr fun valid hvalid ↦ ?_))
    rw [hnull valid hvalid]
    rfl
  have hany : validBits.any id = false := by
    rw [List.any_eq_false]
    intro valid hvalid
    rw [hnull valid hvalid]
    decide
  rw [rawColumnCandidate, rawValueStreams, hany, if_neg (by decide), pure_eq_ok, ok_bind,
    rawValidityStreams, if_pos himplicit]
  rfl

end AllNull

/-! ### What is selected -/

theorem cost_le_of_merit_le {column other : SelectedColumn} (h : merit column ≤ merit other) :
    storedColumnCost column ≤ storedColumnCost other := by
  rcases Prod.Lex.toLex_le_toLex.mp h with hlt | ⟨heq, -⟩
  · exact hlt.le
  · exact heq.le

theorem mem_made {materialized : List (Result SelectedColumn)} {column : SelectedColumn} :
    column ∈ made materialized ↔ .ok column ∈ materialized := by
  rw [made, List.mem_filterMap]
  constructor
  · rintro ⟨result, hresult, hcolumn⟩
    cases result with
    | error failure => cases hcolumn
    | ok other =>
      cases hcolumn
      exact hresult
  · exact fun h ↦ ⟨_, h, rfl⟩

/-- **The adaptive selection never loses to raw, and is well defined.**  It is the same for every
order of the table.  What it selects costs no more than the raw column; it is the raw column, or one
that contends with it, which saves the margin; and nothing that contends is cheaper. -/
theorem adaptiveColumnCandidate_selects (column : Column) (rows : BlockRows) (index : ℕ)
    (validBits : List Bool) (codec : WriterCodec) (zstdLevel : ℤ) :
    (∀ table : List ValueEncoding, table.Perm (supportedCandidates column.logicalType) →
      adaptiveColumnCandidateFrom zstd table column rows index validBits codec zstdLevel =
        adaptiveColumnCandidate zstd column rows index validBits codec zstdLevel) ∧
      ∀ selected,
        adaptiveColumnCandidate zstd column rows index validBits codec zstdLevel = .ok selected →
          ∃ raw, rawColumnCandidate zstd column rows index validBits codec zstdLevel = .ok raw ∧
            storedColumnCost selected ≤ storedColumnCost raw ∧
            (storedColumnCost raw < u64Max → selected = raw ∨
              Contends zstd column rows index validBits codec zstdLevel (storedColumnCost raw)
                selected) ∧
            ∀ contender, Contends zstd column rows index validBits codec zstdLevel
                (storedColumnCost raw) contender →
              storedColumnCost selected ≤ storedColumnCost contender := by
  refine ⟨fun table hperm ↦ ?_, fun selected hselected ↦ ?_⟩
  · rw [adaptiveColumnCandidate_eq]
    exact adaptiveColumnCandidateFrom_perm zstd hperm
      (hperm.nodup_iff.mpr (nodup_supportedCandidates _)) column rows index validBits codec
      zstdLevel
  rw [adaptiveColumnCandidate_eq, adaptiveColumnCandidateFrom] at hselected
  by_cases hcount : validBits.count false = validBits.length
  · -- Without a value the raw column is the only one there is.
    rw [if_pos hcount] at hselected
    have hnull : ∀ valid ∈ validBits, valid = false :=
      fun valid hvalid ↦ (List.count_eq_length.mp hcount valid hvalid).symm
    refine ⟨selected, ?_, le_rfl, fun _ ↦ .inl rfl, ?_⟩
    · rw [rawColumnCandidate_of_null zstd hnull, hselected]
    · rintro contender ⟨values, profile, validity, entry, hprepare, -, hentry, -⟩
      rw [denseValues_eq_nil hnull] at hprepare
      rw [priced_eq_nil hprepare] at hentry
      cases hentry
  · rw [if_neg hcount] at hselected
    obtain ⟨⟨values, profile⟩, hprepare, hselected⟩ := bind_eq_ok.mp hselected
    obtain ⟨validity, hvalidity, hselected⟩ := bind_eq_ok.mp hselected
    obtain ⟨raw, hraw, hselected⟩ := bind_eq_ok.mp hselected
    let entries := priced (supportedCandidates column.logicalType) column.logicalType values profile
      validity codec
    have hentries : (entries.map order).Nodup :=
      nodup_order (nodup_supportedCandidates column.logicalType)
    let materialized := ((sorted order entries).take 2).map fun entry ↦
      materializeCandidate zstd column.logicalType values profile validity codec zstdLevel entry.2
    have hfold := foldl_chooseCheaper (storedColumnCost raw) materialized raw
    rw [List.foldl_map] at hfold
    have hresult : (made materialized).foldl (better (Saves (storedColumnCost raw)) merit) raw =
        selected := (congrArg Prod.snd hfold).symm.trans (Except.ok.inj hselected)
    -- The two lowest prices are those that at most one other precedes.
    have hmade : ∀ {contender}, contender ∈ made materialized ↔ ∃ entry,
        (entry ∈ entries ∧ preceding order entries entry < 2) ∧
          materializeCandidate zstd column.logicalType values profile validity codec zstdLevel
            entry.2 = .ok contender := by
      intro contender
      rw [mem_made, List.mem_map]
      simp only [mem_take_sorted_iff hentries]
    have hleast := @foldl_better_le _ _ _ (Saves (storedColumnCost raw)) _ merit (made materialized)
      raw
    have hcases := @foldl_better_mem _ _ _ (Saves (storedColumnCost raw)) _ merit
      (made materialized)
      raw
    rw [hresult] at hleast hcases
    obtain ⟨hle, hall⟩ := hleast
    refine ⟨raw, hraw, cost_le_of_merit_le hle, fun hbound ↦ ?_, ?_⟩
    · rcases hcases with hsame | ⟨hmem, hsaves⟩
      · exact .inl hsame
      · obtain ⟨entry, ⟨hentry, hfew⟩, hmaterialized⟩ := hmade.mp hmem
        exact .inr ⟨values, profile, validity, entry, hprepare, hvalidity, hentry, hfew,
          hmaterialized, (saves_iff hbound).mp hsaves⟩
    · rintro contender ⟨values', profile', validity', entry, hprepare', hvalidity', hentry, hfew,
        hmaterialized, hmargin⟩
      obtain ⟨rfl, rfl⟩ := Prod.mk.inj (Except.ok.inj (hprepare.symm.trans hprepare'))
      obtain rfl := Except.ok.inj (hvalidity.symm.trans hvalidity')
      exact cost_le_of_merit_le
        (hall contender (hmade.mpr ⟨entry, ⟨hentry, hfew⟩, hmaterialized⟩) (Saves.of_le hmargin))

end Choice

/-- Sixteen rows of one number. -/
def nines : BlockRows where
  chunks := [numbers (List.replicate 16 ⟨9, by decide⟩)]
  rowCount := 16

/-- A column of one number, sixteen times: an encoding contends, and is selected over raw. -/
theorem adaptiveColumnCandidate_selects_nines :
    let column := numberSchema.columns[0]
    let valid := List.replicate 16 true
    ∃ raw selected, rawColumnCandidate storingZstd column nines 0 valid .none 0 = .ok raw ∧
      adaptiveColumnCandidate storingZstd column nines 0 valid .none 0 = .ok selected ∧
        storedColumnCost raw = 176 ∧ storedColumnCost selected ≤ 56 ∧
          Contends storingZstd column nines 0 valid .none 0 176 selected := by
  intro column valid
  obtain ⟨raw, hraw, hcost⟩ : ∃ raw,
      rawColumnCandidate storingZstd column nines 0 valid .none 0 = .ok raw ∧
        storedColumnCost raw = 176 :=
    exists_ok_and (by decide +kernel) (by decide +kernel)
  obtain ⟨validity, hvalidity⟩ : ∃ validity, Validity.plan valid .none = .ok validity :=
    exists_eq_ok (by decide +kernel)
  obtain ⟨⟨values, profile⟩, hprepare, hcheapest⟩ : ∃ prepared,
      prepare column.logicalType (denseValues column nines 0 valid) = .ok prepared ∧
        ∀ validity ∈ (Validity.plan valid .none).toOption,
          let entries := priced (supportedCandidates column.logicalType) column.logicalType
            prepared.1 prepared.2 validity .none
          ∃ entry ∈ entries, preceding order entries entry < 2 ∧
            ∃ contender ∈ (materializeCandidate storingZstd column.logicalType prepared.1
              prepared.2 validity .none 0 entry.2).toOption, storedColumnCost contender = 56 :=
    exists_ok_and (by decide +kernel) (by decide +kernel)
  obtain ⟨entry, hentry, hfew, contender, hcontender, hcheap⟩ :=
    hcheapest validity (by rw [hvalidity]; rfl)
  have hmaterialized : materializeCandidate storingZstd column.logicalType values profile validity
      .none 0 entry.2 = .ok contender := mem_toOption.mp hcontender
  have hmargin : Validity.margin 176 = 64 := by decide +kernel
  have hcontends : Contends storingZstd column nines 0 valid .none 0 176 contender :=
    ⟨values, profile, validity, entry, hprepare, hvalidity, hentry, hfew, hmaterialized, by omega⟩
  obtain ⟨selected, hselected⟩ : ∃ selected,
      adaptiveColumnCandidate storingZstd column nines 0 valid .none 0 = .ok selected := by
    have hcount : ¬valid.count false = valid.length := by decide
    rw [adaptiveColumnCandidate, if_neg hcount]
    simp only [hprepare, hvalidity, hraw, ok_bind]
    exact ⟨_, rfl⟩
  obtain ⟨raw', hraw', -, hcases, hleast⟩ :=
    (adaptiveColumnCandidate_selects storingZstd column nines 0 valid .none 0).2 selected hselected
  obtain rfl : raw = raw' := Except.ok.inj (hraw.symm.trans hraw')
  rw [hcost] at hcases hleast
  have hle : storedColumnCost selected ≤ 56 := hcheap ▸ hleast contender hcontends
  refine ⟨raw, selected, hraw, hselected, hcost, hle, ?_⟩
  rcases hcases (by decide) with rfl | hselected'
  · omega
  · exact hselected'

end Write

end Acta
