import Acta.Write.Buffer

/-!
# The price of a block never falls

A row adds to the counters of every column, and no part of the price is smaller for larger counters:
a stream that was there stays, an implicit validity can only become an explicit one, and statistics
that were reserved stay reserved.  The arithmetic saturates, which keeps the order.
-/

namespace Acta

open Machine Wire

/-! ### Saturating arithmetic -/

theorem saturatingAdd_mono {a a' b b' : ℕ} (ha : a ≤ a') (hb : b ≤ b') :
    saturatingAdd a b ≤ saturatingAdd a' b' := min_le_min_right _ (Nat.add_le_add ha hb)

theorem saturatingMul_mono {a a' b b' : ℕ} (ha : a ≤ a') (hb : b ≤ b') :
    saturatingMul a b ≤ saturatingMul a' b' := min_le_min_right _ (Nat.mul_le_mul ha hb)

/-- Larger summands make a larger saturating sum. -/
theorem foldl_saturatingAdd_mono {α β : Type} {left : α → ℕ} {right : β → ℕ} {xs : List α}
    {ys : List β} (h : List.Forall₂ (fun x y ↦ left x ≤ right y) xs ys) {start start' : ℕ}
    (hstart : start ≤ start') :
    xs.foldl (fun total x ↦ saturatingAdd total (left x)) start ≤
      ys.foldl (fun total y ↦ saturatingAdd total (right y)) start' := by
  induction h generalizing start start' with
  | nil => exact hstart
  | cons hfirst _ ih => exact ih (saturatingAdd_mono hstart hfirst)

/-! ### Counters -/

/-- No counter of one column is larger than that of another. -/
structure ColumnFootprint.AtMost (footprint other : ColumnFootprint) : Prop where
  denseCount : footprint.denseCount ≤ other.denseCount
  nullCount : footprint.nullCount ≤ other.nullCount
  variableBytes : footprint.variableBytes ≤ other.variableBytes

namespace ColumnFootprint

theorem AtMost.refl (footprint : ColumnFootprint) : footprint.AtMost footprint :=
  ⟨le_rfl, le_rfl, le_rfl⟩

theorem AtMost.trans {footprint other third : ColumnFootprint} (h : footprint.AtMost other)
    (h' : other.AtMost third) : footprint.AtMost third :=
  ⟨h.denseCount.trans h'.denseCount, h.nullCount.trans h'.nullCount,
    h.variableBytes.trans h'.variableBytes⟩

/-- **One more row counts for no less.** -/
theorem atMost_addRow (footprint : ColumnFootprint) (array : LogicalArray) (row : ℕ) :
    footprint.AtMost (footprint.addRow array row) := by
  rw [addRow]
  split
  · exact ⟨le_rfl, Nat.le_succ _, le_rfl⟩
  · exact ⟨Nat.le_succ _, le_rfl, Nat.le_add_right _ _⟩

/-- A validity that needs no stream needed none before. -/
theorem AtMost.implicit {footprint other : ColumnFootprint} (h : footprint.AtMost other)
    (himplicit : other.hasImplicitValidity = true) : footprint.hasImplicitValidity = true := by
  obtain ⟨hdense, hnull, -⟩ := h
  rw [hasImplicitValidity, decide_eq_true_eq] at himplicit ⊢
  omega

end ColumnFootprint

/-! ### Prices -/

namespace Write

theorem alignUp_mono {length length' : ℕ} (h : length ≤ length') :
    alignUp length ≤ alignUp length' :=
  Nat.mul_le_mul_right _ (Nat.div_le_div_right (saturatingAdd_mono h le_rfl))

theorem frameAlignment_le_alignUp {length : ℕ} (h : 0 < length) :
    frameAlignment ≤ alignUp length := by
  have hone : alignUp 1 = frameAlignment := by decide
  exact hone ▸ alignUp_mono h

theorem streamPayloadBytes_mono {length length' : ℕ} (h : length ≤ length') :
    streamPayloadBytes length ≤ streamPayloadBytes length' := by
  rw [streamPayloadBytes, streamPayloadBytes]
  split
  · split
    · exact le_rfl
    · exact frameAlignment_le_alignUp (Nat.pos_of_ne_zero ‹_›)
  · rw [if_neg (by omega)]
    exact alignUp_mono h

theorem bitmapBytes_mono {bits bits' : ℕ} (h : bits ≤ bits') :
    bitmapBytes bits ≤ bitmapBytes bits' :=
  Nat.div_le_div_right (Nat.add_le_add_right h _)

section Footprints

variable {footprint other : ColumnFootprint} {rows rows' : ℕ}

theorem valuesBytes_mono (logicalType : LogicalType) (h : footprint.AtMost other) :
    valuesBytes logicalType footprint ≤ valuesBytes logicalType other := by
  have hdense := h.denseCount
  cases logicalType with
  | bool => exact bitmapBytes_mono hdense
  | utf8 | categorical _ | binary => exact h.variableBytes
  | _ => exact saturatingMul_mono le_rfl hdense

theorem validitySize_mono (h : footprint.AtMost other) (hrows : rows ≤ rows') :
    (validitySize footprint rows).1 ≤ (validitySize other rows').1 ∧
      (validitySize footprint rows).2 ≤ (validitySize other rows').2 := by
  rw [validitySize, validitySize]
  split
  case isTrue => exact ⟨Nat.zero_le _, Nat.zero_le _⟩
  case isFalse hexplicit =>
    rw [if_neg fun himplicit ↦ hexplicit (h.implicit himplicit)]
    exact ⟨streamPayloadBytes_mono (bitmapBytes_mono hrows), le_rfl⟩

theorem valuesSize_of_ne_zero (column : Column) (h : footprint.denseCount ≠ 0) :
    valuesSize column footprint =
      if isVariableWidth column.logicalType then
        (saturatingAdd (streamPayloadBytes (valuesBytes column.logicalType footprint))
          (streamPayloadBytes (saturatingMul lengthEntryBytes footprint.denseCount)), 2)
      else (streamPayloadBytes (valuesBytes column.logicalType footprint), 1) := if_neg h

theorem valuesSize_mono (column : Column) (h : footprint.AtMost other) :
    (valuesSize column footprint).1 ≤ (valuesSize column other).1 ∧
      (valuesSize column footprint).2 ≤ (valuesSize column other).2 := by
  have hdense := h.denseCount
  have hvalues := streamPayloadBytes_mono (valuesBytes_mono column.logicalType h)
  by_cases hnone : footprint.denseCount = 0
  · rw [valuesSize, if_pos hnone]
    exact ⟨Nat.zero_le _, Nat.zero_le _⟩
  · rw [valuesSize_of_ne_zero column hnone, valuesSize_of_ne_zero column (by omega)]
    split
    · exact ⟨saturatingAdd_mono hvalues
        (streamPayloadBytes_mono (saturatingMul_mono le_rfl hdense)), le_rfl⟩
    · exact ⟨hvalues, le_rfl⟩

/-- What a column takes, in payload bytes and in streams. -/
theorem columnSize_mono (column : Column) (h : footprint.AtMost other) (hrows : rows ≤ rows') :
    (columnSize column footprint rows).1 ≤ (columnSize column other rows').1 ∧
      (columnSize column footprint rows).2 ≤ (columnSize column other rows').2 := by
  obtain ⟨hvalidity, hvalidityStreams⟩ := validitySize_mono h hrows
  obtain ⟨hvalues, hvaluesStreams⟩ := valuesSize_mono column h
  exact ⟨saturatingAdd_mono hvalidity hvalues, Nat.add_le_add hvalidityStreams hvaluesStreams⟩

/-- When statistics are reserved for a column. -/
theorem shouldReserveStatistics_iff (schema : Schema) (column : Column)
    (statistics : WriterStatistics) (footprint : ColumnFootprint) :
    shouldReserveStatistics schema column footprint statistics = true ↔
      footprint.denseCount ≠ 0 ∧ statisticsWidth column.logicalType ≠ 0 ∧
        (statistics = .minMax ∨ statistics = .automatic ∧
          schema.primaryColumnId ≠ some column.id ∧ 64 ≤ footprint.denseCount ∧
            saturatingMul (saturatingMul (statisticsWidth column.logicalType) 2) 8 ≤
              if column.logicalType = .bool then bitmapBytes footprint.denseCount
              else saturatingMul (statisticsWidth column.logicalType) footprint.denseCount) := by
  rw [shouldReserveStatistics.eq_def]
  cases statistics <;> simp [and_assoc]

/-- Statistics that were reserved stay reserved. -/
theorem shouldReserveStatistics_mono (schema : Schema) (column : Column)
    (statistics : WriterStatistics) (h : footprint.AtMost other)
    (hreserve : shouldReserveStatistics schema column footprint statistics = true) :
    shouldReserveStatistics schema column other statistics = true := by
  have hdense := h.denseCount
  rw [shouldReserveStatistics_iff] at hreserve ⊢
  obtain ⟨hsome, hwidth, hpolicy⟩ := hreserve
  refine ⟨by omega, hwidth, ?_⟩
  rcases hpolicy with hminMax | ⟨hautomatic, hprimary, hmany, hworth⟩
  · exact .inl hminMax
  · refine .inr ⟨hautomatic, hprimary, by omega, hworth.trans ?_⟩
    split
    · exact bitmapBytes_mono hdense
    · exact saturatingMul_mono le_rfl hdense

theorem statisticsReserve_mono (schema : Schema) (statistics : WriterStatistics) (column : Column)
    (h : footprint.AtMost other) :
    statisticsReserve schema statistics column footprint ≤
      statisticsReserve schema statistics column other := by
  rw [statisticsReserve, statisticsReserve]
  split
  case isTrue hreserve =>
    rw [if_pos (shouldReserveStatistics_mono schema column statistics h hreserve)]
  case isFalse => exact Nat.zero_le _

end Footprints

end Write

/-- One block is no larger than another in any part. -/
structure BlockSize.AtMost (size other : BlockSize) : Prop where
  headerBytes : size.headerBytes ≤ other.headerBytes
  payloadBytes : size.payloadBytes ≤ other.payloadBytes
  frameBytes : size.frameBytes ≤ other.frameBytes

namespace Write

theorem forall₂_zip {footprints others : List ColumnFootprint}
    (h : List.Forall₂ ColumnFootprint.AtMost footprints others) (columns : List Column) :
    List.Forall₂ (fun pair other ↦ pair.1 = other.1 ∧ pair.2.AtMost other.2)
      (columns.zip footprints) (columns.zip others) := by
  induction h generalizing columns with
  | nil =>
    rw [List.zip_nil_right]
    exact .nil
  | cons hfirst _ ih =>
    cases columns with
    | nil => exact .nil
    | cons column columns => exact .cons ⟨rfl, hfirst⟩ (ih columns)

/-- **The price of a block never falls** as its counters and its rows grow. -/
theorem blockSizeWithStatistics_mono (schema : Schema) {footprints others : List ColumnFootprint}
    (h : List.Forall₂ ColumnFootprint.AtMost footprints others) {rows rows' : ℕ}
    (hrows : rows ≤ rows') (statistics : WriterStatistics) :
    (blockSizeWithStatistics schema footprints rows statistics).AtMost
      (blockSizeWithStatistics schema others rows' statistics) := by
  have hpairs := forall₂_zip h schema.columns
  have hpayload : List.Forall₂ (fun pair other : Column × ColumnFootprint ↦
      (columnSize pair.1 pair.2 rows).1 ≤ (columnSize other.1 other.2 rows').1)
      (schema.columns.zip footprints) (schema.columns.zip others) :=
    hpairs.imp fun pair other hpair ↦ hpair.1 ▸ (columnSize_mono pair.1 hpair.2 hrows).1
  have hstreams : List.Forall₂ (fun pair other : Column × ColumnFootprint ↦
      (columnSize pair.1 pair.2 rows).2 ≤ (columnSize other.1 other.2 rows').2)
      (schema.columns.zip footprints) (schema.columns.zip others) :=
    hpairs.imp fun pair other hpair ↦ hpair.1 ▸ (columnSize_mono pair.1 hpair.2 hrows).2
  have hreserved : List.Forall₂ (fun pair other : Column × ColumnFootprint ↦
      statisticsReserve schema statistics pair.1 pair.2 ≤
        statisticsReserve schema statistics other.1 other.2)
      (schema.columns.zip footprints) (schema.columns.zip others) :=
    hpairs.imp fun pair other hpair ↦
      hpair.1 ▸ statisticsReserve_mono schema statistics pair.1 hpair.2
  have hpayloadBytes := foldl_saturatingAdd_mono hpayload (le_refl 0)
  have hstreamCount := foldl_saturatingAdd_mono hstreams (le_refl 0)
  have hreservedBytes := foldl_saturatingAdd_mono hreserved (le_refl 0)
  have haligned : ∀ {reserved reserved' : ℕ}, reserved ≤ reserved' →
      (if reserved ≠ 0 then alignUp reserved else 0) ≤
        if reserved' ≠ 0 then alignUp reserved' else 0 := by
    intro reserved reserved' hle
    split
    · rw [if_pos (by omega)]
      exact alignUp_mono hle
    · exact Nat.zero_le _
  have hheader : (blockSizeWithStatistics schema footprints rows statistics).headerBytes ≤
      (blockSizeWithStatistics schema others rows' statistics).headerBytes :=
    saturatingAdd_mono (saturatingAdd_mono le_rfl (saturatingMul_mono hstreamCount le_rfl))
      (haligned hreservedBytes)
  exact ⟨hheader, hpayloadBytes,
    saturatingAdd_mono (saturatingAdd_mono (saturatingAdd_mono le_rfl hheader) hpayloadBytes)
      le_rfl⟩

end Write

/-- **A block within the limits was within them before it grew.** -/
theorem BlockSize.AtMost.withinFormatLimits {size other : BlockSize} (h : size.AtMost other)
    {rows rows' : ℕ} (hrows : rows ≤ rows') (hwithin : other.withinFormatLimits rows' = true) :
    size.withinFormatLimits rows = true := by
  have hheader := h.headerBytes
  have hpayload := h.payloadBytes
  rw [BlockSize.withinFormatLimits, decide_eq_true_eq] at hwithin ⊢
  omega

end Acta
