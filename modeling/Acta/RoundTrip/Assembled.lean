import Acta.RoundTrip.DataFrame
import Acta.Write.Sizing

/-!
# What an assembled block is made of

A block is assembled column by column, and the streams of each column are laid out at the end of the
payload.  `AssembledFrom` says what has come of it: each column holds the encoding of its rows, its
streams stand in the payload where they say (`LaidOut`) and in the stream table where the column
says, and no stream begins before the one ahead of it ends.  Every step keeps this
(`AssembledFrom.assembleColumn`).
-/

namespace Acta

open Machine Wire

namespace Write

/-! ### The payload -/

/-- A stored stream stands in the payload where its descriptor says. -/
structure LaidOut (payload : Bytes) (pending : StoredStream) (stream : EncodedStream) : Prop where
  kind : stream.kind = pending.kind
  transform : stream.transform = pending.transform
  elementCount : stream.elementCount = pending.elementCount
  storedLength : stream.storedLength = pending.stored.length
  transformedLength : stream.transformedLength = pending.transformedLength
  crc : stream.crc = checksum pending.stored
  aligned : stream.payloadOffset % frameAlignment = 0
  held : HoldsAt payload stream.payloadOffset pending.stored

/-- A stream that begins where the one ahead of it has ended, and behind where it began. -/
def Follows (earlier later : EncodedStream) : Prop :=
  earlier.payloadOffset < later.payloadOffset ∧
    earlier.payloadOffset + earlier.storedLength ≤ later.payloadOffset

/-- Streams that lie one behind the other in a part of the payload. -/
structure InOrder (low high : ℕ) (streams : List EncodedStream) : Prop where
  pairwise : streams.Pairwise Follows
  inside : ∀ stream ∈ streams, low ≤ stream.payloadOffset ∧ stream.payloadOffset < high ∧
    stream.payloadOffset + stream.storedLength ≤ high

theorem LaidOut.append {payload : Bytes} {pending : StoredStream} {stream : EncodedStream}
    (h : LaidOut payload pending stream) (more : Bytes) :
    LaidOut (payload ++ more) pending stream :=
  { h with held := h.held.append_right more }

theorem InOrder.append {low middle high : ℕ} {first rest : List EncodedStream}
    (h : InOrder low middle first) (h' : InOrder middle high rest) (hlow : low ≤ middle)
    (hhigh : middle ≤ high) : InOrder low high (first ++ rest) := by
  refine ⟨List.pairwise_append.mpr
    ⟨h.pairwise, h'.pairwise, fun earlier hearlier later hlater ↦ ?_⟩,
    fun stream hstream ↦ ?_⟩
  · obtain ⟨-, hstart, hstop⟩ := h.inside earlier hearlier
    obtain ⟨hlater, -⟩ := h'.inside later hlater
    exact ⟨hstart.trans_le hlater, hstop.trans hlater⟩
  · rcases List.mem_append.mp hstream with hmem | hmem
    · obtain ⟨hge, hlt, hle⟩ := h.inside stream hmem
      exact ⟨hge, hlt.trans_le hhigh, hle.trans hhigh⟩
    · obtain ⟨hge, hlt, hle⟩ := h'.inside stream hmem
      exact ⟨hlow.trans hge, hlt, hle⟩

/-- A stream laid out fills the payload up to its end. -/
theorem appendStream_payload (pending : StoredStream) (payload : Bytes) :
    ∃ padding, (appendStream pending payload).2 = payload ++ (pending.stored ++ padding) := by
  rw [appendStream]
  dsimp only
  split
  · exact ⟨_, List.append_assoc _ _ _⟩
  · obtain ⟨padding, hpadding, -⟩ := padToAlignment_eq (payload ++ pending.stored)
    exact ⟨zeros padding, by rw [hpadding, List.append_assoc]⟩

/-- **One more stream is laid out** behind the payload. -/
theorem appendStream_laidOut (pending : StoredStream) {payload : Bytes}
    (haligned : payload.length % frameAlignment = 0) :
    LaidOut (appendStream pending payload).2 pending (appendStream pending payload).1 ∧
      InOrder payload.length (appendStream pending payload).2.length
        [(appendStream pending payload).1] := by
  obtain ⟨padding, hpayload⟩ := appendStream_payload pending payload
  have hlength := length_appendStream pending haligned
  have hsize : pending.stored.length ≤ streamSize pending.stored.length ∧
      0 < streamSize pending.stored.length := by
    rw [streamSize]
    omega
  refine ⟨⟨rfl, rfl, rfl, rfl, rfl, rfl, haligned, ?_⟩, List.pairwise_singleton _ _, ?_⟩
  · rw [hpayload, ← List.append_assoc]
    exact holdsAt_append_middle _ _ _
  · rw [List.forall_mem_singleton, hlength]
    show payload.length ≤ payload.length ∧ payload.length < _ ∧
      payload.length + pending.stored.length ≤ _
    omega

/-- **The streams of a column are laid out** one behind the other. -/
theorem appendStreams_laidOut (pending : List StoredStream) {payload : Bytes}
    (haligned : payload.length % frameAlignment = 0) :
    (∃ more, (appendStreams pending payload).2 = payload ++ more) ∧
      (appendStreams pending payload).2.length % frameAlignment = 0 ∧
        List.Forall₂ (LaidOut (appendStreams pending payload).2) pending
          (appendStreams pending payload).1 ∧
          InOrder payload.length (appendStreams pending payload).2.length
            (appendStreams pending payload).1 := by
  induction pending generalizing payload with
  | nil => exact ⟨⟨[], (List.append_nil _).symm⟩, haligned, .nil, .nil, by simp [appendStreams]⟩
  | cons first rest ih =>
    obtain ⟨hfirst, horder⟩ := appendStream_laidOut first haligned
    obtain ⟨padding, hpayload⟩ := appendStream_payload first payload
    have hlength := length_appendStream first haligned
    have hnext : (appendStream first payload).2.length % frameAlignment = 0 := by
      rw [frameAlignment] at haligned ⊢
      rw [hlength, streamSize]
      omega
    obtain ⟨⟨more, hmore⟩, hfinal, hrest, horders⟩ := ih hnext
    show (∃ more, (appendStreams rest (appendStream first payload).2).2 = payload ++ more) ∧
      (appendStreams rest (appendStream first payload).2).2.length % frameAlignment = 0 ∧
        List.Forall₂ (LaidOut (appendStreams rest (appendStream first payload).2).2) (first :: rest)
          ((appendStream first payload).1 ::
            (appendStreams rest (appendStream first payload).2).1) ∧
          InOrder payload.length (appendStreams rest (appendStream first payload).2).2.length
            ([(appendStream first payload).1] ++
              (appendStreams rest (appendStream first payload).2).1)
    refine ⟨⟨first.stored ++ padding ++ more, ?_⟩, hfinal, .cons ?_ hrest,
      horder.append horders ?_ ?_⟩
    · rw [hmore, hpayload, List.append_assoc]
    · rw [hmore]
      exact hfirst.append more
    · rw [hlength]
      exact Nat.le_add_right _ _
    · rw [hmore, List.length_append]
      exact Nat.le_add_right _ _

/-! ### The columns -/

section Columns

variable (zstd : Zstd) (schema : Schema) (rows : BlockRows) (options : WriterOptions)

/-- A column of the block, encoded from its rows, with its streams in the payload. -/
structure EncodedAs (payload : Bytes) (entry : Column × ℕ) (column : EncodedColumn)
    (selected : SelectedColumn) : Prop where
  columnId : column.columnId = entry.1.id
  parts : validateColumnParts entry.1 rows entry.2 = .ok ()
  layout : column.layout = selected.layout
  nullCount : column.nullCount = (validityBits rows entry.2).count false
  denseCount : column.denseCount = rows.rowCount - (validityBits rows entry.2).count false
  flags : column.flags = columnFlags entry.1
    (column.nullCount = 0 ∨ column.denseCount = 0) column.statistics.isSome
  nullCount_le : column.nullCount ≤ u32Max
  denseCount_le : column.denseCount ≤ u32Max
  statistics : generateStatistics entry.1 rows entry.2 (validityBits rows entry.2)
    options.statistics (schema.primaryColumnId = some entry.1.id) = .ok column.statistics
  selects : selectColumn zstd entry.1 rows entry.2 (validityBits rows entry.2) options =
    .ok selected
  streams : List.Forall₂ (LaidOut payload) selected.streams column.streams

/-- What has been assembled of the columns so far. -/
structure AssembledFrom (entries : List (Column × ℕ)) (assembly : BlockAssembly) : Prop where
  aligned : assembly.payload.length % frameAlignment = 0
  streamCount : assembly.streamCount = (assembly.columns.flatMap EncodedColumn.streams).length
  ordered : InOrder 0 assembly.payload.length (assembly.columns.flatMap EncodedColumn.streams)
  firstStream : ∀ before column after, assembly.columns = before ++ column :: after →
    column.firstStream = (before.flatMap EncodedColumn.streams).length
  columns : List.Forall₂ (fun entry column ↦ ∃ selected,
    EncodedAs zstd schema rows options assembly.payload entry column selected) entries
      assembly.columns

variable {zstd schema rows options}

theorem EncodedAs.append {payload : Bytes} {entry : Column × ℕ} {column : EncodedColumn}
    {selected : SelectedColumn}
    (h : EncodedAs zstd schema rows options payload entry column selected) (more : Bytes) :
    EncodedAs zstd schema rows options (payload ++ more) entry column selected :=
  { h with streams := h.streams.imp fun _ _ hlaid ↦ hlaid.append more }

theorem assembledFrom_nil : AssembledFrom zstd schema rows options [] {} where
  aligned := rfl
  streamCount := rfl
  ordered := ⟨.nil, by simp⟩
  firstStream before column after h := by simp at h
  columns := .nil

/-- **One more column is assembled** behind the others. -/
theorem AssembledFrom.assembleColumn {done : List (Column × ℕ)} {assembly next : BlockAssembly}
    (h : AssembledFrom zstd schema rows options done assembly) {entry : Column × ℕ}
    (hnext : assembleColumn zstd schema rows options assembly entry = .ok next) :
    AssembledFrom zstd schema rows options (done ++ [entry]) next := by
  obtain ⟨column, index⟩ := entry
  obtain ⟨encoded, hencoded, hnext⟩ := bind_eq_ok.mp hnext
  obtain ⟨_, -, hnext⟩ := bind_eq_ok.mp hnext
  obtain ⟨_, -, hnext⟩ := bind_eq_ok.mp hnext
  cases hnext
  obtain ⟨_, hparts, hencoded⟩ := bind_eq_ok.mp hencoded
  obtain ⟨statistics, hstatistics, hencoded⟩ := bind_eq_ok.mp hencoded
  obtain ⟨selected, hselected, hencoded⟩ := bind_eq_ok.mp hencoded
  obtain ⟨_, hnulls, hencoded⟩ := bind_eq_ok.mp hencoded
  obtain ⟨_, hdense, hencoded⟩ := bind_eq_ok.mp hencoded
  cases hencoded
  rw [failIf_eq_ok, not_lt] at hnulls hdense
  obtain ⟨⟨more, hmore⟩, haligned, hlaid, horder⟩ :=
    appendStreams_laidOut selected.streams h.aligned
  have hgrown : assembly.payload.length ≤ (appendStreams selected.streams
      assembly.payload).2.length := by
    rw [hmore, List.length_append]
    exact Nat.le_add_right _ _
  have hflat (last : EncodedColumn) : (assembly.columns ++ [last]).flatMap EncodedColumn.streams =
      assembly.columns.flatMap EncodedColumn.streams ++ last.streams := by
    rw [List.flatMap_append, List.flatMap_singleton]
  refine ⟨haligned, ?_, ?_, ?_, ?_⟩
  · dsimp only
    rw [hflat, List.length_append, h.streamCount]
  · dsimp only
    rw [hflat]
    exact h.ordered.append horder (Nat.zero_le _) hgrown
  · intro before last after hsplit
    dsimp only at hsplit
    -- The column is one of those before, or the one that has just been assembled.
    rcases List.eq_nil_or_concat after with rfl | ⟨rest, final, rfl⟩
    · obtain ⟨rfl, hlast⟩ := List.append_inj' hsplit rfl
      cases hlast
      exact h.streamCount
    · rw [List.concat_eq_append, ← List.cons_append, ← List.append_assoc] at hsplit
      obtain ⟨hsplit, -⟩ := List.append_inj' hsplit rfl
      exact h.firstStream before last rest hsplit
  · refine List.rel_append ?_ (.cons ⟨selected, rfl, hparts, rfl, rfl, rfl, rfl, hnulls, hdense,
      hstatistics, hselected, hlaid⟩ .nil)
    dsimp only
    rw [hmore]
    refine h.columns.imp fun _ _ hcolumn ↦ ?_
    obtain ⟨selected, hencoded⟩ := hcolumn
    exact ⟨selected, hencoded.append more⟩

/-- **What a block is made of** once all its columns are assembled. -/
theorem assembledFrom_of_foldlM {entries : List (Column × ℕ)} {assembly : BlockAssembly}
    (h : entries.foldlM (Write.assembleColumn zstd schema rows options) {} = .ok assembly) :
    AssembledFrom zstd schema rows options entries assembly := by
  have hrun (rest done : List (Column × ℕ)) (start : BlockAssembly)
      (hstart : AssembledFrom zstd schema rows options done start)
      (hrest : rest.foldlM (Write.assembleColumn zstd schema rows options) start = .ok assembly) :
      AssembledFrom zstd schema rows options (done ++ rest) assembly := by
    induction rest generalizing done start with
    | nil =>
      cases hrest
      rwa [List.append_nil]
    | cons entry rest ih =>
      rw [List.foldlM_cons] at hrest
      obtain ⟨next, hnext, hrest⟩ := bind_eq_ok.mp hrest
      rw [List.append_cons]
      exact ih _ _ (hstart.assembleColumn hnext) hrest
  exact hrun entries [] {} assembledFrom_nil h

end Columns

end Write

end Acta
