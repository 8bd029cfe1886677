import Acta.Read.Cost
import Acta.Read.Decode
import Acta.RoundTrip.Dense

/-!
# Reading a stream back

A stream stored in the payload is read back as the bytes the encoder made (`Delivers`), whatever
codec stands in between, and asks for as many decoded bytes as its descriptor says
(`StreamDescriptor.readCost`).
-/

namespace Acta

open Machine Wire

/-! ### Streams -/

/-- The decoded bytes reading a stream asks for: its stored bytes, and what they decompress to. -/
def StreamDescriptor.readCost (stream : StreamDescriptor) : ℕ :=
  if stream.codec = codecNone then stream.storedLength
  else stream.storedLength + stream.transformedLength

namespace BlockDecoder

variable (decoder : BlockDecoder)

/-- A stored stream stands where its descriptor says. -/
structure Placed (codec : WriterCodec) (stored : StoredStream) (stream : StreamDescriptor) :
    Prop where
  kind : stream.kind = stored.kind
  transform : stream.transform = stored.transform
  codec : stream.codec = Write.codecId codec
  storedLength : stream.storedLength = stored.stored.length
  transformedLength : stream.transformedLength = stored.transformedLength
  elementCount : stream.elementCount = stored.elementCount
  crc : stream.crc = checksum stored.stored
  elementCount_le : stream.elementCount ≤ decoder.limits.maxRowsPerBlock
  inFile : HoldsAt decoder.file (decoder.frame.payloadOffset + stream.payloadOffset) stored.stored
  inSnapshot : decoder.frame.payloadOffset + stream.payloadOffset + stored.stored.length ≤
    decoder.fileSize
  offset_le : decoder.frame.payloadOffset + stream.payloadOffset + stored.stored.length ≤ u64Max

/-- A stream is read back as the bytes of a candidate. -/
structure Delivers (candidate : Candidates.CandidateStream) (stream : StreamDescriptor) :
    Prop where
  kind : stream.kind = candidate.kind
  transform : stream.transform = candidate.transform
  elementCount : stream.elementCount = candidate.elementCount
  transformedLength : stream.transformedLength = candidate.bytes.length
  bytes : ∀ column, Decodes (decoder.streamBytes stream column) stream.readCost candidate.bytes

variable {decoder} {codec : WriterCodec} {stored : StoredStream} {stream : StreamDescriptor}

theorem Placed.streamExtent_eq (h : decoder.Placed codec stored stream) (column : Column) :
    decoder.streamExtent stream column =
      .ok (decoder.frame.payloadOffset + stream.payloadOffset) := by
  have hoffset := h.offset_le
  rw [streamExtent, failIf_neg (Nat.not_lt.mpr h.elementCount_le), ok_bind,
    checkedAdd_of_le (by omega), okOr, ok_bind, h.storedLength, checkedAdd_of_le hoffset, okOr,
    ok_bind, failIf_neg (Nat.not_lt.mpr h.inSnapshot), ok_bind, pure_eq_ok]

theorem Placed.storedBytes_eq (h : decoder.Placed codec stored stream) (column : Column) :
    decoder.storedBytes stream column (decoder.frame.payloadOffset + stream.payloadOffset) =
      .ok stored.stored := by
  have hread : readExactAt decoder.file (decoder.frame.payloadOffset + stream.payloadOffset)
      stream.storedLength = .ok stored.stored := by
    rw [h.storedLength, readExactAt_of_le h.inFile.fits, h.inFile.slice_eq]
  rw [storedBytes, hread, ok_bind, failIf_neg (by rw [h.crc, not_not]), ok_bind, pure_eq_ok]

/-- **A stored stream is read back** as the bytes that were stored. -/
theorem Placed.delivers (h : decoder.Placed codec stored stream)
    {candidate : Candidates.CandidateStream} {level : ℤ} (hzstd : decoder.zstd.RoundTrips)
    (hstore : Write.storeStream decoder.zstd codec level candidate = .ok stored) :
    decoder.Delivers candidate stream := by
  obtain ⟨bytes, hcompress, hstored⟩ := bind_eq_ok.mp hstore
  rw [pure_eq_ok, Except.ok.injEq] at hstored
  have hlength : stream.transformedLength = candidate.bytes.length := by
    rw [h.transformedLength, ← hstored]
  refine ⟨by rw [h.kind, ← hstored], by rw [h.transform, ← hstored],
    by rw [h.elementCount, ← hstored], hlength, fun column ↦ ?_⟩
  have hread := h.storedBytes_eq column
  have hbytes : stored.stored = bytes := by rw [← hstored]
  rw [hbytes] at hread
  cases codec with
  | none =>
    obtain rfl : candidate.bytes = bytes := Except.ok.inj hcompress
    have hcodec : stream.codec = codecNone := h.codec
    have hcost : stream.readCost = stream.storedLength + (0 + 0) := if_pos hcodec
    rw [hcost, streamBytes]
    refine .lift_bind (h.streamExtent_eq column) (.bind (decodes_charge _) (.lift_bind hread ?_))
    rw [if_pos hcodec]
    exact .bind (decodes_recordStream _) (Metered.costs_pure _)
  | zstandard =>
    have hcodec : stream.codec = codecZstd := h.codec
    have hnot : ¬stream.codec = codecNone := by rw [hcodec]; decide
    have hcost : stream.readCost =
        stream.storedLength + (stream.transformedLength + (0 + 0)) := if_neg hnot
    have hdecompress : (Read.decompress decoder.zstd stream.codec bytes
        stream.transformedLength).withMessagePrefix s!"column {column.name}" =
          .ok candidate.bytes := by
      have hinverse : decoder.zstd.decompressToBuffer bytes candidate.bytes.length =
          .ok candidate.bytes := by
        refine hzstd level _ _ ?_
        simp only [Write.compressStream, Write.compressZstd] at hcompress
        cases hresult : decoder.zstd.compress level candidate.bytes with
        | error message => rw [hresult] at hcompress; cases hcompress
        | ok result =>
          rw [hresult] at hcompress
          cases hcompress
          rfl
      have hguard (error : Error) :
          failIf (candidate.bytes.length ≠ candidate.bytes.length) error = .ok () :=
        failIf_neg (by rw [not_not])
      rw [withMessagePrefix_eq_ok, Read.decompress, if_pos hcodec, hlength, Compression.zstd,
        hinverse]
      simp only [Except.mapError, ok_bind, hguard, pure_eq_ok]
    rw [hcost, streamBytes]
    refine .lift_bind (h.streamExtent_eq column) (.bind (decodes_charge _) (.lift_bind hread ?_))
    rw [if_neg hnot]
    exact .bind (decodes_charge _) (.lift_bind hdecompress
      (.bind (decodes_recordStream _) (Metered.costs_pure _)))

end BlockDecoder

/-! ### The streams of a column -/

/-- Exactly one of the streams is of a kind. -/
def Finds (streams : List StreamDescriptor) (kind : ℕ) (stream : StreamDescriptor) : Prop :=
  streams.filter (·.kind = kind) = [stream]

theorem Finds.kind_eq {streams : List StreamDescriptor} {kind : ℕ} {stream : StreamDescriptor}
    (h : Finds streams kind stream) : stream.kind = kind := by
  have hmem : stream ∈ streams.filter (·.kind = kind) := by
    rw [h]
    exact List.mem_singleton_self _
  simpa using (List.mem_filter.mp hmem).2

theorem Finds.requiredStream_eq {streams : List StreamDescriptor} {kind : ℕ}
    {stream : StreamDescriptor} (h : Finds streams kind stream) (column : Column) :
    Read.requiredStream streams kind column = .ok stream := by
  rw [Read.requiredStream, Read.findStream, h]
  rfl

theorem Finds.findStream_eq {streams : List StreamDescriptor} {kind : ℕ}
    {stream : StreamDescriptor} (h : Finds streams kind stream) (column : Column) :
    Read.findStream streams kind column = .ok (some stream) := by
  rw [Read.findStream, h]

theorem BlockDecoder.map_kind_of_forall₂ {decoder : BlockDecoder}
    {candidates : List Candidates.CandidateStream} {streams : List StreamDescriptor}
    (h : List.Forall₂ decoder.Delivers candidates streams) :
    streams.map (·.kind) = candidates.map (·.kind) := by
  induction h with
  | nil => rfl
  | cons hfirst _ ih => rw [List.map_cons, List.map_cons, ih, hfirst.kind]

/-- A kind that no candidate is of is not found. -/
theorem BlockDecoder.filter_kind_of_notMem {decoder : BlockDecoder}
    {candidates : List Candidates.CandidateStream} {streams : List StreamDescriptor}
    (h : List.Forall₂ decoder.Delivers candidates streams) {kind : ℕ}
    (hkind : kind ∉ candidates.map (·.kind)) : streams.filter (·.kind = kind) = [] := by
  rw [List.filter_eq_nil_iff]
  intro stream hstream hsame
  rw [← map_kind_of_forall₂ h] at hkind
  exact hkind (List.mem_map.mpr ⟨stream, hstream, by simpa using hsame⟩)

/-- Streams that deliver candidates of different kinds are found by their kinds. -/
theorem BlockDecoder.finds_of_forall₂ {decoder : BlockDecoder}
    {candidates : List Candidates.CandidateStream} {streams : List StreamDescriptor}
    (h : List.Forall₂ decoder.Delivers candidates streams)
    (hkinds : (candidates.map (·.kind)).Nodup) {candidate : Candidates.CandidateStream}
    (hmem : candidate ∈ candidates) :
    ∃ stream, Finds streams candidate.kind stream ∧ decoder.Delivers candidate stream := by
  induction h with
  | nil => cases hmem
  | @cons first head candidates streams hfirst hrest ih =>
    rw [List.map_cons, List.nodup_cons] at hkinds
    obtain ⟨hnot, hkinds⟩ := hkinds
    rcases List.mem_cons.mp hmem with rfl | hmem
    · refine ⟨head, ?_, hfirst⟩
      rw [Finds, List.filter_cons_of_pos (by simp [hfirst.kind]),
        filter_kind_of_notMem hrest hnot]
    · obtain ⟨stream, hfinds, hdelivers⟩ := ih hkinds hmem
      have hdifferent : first.kind ≠ candidate.kind := by
        intro hsame
        rw [hsame] at hnot
        exact hnot (List.mem_map_of_mem hmem)
      refine ⟨stream, ?_, hdelivers⟩
      rw [Finds, List.filter_cons_of_neg (by simpa [hfirst.kind] using hdifferent), hfinds]

end Acta
