import Acta.Format.DataFrame
import Mathlib.Data.List.Chain

/-!
# The stream table

What the checks over a block's stream table accept.  A range of stored bytes is legal when it ends
inside the payload and no two nonempty ranges share a byte; an empty range overlaps nothing.  The
check looks at neighbours in payload order only.  Since each range of that order ends before the
next one begins, neighbours speak for every pair, whatever order the sort gives to ranges that share
an offset.

The one thing it refuses beyond that is an empty range sorted behind a range that reaches past its
offset.

A projection defers the transform and codec checks of the streams it will not decode.  Which column
a stream belongs to is the first column of the table whose stream range covers it, while a column's
decoder takes every stream of the column's own range.  No check keeps these ranges apart, so the two
agree only where the table does.
-/

namespace Acta

open Machine Wire

namespace StreamDescriptor

/-- The end of the stored bytes. -/
def stop (stream : StreamDescriptor) : ℕ := stream.payloadOffset + stream.storedLength

/-- Two ranges share a byte, which takes two nonempty ranges. -/
def Overlaps (a b : StreamDescriptor) : Prop :=
  0 < a.storedLength ∧ 0 < b.storedLength ∧ a.payloadOffset < b.stop ∧ b.payloadOffset < a.stop

/-- An empty range lies before the end of a nonempty one. -/
def Reaches (a b : StreamDescriptor) : Prop :=
  0 < a.storedLength ∧ b.storedLength = 0 ∧ b.payloadOffset < a.stop

instance (a b : StreamDescriptor) : Decidable (a.Overlaps b) :=
  inferInstanceAs (Decidable (_ ∧ _))

instance (a b : StreamDescriptor) : Decidable (a.Reaches b) :=
  inferInstanceAs (Decidable (_ ∧ _))

theorem Overlaps.symm {a b : StreamDescriptor} (h : a.Overlaps b) : b.Overlaps a :=
  ⟨h.2.1, h.1, h.2.2.2, h.2.2.1⟩

/-- **What ending before the next range means.**  Of two ranges in payload order, the earlier one
ends where the later one begins or before it exactly when they do not overlap and the later one is
not an empty range the earlier one reaches past. -/
theorem stop_le_iff {a b : StreamDescriptor} (h : a.payloadOffset ≤ b.payloadOffset) :
    a.stop ≤ b.payloadOffset ↔ ¬a.Overlaps b ∧ ¬a.Reaches b := by
  simp only [Overlaps, Reaches, stop]
  omega

end StreamDescriptor

namespace DataFrame

open StreamDescriptor

variable {frame : FrameMetadata} {streams order : List StreamDescriptor}

/-! ### Disjoint ranges -/

/-- **What the format allows.**  Every range ends inside the payload and no two overlap. -/
structure LegalRanges (payloadLength : ℕ) (streams : List StreamDescriptor) : Prop where
  inside : ∀ stream ∈ streams, stream.stop ≤ u64Max ∧ stream.stop ≤ payloadLength
  disjoint : streams.Pairwise fun a b ↦ ¬a.Overlaps b

instance (payloadLength : ℕ) (streams : List StreamDescriptor) :
    Decidable (LegalRanges payloadLength streams) :=
  decidable_of_iff (_ ∧ _) ⟨fun h ↦ ⟨h.1, h.2⟩, fun h ↦ ⟨h.inside, h.disjoint⟩⟩

/-- An order the sort by payload offset may give: it is not stable, so ranges that share an offset
come in any order. -/
structure PayloadOrder (streams order : List StreamDescriptor) : Prop where
  perm : order.Perm streams
  sorted : order.Pairwise fun a b ↦ a.payloadOffset ≤ b.payloadOffset

/-- The range checks of a stream table, over the order its sort gave. -/
def validateStreamRangesIn (order streams : List StreamDescriptor) (frame : FrameMetadata) :
    Result Unit := do
  validateNeighbours frame order
  validateExtents frame streams

/-- The order of a stable sort is one of them. -/
theorem payloadOrder_mergeSort (streams : List StreamDescriptor) :
    PayloadOrder streams (streams.mergeSort fun a b ↦ a.payloadOffset ≤ b.payloadOffset) where
  perm := List.mergeSort_perm _ _
  sorted := by
    have h := @List.pairwise_mergeSort _
      (fun a b : StreamDescriptor ↦ decide (a.payloadOffset ≤ b.payloadOffset))
      (fun a b c hab hbc ↦ by simp only [decide_eq_true_eq] at *; omega)
      (fun a b ↦ by simp only [Bool.or_eq_true, decide_eq_true_eq]; omega) streams
    exact h.imp of_decide_eq_true

/-- The descriptor checks use the order of the model's sort. -/
theorem validateStreamRanges_eq (streams : List StreamDescriptor) (frame : FrameMetadata) :
    validateStreamRanges streams frame =
      validateStreamRangesIn (streams.mergeSort fun a b ↦ a.payloadOffset ≤ b.payloadOffset) streams
        frame := rfl

theorem validateExtents_eq_ok {u : Unit} :
    validateExtents frame streams = .ok u ↔
      ∀ stream ∈ streams, stream.stop ≤ u64Max ∧ stream.stop ≤ frame.payloadLength := by
  induction streams with
  | nil => simp [validateExtents]
  | cons stream rest ih =>
    rw [List.forall_mem_cons, ← ih]
    simp only [validateExtents, bind_eq_ok, okOr_eq_ok, checkedAdd_eq_some, failIf_eq_ok, stop]
    constructor
    · rintro ⟨_, ⟨hfits, rfl⟩, _, hinside, hrest⟩
      exact ⟨⟨hfits, Nat.le_of_not_lt hinside⟩, hrest⟩
    · rintro ⟨⟨hfits, hinside⟩, hrest⟩
      exact ⟨_, ⟨hfits, rfl⟩, (), Nat.not_lt_of_le hinside, hrest⟩

/-- Each range ends, without overflow, before the next one begins. -/
def Precedes (a b : StreamDescriptor) : Prop := a.stop ≤ u64Max ∧ a.stop ≤ b.payloadOffset

theorem Precedes.trans {a b c : StreamDescriptor} (hab : Precedes a b) (hbc : Precedes b c) :
    Precedes a c := by
  refine ⟨hab.1, ?_⟩
  have hb : b.payloadOffset ≤ b.stop := Nat.le_add_right _ _
  exact hab.2.trans (hb.trans hbc.2)

/-- **Neighbours speak for every pair**, since one range preceding the next is transitive. -/
theorem validateNeighbours_eq_ok {u : Unit} :
    validateNeighbours frame order = .ok u ↔ order.Pairwise Precedes := by
  have htrans : IsTrans StreamDescriptor Precedes := ⟨fun _ _ _ ↦ Precedes.trans⟩
  rw [← List.isChain_iff_pairwise]
  induction order with
  | nil => simp [validateNeighbours]
  | cons earlier rest ih =>
    cases rest with
    | nil => simp [validateNeighbours]
    | cons later rest =>
      rw [List.isChain_cons_cons]
      simp only [validateNeighbours, bind_eq_ok, okOr_eq_ok, checkedAdd_eq_some, failIf_eq_ok,
        Precedes, stop]
      constructor
      · rintro ⟨_, ⟨hfits, rfl⟩, _, hbefore, hrest⟩
        exact ⟨⟨hfits, Nat.le_of_not_lt hbefore⟩, ih.mp hrest⟩
      · rintro ⟨⟨hfits, hbefore⟩, hrest⟩
        exact ⟨_, ⟨hfits, rfl⟩, (), Nat.not_lt_of_le hbefore, ih.mpr hrest⟩

/-- In payload order, ranges that end inside the payload precede each other exactly when they are
legal and no empty one is reached past. -/
theorem pairwise_precedes_iff (h : PayloadOrder streams order)
    (hinside : ∀ stream ∈ streams, stream.stop ≤ u64Max ∧ stream.stop ≤ frame.payloadLength) :
    order.Pairwise Precedes ↔
      streams.Pairwise (fun a b ↦ ¬a.Overlaps b) ∧ order.Pairwise fun a b ↦ ¬a.Reaches b := by
  rw [← h.perm.pairwise_iff fun hab hba ↦ hab hba.symm, ← List.pairwise_and_iff]
  have hsorted := List.pairwise_and_iff.mpr ⟨h.sorted, List.pairwise_of_forall_mem_list
    (r := fun a _ : StreamDescriptor ↦ a.stop ≤ u64Max) fun a ha b _ ↦
      (hinside a (h.perm.mem_iff.mp ha)).1⟩
  constructor
  · intro hpairs
    refine (hpairs.and hsorted).imp fun hab ↦ ?_
    exact (stop_le_iff hab.2.1).mp hab.1.2
  · intro hpairs
    refine (hpairs.and hsorted).imp fun hab ↦ ?_
    exact ⟨hab.2.2, (stop_le_iff hab.2.1).mpr hab.1⟩

/-- **What the range checks accept**, whatever order the sort gives. -/
theorem validateStreamRangesIn_eq_ok {u : Unit} (h : PayloadOrder streams order) :
    validateStreamRangesIn order streams frame = .ok u ↔
      LegalRanges frame.payloadLength streams ∧ order.Pairwise fun a b ↦ ¬a.Reaches b := by
  rw [validateStreamRangesIn, bind_eq_ok]
  simp only [validateNeighbours_eq_ok, validateExtents_eq_ok]
  constructor
  · rintro ⟨_, hneighbours, hinside⟩
    obtain ⟨hdisjoint, hreaches⟩ := (pairwise_precedes_iff h hinside).mp hneighbours
    exact ⟨⟨hinside, hdisjoint⟩, hreaches⟩
  · rintro ⟨hlegal, hreaches⟩
    exact ⟨(), (pairwise_precedes_iff h hlegal.inside).mpr ⟨hlegal.disjoint, hreaches⟩,
      hlegal.inside⟩

/-- A range that reaches past an empty one with a larger offset is refused in every order. -/
theorem not_reaches_of_accepted {u : Unit} (h : PayloadOrder streams order)
    (haccepts : validateStreamRangesIn order streams frame = .ok u) {a b : StreamDescriptor}
    (ha : a ∈ streams) (hb : b ∈ streams) (hab : a.payloadOffset < b.payloadOffset) :
    ¬a.Reaches b := by
  have hpairs := (((validateStreamRangesIn_eq_ok h).mp haccepts).2.and h.sorted)
  let clear (a b : StreamDescriptor) : Prop := a.payloadOffset < b.payloadOffset → ¬a.Reaches b
  have hboth : order.Pairwise fun a b ↦ clear a b ∧ clear b a :=
    hpairs.imp fun hab ↦ ⟨fun _ ↦ hab.1, fun hlt ↦ absurd hlt (Nat.not_lt_of_le hab.2)⟩
  have hsymm : Std.Symm fun a b ↦ clear a b ∧ clear b a := ⟨fun _ _ h ↦ ⟨h.2, h.1⟩⟩
  have hself (a : StreamDescriptor) : clear a a := fun hlt ↦ absurd hlt (Nat.lt_irrefl _)
  have hall := hboth.forall_of_forall fun a _ ↦ ⟨hself a, hself a⟩
  exact (hall (h.perm.mem_iff.mpr ha) (h.perm.mem_iff.mpr hb)).1 hab

/-- Ranges that may come in either order can come in this one. -/
theorem exists_payloadOrder {a b : StreamDescriptor} (ha : a ∈ streams) (hb : b ∈ streams)
    (hne : a ≠ b) (hab : a.payloadOffset ≤ b.payloadOffset) :
    ∃ order, PayloadOrder streams order ∧ [a, b].Sublist order := by
  obtain ⟨before, after, rfl⟩ := List.append_of_mem ha
  have hb' : b ∈ before ++ after := by
    rcases List.mem_append.mp hb with hb | hb
    · exact List.mem_append_left _ hb
    · exact List.mem_append_right _ (List.mem_of_ne_of_mem (Ne.symm hne) hb)
  obtain ⟨front, back, hrest⟩ := List.append_of_mem hb'
  have hperm : (a :: b :: (front ++ back)).Perm (before ++ a :: after) := by
    refine (List.Perm.cons a ?_).trans List.perm_middle.symm
    rw [hrest]
    exact List.perm_middle.symm
  -- A stable sort keeps the pair in the order it came in.
  have hsorted := payloadOrder_mergeSort (a :: b :: (front ++ back))
  refine ⟨_, ⟨hsorted.perm.trans hperm, hsorted.sorted⟩, ?_⟩
  refine List.pair_sublist_mergeSort (fun a b c hab hbc ↦ ?_) (fun a b ↦ ?_)
    (decide_eq_true hab) (List.sublist_append_left [a, b] (front ++ back))
  · simp only [decide_eq_true_eq] at *
    omega
  · simp only [Bool.or_eq_true, decide_eq_true_eq]
    omega

/-- **Legal ranges are accepted unless an empty one is reached past.**  For each order the sort may
give, the checks accept exactly the legal ranges if and only if legality leaves no empty range
behind a range that reaches past its offset; and they do so for every order, hence whatever order
the table has, if and only if legal ranges hold no empty range inside a nonempty one. -/
theorem validateStreamRanges_legal (streams : List StreamDescriptor) (frame : FrameMetadata) :
    (∀ order, PayloadOrder streams order →
      ((validateStreamRangesIn order streams frame = .ok () ↔
          LegalRanges frame.payloadLength streams) ↔
        (LegalRanges frame.payloadLength streams → order.Pairwise fun a b ↦ ¬a.Reaches b))) ∧
      ((∀ order, PayloadOrder streams order →
          (validateStreamRangesIn order streams frame = .ok () ↔
            LegalRanges frame.payloadLength streams)) ↔
        (LegalRanges frame.payloadLength streams →
          ∀ a ∈ streams, ∀ b ∈ streams, a.payloadOffset ≤ b.payloadOffset → ¬a.Reaches b)) := by
  have heach : ∀ order, PayloadOrder streams order →
      ((validateStreamRangesIn order streams frame = .ok () ↔
          LegalRanges frame.payloadLength streams) ↔
        (LegalRanges frame.payloadLength streams → order.Pairwise fun a b ↦ ¬a.Reaches b)) := by
    intro order h
    rw [validateStreamRangesIn_eq_ok h]
    exact ⟨fun haccepts hlegal ↦ (haccepts.mpr hlegal).2,
      fun hreaches ↦ ⟨And.left, fun hlegal ↦ ⟨hlegal, hreaches hlegal⟩⟩⟩
  refine ⟨heach, fun haccepts hlegal a ha b hb hab hreach ↦ ?_, fun hinput order h ↦ ?_⟩
  · have hne : a ≠ b := by
      rintro rfl
      exact absurd hreach.2.1 (Nat.pos_iff_ne_zero.mp hreach.1)
    obtain ⟨order, h, hsub⟩ := exists_payloadOrder ha hb hne hab
    have hpairs := (heach order h).mp (haccepts order h) hlegal
    exact List.pairwise_pair.mp (hpairs.sublist hsub) hreach
  · refine (heach order h).mpr fun hlegal ↦ ?_
    refine (List.Pairwise.and_mem.mp h.sorted).imp fun hab ↦ ?_
    exact hinput hlegal _ (h.perm.mem_iff.mp hab.1) _ (h.perm.mem_iff.mp hab.2.1) hab.2.2

/-- Sixteen stored bytes, and an empty range that points at the second eight of them. -/
def reachedPast : List StreamDescriptor :=
  [{ kind := streamKindValues, transform := 0, codec := codecNone, payloadOffset := 0,
     storedLength := 16, transformedLength := 16, elementCount := 2, crc := 0 },
   { kind := streamKindLengths, transform := 0, codec := codecNone, payloadOffset := 8,
     storedLength := 0, transformedLength := 0, elementCount := 0, crc := 0 }]

/-- Legal, aligned ranges that every order of the sort refuses. -/
theorem validateStreamRanges_reachedPast :
    ∃ frame : FrameMetadata, LegalRanges frame.payloadLength reachedPast ∧
      (∀ stream ∈ reachedPast, stream.payloadOffset % frameAlignment = 0) ∧
        validateStreamRanges reachedPast frame ≠ .ok () ∧
          ∀ order, PayloadOrder reachedPast order →
            validateStreamRangesIn order reachedPast frame ≠ .ok () := by
  let frame : FrameMetadata :=
    { frameType := 2, sequence := 1, frameOffset := 0, headerOffset := 0, headerLength := 0,
      payloadOffset := 0, payloadLength := 16, totalLength := 16 }
  have hrefused : ∀ order, PayloadOrder reachedPast order →
      validateStreamRangesIn order reachedPast frame ≠ .ok () := by
    intro order h haccepts
    exact absurd (not_reaches_of_accepted h haccepts (List.mem_cons_self)
      (List.mem_cons_of_mem _ List.mem_cons_self) (by decide)) (not_not_intro (by decide))
  refine ⟨frame, by decide, by decide, ?_, hrefused⟩
  rw [validateStreamRanges_eq]
  exact hrefused _ (payloadOrder_mergeSort _)

/-! ### Deferred checks -/

/-- A stream this format version can decode: one that passes the transform and codec checks. -/
def Decodable (stream : StreamDescriptor) : Prop :=
  stream.transform ≤ transformBooleanRle ∧ (stream.codec = codecNone ∨ stream.codec = codecZstd)

instance (stream : StreamDescriptor) : Decidable (Decodable stream) :=
  inferInstanceAs (Decidable (_ ∧ _))

/-- The stream lies in the stream range of a selected column, so decoding that column reads it. -/
def InSelectedRange (columns : List ColumnBlockDescriptor) (selected : List UInt32) (index : ℕ) :
    Prop :=
  ∃ column ∈ columns, column.columnId ∈ selected ∧ column.firstStream ≤ index ∧
    index < column.firstStream + column.streamCount

instance (columns : List ColumnBlockDescriptor) (selected : List UInt32) (index : ℕ) :
    Decidable (InSelectedRange columns selected index) :=
  inferInstanceAs (Decidable (∃ column ∈ columns, _))

/-- The first column of the table whose stream range covers the stream is a selected one. -/
def FirstCoveredBySelected (columns : List ColumnBlockDescriptor) (selected : List UInt32)
    (index : ℕ) : Prop :=
  ∃ column, (columns.find? fun column ↦
    column.firstStream ≤ index ∧ index < column.firstStream + column.streamCount) = some column ∧
      column.columnId ∈ selected

variable {header : Bytes} {fields : BlockHeaderFields} {schema : Schema} {limits : Limits}
  {columns : List ColumnBlockDescriptor} {selected : List UInt32} {featureFlags : ℕ}
  {expectedBaseRowId : Option ℕ} {layout : BlockLayout}

/-- The checks of one stream descriptor that every read makes. -/
def Sound (stream : StreamDescriptor) (flags : ℕ) (limits : Limits) : Prop :=
  flags = 0 ∧ (streamKindValidity ≤ stream.kind ∧ stream.kind ≤ streamKindRunLengths) ∧
    stream.payloadOffset % frameAlignment = 0 ∧
      (stream.storedLength ≤ limits.maxFramePayloadLength ∧
        stream.transformedLength ≤ limits.maxFramePayloadLength) ∧
        (stream.codec = codecNone → stream.storedLength = stream.transformedLength)

section Stream

variable {stream : StreamDescriptor} {owners : StreamOwners} {flags offset index : ℕ} {u : Unit}

theorem ensureDecodable_eq_ok :
    ensureDecodable stream owners index frame = .ok u ↔
      (owners.isSelected index = true → Decodable stream) := by
  rw [ensureDecodable]
  split
  · simp only [bind_eq_ok, ensureTransform, ensureCodec, failIf_eq_ok, not_not, exists_const,
      Decodable, *, forall_const]
  · simp [*]

/-- The only way the deferred checks fail is as an unsupported frame. -/
theorem kind_of_ensureDecodable {e : Error}
    (h : ensureDecodable stream owners index frame = .error e) : e.kind = .unsupportedFrame := by
  rw [ensureDecodable] at h
  split at h
  · rw [ensureTransform] at h
    rcases bind_eq_error.mp h with h | ⟨_, -, h⟩
    · obtain ⟨-, rfl⟩ := failIf_eq_error.mp h
      rfl
    · obtain ⟨-, rfl⟩ := failIf_eq_error.mp h
      rfl
  · cases h

theorem validateStream_eq_ok :
    validateStream stream flags offset index owners frame limits = .ok u ↔
      Sound stream flags limits ∧ (owners.isSelected index = true → Decodable stream) := by
  simp only [validateStream, ensureStreamKind, bind_eq_ok, failIf_eq_ok, ensureDecodable_eq_ok,
    exists_const, Sound, not_not, not_or, Nat.not_lt, ne_eq, not_and]
  tauto

/-- A stream that passes the other checks fails only for its transform or codec. -/
theorem kind_of_validateStream (hsound : Sound stream flags limits) {e : Error}
    (h : validateStream stream flags offset index owners frame limits = .error e) :
    e.kind = .unsupportedFrame := by
  obtain ⟨hflags, hkind, halign, hlimits, hlengths⟩ := hsound
  have hover : ¬(limits.maxFramePayloadLength < stream.storedLength ∨
      limits.maxFramePayloadLength < stream.transformedLength) := by omega
  have hequal : ¬(stream.codec = codecNone ∧ stream.storedLength ≠ stream.transformedLength) :=
    fun h ↦ h.2 (hlengths h.1)
  rw [validateStream, failIf_neg (not_not_intro hflags), ok_bind, ensureStreamKind,
    failIf_neg (not_not_intro hkind), ok_bind] at h
  rcases bind_eq_error.mp h with h | ⟨_, -, h⟩
  · exact kind_of_ensureDecodable h
  · rw [failIf_neg (not_not_intro halign), ok_bind, failIf_neg hover, ok_bind,
      failIf_neg hequal] at h
    cases h

end Stream

/-! ### The tables of a header -/

/-- What the stream table of a header holds, whichever columns are selected: its descriptors lie in
the header and each passes the checks every read makes. -/
structure HoldsStreams (header : Bytes) (fields : BlockHeaderFields) (count : ℕ)
    (frame : FrameMetadata) (limits : Limits) (streams : List StreamDescriptor) : Prop where
  inside : count * blockStreamDescriptorSize ≤ u64Max ∧
    fields.streamTableOffset + count * blockStreamDescriptorSize ≤ u64Max ∧
      fields.streamTableOffset + count * blockStreamDescriptorSize ≤ header.length
  length : streams.length = count
  sound : ∀ index stream, streams[index]? = some stream →
    let offset := fields.streamTableOffset + index * blockStreamDescriptorSize
    ∃ flags, streamDescriptor.run' (Cursor.new (slice header offset blockStreamDescriptorSize)
      (frame.headerOffset + offset)) = .ok (stream, flags) ∧ Sound stream flags limits

/-- **What a stream table is accepted for**: what every read checks, and the transforms and codecs
of the streams that count as selected. -/
theorem parseStreams_eq_ok {count : ℕ} {owners : StreamOwners} :
    parseStreams header fields count frame limits owners = .ok streams ↔
      HoldsStreams header fields count frame limits streams ∧
        ∀ index stream, streams[index]? = some stream → owners.isSelected index = true →
          Decodable stream := by
  simp only [parseStreams, bind_eq_ok, okOr_eq_ok, checkedMul_eq_some, checkedAdd_eq_some,
    failIf_eq_ok, exists_const, mapM_range_eq_ok, validateStream_eq_ok, pure_eq_ok]
  constructor
  · rintro ⟨_, ⟨hmul, rfl⟩, _, ⟨hadd, rfl⟩, hinside, hlength, hall⟩
    refine ⟨⟨⟨hmul, hadd, Nat.le_of_not_lt hinside⟩, hlength, fun index stream h ↦ ?_⟩,
      fun index stream h hselected ↦ ?_⟩
    · obtain ⟨⟨_, flags⟩, hread, hvalid, hsame⟩ := hall index stream h
      cases hsame
      exact ⟨flags, hread, hvalid.1⟩
    · obtain ⟨⟨_, flags⟩, hread, hvalid, hsame⟩ := hall index stream h
      cases hsame
      exact hvalid.2 hselected
  · rintro ⟨hholds, hdecodable⟩
    obtain ⟨hmul, hadd, hinside⟩ := hholds.inside
    refine ⟨_, ⟨hmul, rfl⟩, _, ⟨hadd, rfl⟩, Nat.not_lt_of_le hinside, hholds.length,
      fun index stream h ↦ ?_⟩
    obtain ⟨flags, hread, hsound⟩ := hholds.sound index stream h
    exact ⟨(stream, flags), hread, ⟨hsound, hdecodable index stream h⟩, rfl⟩

/-- The descriptors are what the bytes of the table say. -/
theorem HoldsStreams.unique {count : ℕ} {streams' : List StreamDescriptor}
    (h : HoldsStreams header fields count frame limits streams)
    (h' : HoldsStreams header fields count frame limits streams') : streams = streams' := by
  refine List.ext_getElem (h.length.trans h'.length.symm) fun index hlt hlt' ↦ ?_
  obtain ⟨flags, hread, -⟩ := h.sound index _ (List.getElem?_eq_getElem hlt)
  obtain ⟨flags', hread', -⟩ := h'.sound index _ (List.getElem?_eq_getElem hlt')
  have hsame := hread.symm.trans hread'
  exact congrArg Prod.fst (Except.ok.inj hsame)

/-- A stream table that passes what every read checks is refused only for a transform or codec. -/
theorem kind_of_parseStreams {count : ℕ} {owners : StreamOwners}
    (hholds : HoldsStreams header fields count frame limits streams) {e : Error}
    (h : parseStreams header fields count frame limits owners = .error e) :
    e.kind = .unsupportedFrame := by
  obtain ⟨hmul, hadd, hinside⟩ := hholds.inside
  have hmul' : checkedMul count blockStreamDescriptorSize = some _ :=
    checkedMul_eq_some.mpr ⟨hmul, rfl⟩
  rw [parseStreams, hmul', okOr, ok_bind, checkedAdd_of_le hadd, okOr, ok_bind,
    failIf_neg (Nat.not_lt_of_le hinside), ok_bind] at h
  obtain ⟨index, hindex, h⟩ := exists_of_mapM_eq_error h
  have hlt : index < streams.length := by
    rw [hholds.length]
    exact List.mem_range.mp hindex
  obtain ⟨flags, hread, hsound⟩ := hholds.sound index _ (List.getElem?_eq_getElem hlt)
  simp only [hread, ok_bind] at h
  rcases bind_eq_error.mp h with h | ⟨_, -, h⟩
  · exact kind_of_validateStream hsound h
  · cases h

/-- The checks of a header that come before its stream table, with what they read. -/
structure HoldsColumns (header : Bytes) (frame : FrameMetadata) (schema : Schema)
    (featureFlags : ℕ) (expectedBaseRowId : Option ℕ) (limits : Limits)
    (fields : BlockHeaderFields) (metadata : DataFrameMetadata) (count : ℕ)
    (columns : List ColumnBlockDescriptor) : Prop where
  frameType : checkFrameType frame = .ok ()
  size : ¬header.length < dataBlockHeaderSize
  fixed : inHeader frame (parseHeader (header.take dataBlockHeaderSize) frame.headerOffset) =
    .ok fields
  block : checkBlockHeader fields frame schema featureFlags expectedBaseRowId = .ok metadata
  counted : streamCount fields frame = .ok count
  table : parseColumns header fields schema count frame limits = .ok columns

theorem HoldsColumns.parseLayout {metadata : DataFrameMetadata} {count : ℕ}
    (h : HoldsColumns header frame schema featureFlags expectedBaseRowId limits fields metadata
    count
      columns) (selectedColumnIds : Option (List UInt32)) :
    parseLayout header frame schema featureFlags expectedBaseRowId limits selectedColumnIds = (do
      let streams ← parseStreams header fields count frame limits
        { columns, schema, selectedColumnIds }
      validateStreamRanges streams frame
      return { metadata, columns, streams }) := by
  rw [DataFrame.parseLayout, h.frameType, ok_bind, failIf_neg h.size, ok_bind, h.fixed, ok_bind,
    h.block, ok_bind, h.counted, ok_bind, h.table, ok_bind]

/-- A header is accepted when its columns are, its streams are, and the ranges are. -/
theorem parseLayout_eq_ok {selectedColumnIds : Option (List UInt32)} :
    parseLayout header frame schema featureFlags expectedBaseRowId limits selectedColumnIds =
        .ok layout ↔
      ∃ fields count, HoldsColumns header frame schema featureFlags expectedBaseRowId limits fields
          layout.metadata count layout.columns ∧
        parseStreams header fields count frame limits
            { columns := layout.columns, schema, selectedColumnIds } = .ok layout.streams ∧
          validateStreamRanges layout.streams frame = .ok () := by
  constructor
  · intro h
    obtain ⟨_, htype, h⟩ := bind_eq_ok.mp h
    obtain ⟨_, hsize, h⟩ := bind_eq_ok.mp h
    obtain ⟨fields, hfixed, h⟩ := bind_eq_ok.mp h
    obtain ⟨metadata, hblock, h⟩ := bind_eq_ok.mp h
    obtain ⟨count, hcount, h⟩ := bind_eq_ok.mp h
    obtain ⟨columns, hcolumns, h⟩ := bind_eq_ok.mp h
    obtain ⟨streams, hstreams, h⟩ := bind_eq_ok.mp h
    obtain ⟨_, hranges, h⟩ := bind_eq_ok.mp h
    cases h
    exact ⟨fields, count, ⟨htype, failIf_eq_ok.mp hsize, hfixed, hblock, hcount, hcolumns⟩,
      hstreams, hranges⟩
  · rintro ⟨fields, count, hcolumns, hstreams, hranges⟩
    rw [hcolumns.parseLayout, hstreams, ok_bind, hranges, ok_bind]
    rfl

/-! ### Projections -/

/-- The streams of a layout that count as selected: those the first column over them selects, and
those no column covers. -/
theorem isSelected_iff {index : ℕ} :
    ({ columns, schema, selectedColumnIds := some selected } : StreamOwners).isSelected index = true
      ↔ FirstCoveredBySelected columns selected index ∨
        ({ columns, schema, selectedColumnIds := some [] } : StreamOwners).isSelected index =
          true := by
  simp only [StreamOwners.isSelected, StreamOwners.ownerOf, FirstCoveredBySelected]
  cases h : columns.find? fun column ↦
      column.firstStream ≤ index ∧ index < column.firstStream + column.streamCount <;> simp

/-- A header a read accepts is accepted by a projection of no columns. -/
theorem parseLayout_deferred {selectedColumnIds : Option (List UInt32)}
    (h : parseLayout header frame schema featureFlags expectedBaseRowId limits selectedColumnIds =
      .ok layout) :
    parseLayout header frame schema featureFlags expectedBaseRowId limits (some []) =
      .ok layout := by
  obtain ⟨fields, count, hcolumns, hstreams, hranges⟩ := parseLayout_eq_ok.mp h
  obtain ⟨hholds, hdecodable⟩ := parseStreams_eq_ok.mp hstreams
  refine parseLayout_eq_ok.mpr ⟨fields, count, hcolumns, parseStreams_eq_ok.mpr ⟨hholds, ?_⟩,
    hranges⟩
  intro index stream hstream hselected
  refine hdecodable index stream hstream ?_
  cases selectedColumnIds with
  | none => rfl
  | some selected => exact isSelected_iff.mpr (.inr hselected)

/-- Of the headers that a projection of no columns accepts, every other read accepts those whose
selected streams are decodable, and refuses the rest as unsupported frames. -/
theorem parseLayout_of_deferred {selectedColumnIds : Option (List UInt32)}
    (h : parseLayout header frame schema featureFlags expectedBaseRowId limits (some []) =
      .ok layout) :
    let owners : StreamOwners := { columns := layout.columns, schema, selectedColumnIds }
    let result := parseLayout header frame schema featureFlags expectedBaseRowId limits
      selectedColumnIds
    (result = .ok layout ↔ ∀ index stream, layout.streams[index]? = some stream →
      owners.isSelected index = true → Decodable stream) ∧
      (result = .ok layout ∨ FailsWith .unsupportedFrame result) := by
  intro owners result
  obtain ⟨fields, count, hcolumns, hstreams, hranges⟩ := parseLayout_eq_ok.mp h
  obtain ⟨hholds, -⟩ := parseStreams_eq_ok.mp hstreams
  have hresult : result = (do
      let streams ← parseStreams header fields count frame limits owners
      validateStreamRanges streams frame
      return { metadata := layout.metadata, columns := layout.columns, streams }) :=
    hcolumns.parseLayout selectedColumnIds
  have haccepts : result = .ok layout ↔ ∀ index stream, layout.streams[index]? = some stream →
      owners.isSelected index = true → Decodable stream := by
    constructor
    · intro h
      obtain ⟨streams, hparse, h⟩ := bind_eq_ok.mp (hresult.symm.trans h)
      obtain ⟨_, -, h⟩ := bind_eq_ok.mp h
      have hsame : streams = layout.streams := congrArg BlockLayout.streams (Except.ok.inj h)
      exact (parseStreams_eq_ok.mp (hsame ▸ hparse)).2
    · intro hdecodable
      exact parseLayout_eq_ok.mpr ⟨fields, count, hcolumns,
        parseStreams_eq_ok.mpr ⟨hholds, hdecodable⟩, hranges⟩
  refine ⟨haccepts, ?_⟩
  cases hparse : parseStreams header fields count frame limits owners with
  | error e =>
    right
    rw [hresult, hparse]
    exact ⟨e, rfl, kind_of_parseStreams hholds hparse⟩
  | ok streams =>
    left
    obtain ⟨hholds', -⟩ := parseStreams_eq_ok.mp hparse
    rw [hresult, hparse, ok_bind, hholds'.unique hholds, hranges]
    rfl

/-- What deferring the checks is to keep, of one header and one selection: a projection that is
accepted has nothing it cannot decode in the stream range of a selected column, and one that a
complete read refuses only for what lies in such a range is refused with the same kind. -/
structure Deferral (header : Bytes) (frame : FrameMetadata) (schema : Schema) (featureFlags : ℕ)
    (expectedBaseRowId : Option ℕ) (limits : Limits) (selected : List UInt32) : Prop where
  decodable : ∀ layout,
    parseLayout header frame schema featureFlags expectedBaseRowId limits (some selected) =
        .ok layout →
      ∀ index stream, layout.streams[index]? = some stream →
        InSelectedRange layout.columns selected index → Decodable stream
  refused : ∀ e layout,
    parseLayout header frame schema featureFlags expectedBaseRowId limits none = .error e →
      parseLayout header frame schema featureFlags expectedBaseRowId limits (some []) =
          .ok layout →
        (∀ index stream, layout.streams[index]? = some stream → ¬Decodable stream →
          InSelectedRange layout.columns selected index) →
        FailsWith e.kind
          (parseLayout header frame schema featureFlags expectedBaseRowId limits (some selected))

/-- A header that passes every check but those of the transforms and codecs, and holds a stream that
cannot be decoded in the range of a selected column, also holds one whose first covering column is
selected. -/
def Sheltered (header : Bytes) (frame : FrameMetadata) (schema : Schema) (featureFlags : ℕ)
    (expectedBaseRowId : Option ℕ) (limits : Limits) (selected : List UInt32) : Prop :=
  ∀ layout,
    parseLayout header frame schema featureFlags expectedBaseRowId limits (some []) = .ok layout →
      (∃ index stream, layout.streams[index]? = some stream ∧ ¬Decodable stream ∧
        InSelectedRange layout.columns selected index) →
      ∃ index stream, layout.streams[index]? = some stream ∧ ¬Decodable stream ∧
        FirstCoveredBySelected layout.columns selected index

/-- A projection of a header whose columns, streams and ranges are sound is refused exactly for the
undecodable streams whose first covering column is selected. -/
theorem parseLayout_some_of_deferred
    (h : parseLayout header frame schema featureFlags expectedBaseRowId limits (some []) =
      .ok layout) :
    parseLayout header frame schema featureFlags expectedBaseRowId limits (some selected) =
        .ok layout ↔
      ¬∃ index stream, layout.streams[index]? = some stream ∧ ¬Decodable stream ∧
        FirstCoveredBySelected layout.columns selected index := by
  rw [(parseLayout_of_deferred h).1]
  constructor
  · rintro hdecodable ⟨index, stream, hstream, hnot, hcovered⟩
    exact hnot (hdecodable index stream hstream (isSelected_iff.mpr (.inl hcovered)))
  · intro hnone index stream hstream hselected
    rcases isSelected_iff.mp hselected with hcovered | hunowned
    · by_contra hnot
      exact hnone ⟨index, stream, hstream, hnot, hcovered⟩
    · exact (parseLayout_of_deferred h).1.mp h index stream hstream hunowned

/-- **Deferred checks keep away from selected columns exactly on sheltered headers.** -/
theorem deferral_iff_sheltered (header : Bytes) (frame : FrameMetadata) (schema : Schema)
    (featureFlags : ℕ) (expectedBaseRowId : Option ℕ) (limits : Limits) (selected : List UInt32) :
    Deferral header frame schema featureFlags expectedBaseRowId limits selected ↔
      Sheltered header frame schema featureFlags expectedBaseRowId limits selected := by
  constructor
  · rintro hdeferral layout hdeferred ⟨index, stream, hstream, hnot, hrange⟩
    by_contra hnone
    have haccepted := (parseLayout_some_of_deferred hdeferred).mpr hnone
    exact hnot (hdeferral.decodable layout haccepted index stream hstream hrange)
  · intro hsheltered
    refine ⟨fun layout haccepted index stream hstream hrange ↦ ?_,
      fun e layout hrefused hdeferred hranges ↦ ?_⟩
    · have hdeferred := parseLayout_deferred haccepted
      by_contra hnot
      exact (parseLayout_some_of_deferred hdeferred).mp haccepted
        (hsheltered layout hdeferred ⟨index, stream, hstream, hnot, hrange⟩)
    · -- The complete read is refused, so some stream cannot be decoded.
      obtain ⟨hcomplete, houtcome⟩ := @parseLayout_of_deferred _ _ _ _ _ _ _ none hdeferred
      rw [hrefused] at hcomplete houtcome
      have hkind : e.kind = .unsupportedFrame := by
        rcases houtcome with h | ⟨_, h, hkind⟩
        · cases h
        · cases h
          exact hkind
      have hbad : ∃ index :
        ℕ, ∃ stream, layout.streams[index]? = some stream ∧ ¬Decodable stream := by
        by_contra hnone
        have hall : ∀ index stream, layout.streams[index]? = some stream → Decodable stream :=
          fun index stream hstream ↦ by_contra fun hnot ↦ hnone ⟨index, stream, hstream, hnot⟩
        cases hcomplete.mpr fun index stream hstream _ ↦ hall index stream hstream
      obtain ⟨index, stream, hstream, hnot⟩ := hbad
      have hcovered := hsheltered layout hdeferred
        ⟨index, stream, hstream, hnot, hranges index stream hstream hnot⟩
      rw [hkind]
      refine (parseLayout_of_deferred hdeferred).2.resolve_left fun haccepted ↦ ?_
      exact (parseLayout_some_of_deferred hdeferred).mp haccepted hcovered

/-- Two columns of integers. -/
def pairSchema : Schema where
  schemaId := 1
  columns :=
    [{ id := 1, name := "a", logicalType := .int64, nullable := false },
     { id := 2, name := "b", logicalType := .int64, nullable := false }]
  primaryColumnId := none

/-- The header of a block of one row whose two columns claim the same stream, with a transform that
no version defines. -/
def sharedHeader : Bytes :=
  let column (id : ℕ) : Bytes :=
    leBytes 4 id ++ leBytes 2 0 ++ leBytes 2 0 ++ leBytes 4 0 ++ leBytes 4 1 ++ leBytes 4 0 ++
      leBytes 2 1 ++ leBytes 2 statsNone ++ leBytes 4 0 ++ leBytes 4 0
  let stream : Bytes :=
    leBytes 2 streamKindValues ++ leBytes 2 99 ++ leBytes 2 codecNone ++ leBytes 2 0 ++
      leBytes 8 0 ++ leBytes 8 8 ++ leBytes 8 8 ++ leBytes 8 1 ++ leBytes 4 0 ++ leBytes 4 0
  leBytes 8 1 ++ leBytes 8 unavailableBaseRowId ++ leBytes 4 1 ++ leBytes 4 2 ++ leBytes 8 0 ++
    leBytes 8 0 ++ leBytes 4 64 ++ leBytes 4 128 ++ leBytes 4 176 ++ leBytes 4 0 ++ leBytes 4 0 ++
      leBytes 4 0 ++ column 1 ++ column 2 ++ stream

/-- The frame of that header. -/
def sharedFrame : FrameMetadata :=
  { frameType := dataFrameType, sequence := 1, frameOffset := 0, headerOffset := 48,
    headerLength := 176, payloadOffset := 224, payloadLength := 8, totalLength := 264 }

/-- The columns are already in ID order. -/
theorem tableColumns_pairSchema : tableColumns pairSchema = pairSchema.columns :=
  List.mergeSort_of_pairwise (by decide)

/-- A projection of the second column accepts the header, although that column's only stream has an
unknown transform and a complete read refuses it. -/
theorem not_deferral_sharedHeader :
    ¬Deferral sharedHeader sharedFrame pairSchema 0 none Limits.default [2] ∧
      FailsWith .unsupportedFrame
        (parseLayout sharedHeader sharedFrame pairSchema 0 none Limits.default none) := by
  constructor
  · intro hdeferral
    obtain ⟨layout, haccepted, ⟨stream, hstream, hnot⟩, hrange⟩ : ∃ layout,
        parseLayout sharedHeader sharedFrame pairSchema 0 none Limits.default (some [2]) =
            .ok layout ∧
          (∃ stream ∈ layout.streams[0]?, ¬Decodable stream) ∧
            InSelectedRange layout.columns [2] 0 := by
      simp only [parseLayout, parseColumns, tableColumns_pairSchema]
      exact exists_ok_and (by decide +kernel) (by decide +kernel)
    exact hnot (hdeferral.decodable layout haccepted 0 stream hstream hrange)
  · simp only [parseLayout, parseColumns, tableColumns_pairSchema]
    decide +kernel

end DataFrame

end Acta
