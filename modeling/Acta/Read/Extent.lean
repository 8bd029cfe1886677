import Acta.Adoption
import Acta.Read.Snapshot
import Acta.Read.Tail

/-!
# What a refresh leaves as it was

A decode checks every region against the extent of the file that its snapshot captured.  The streams
and the statistics of a block lie inside its frame, so the extent decides nothing once the frame is
inside it (`BlockDecoder.block_withExtent`).  A refresh therefore only adds blocks: each block that
was there before reads as it did (`Reader.Refreshes.only_adds`).
-/

namespace Acta

open Machine Wire Read

/-! ### The extent -/

namespace BlockDecoder

variable {decoder : BlockDecoder} {fileSize : ℕ} {stream : StreamDescriptor}
  {streams : List StreamDescriptor} {column : Column}

/-- The same decode under another extent. -/
def withExtent (decoder : BlockDecoder) (fileSize : ℕ) : BlockDecoder :=
  { decoder with fileSize }

/-- A stream that lies inside the payload of its frame. -/
def Inside (decoder : BlockDecoder) (stream : StreamDescriptor) : Prop :=
  stream.payloadOffset + stream.storedLength ≤ decoder.frame.payloadLength

theorem mem_of_findStream {kind : ℕ} (h : findStream streams kind column = .ok (some stream)) :
    stream ∈ streams := by
  rw [findStream] at h
  split at h
  · cases h
  · rename_i found hfound
    cases h
    exact List.mem_of_mem_filter (hfound ▸ List.mem_singleton_self stream)
  · cases h

theorem mem_of_requiredStream {kind : ℕ} (h : requiredStream streams kind column = .ok stream) :
    stream ∈ streams := by
  obtain ⟨found, hfound, h⟩ := bind_eq_ok.mp h
  rw [okOr_eq_ok.mp h] at hfound
  exact mem_of_findStream hfound

section Streams

variable (h : decoder.frame.payloadOffset + decoder.frame.payloadLength ≤ decoder.fileSize)
  (h' : decoder.frame.payloadOffset + decoder.frame.payloadLength ≤ fileSize)
include h h'

theorem streamExtent_withExtent (hin : decoder.Inside stream) :
    (decoder.withExtent fileSize).streamExtent stream column =
      decoder.streamExtent stream column := by
  refine bind_congr_ok rfl fun _ _ ↦ bind_congr_ok rfl fun offset hoffset ↦
    bind_congr_ok rfl fun stop hstop ↦ ?_
  rw [okOr_eq_ok, checkedAdd_eq_some] at hoffset hstop
  have hfits : stop ≤ decoder.frame.payloadOffset + decoder.frame.payloadLength := by
    rw [Inside] at hin
    omega
  have hsmall : ¬(decoder.withExtent fileSize).fileSize < stop := Nat.not_lt.mpr (hfits.trans h')
  rw [failIf_neg (Nat.not_lt.mpr (hfits.trans h)), failIf_neg hsmall]

/-- A stream inside the payload is read the same under every extent that holds the frame. -/
theorem streamBytes_withExtent (hin : decoder.Inside stream) :
    (decoder.withExtent fileSize).streamBytes stream column =
      decoder.streamBytes stream column := by
  rw [streamBytes, streamExtent_withExtent h h' hin]
  rfl

theorem unpack_withExtent (hin : decoder.Inside stream) (count : ℕ) (what : String) :
    (decoder.withExtent fileSize).unpack stream column count what =
      decoder.unpack stream column count what := by
  rw [unpack, streamBytes_withExtent h h' hin]
  rfl

theorem fixedBinary_withExtent (hin : decoder.Inside stream) (width : ℕ) :
    (decoder.withExtent fileSize).fixedBinary stream column width =
      decoder.fixedBinary stream column width := by
  rw [fixedBinary, streamBytes_withExtent h h' hin]
  rfl

theorem storedValues_withExtent (hin : decoder.Inside stream) :
    (decoder.withExtent fileSize).storedValues stream column =
      decoder.storedValues stream column := by
  simp only [storedValues, booleans, integers, floats, streamBytes_withExtent h h' hin,
    fixedBinary_withExtent h h' hin]

variable (hin : ∀ stream ∈ streams, decoder.Inside stream)
include hin

theorem lengths_withExtent (kind count : ℕ) :
    (decoder.withExtent fileSize).lengths streams column kind count =
      decoder.lengths streams column kind count := by
  refine Metered.lift_bind_congr fun stream hstream ↦ Metered.lift_bind_congr fun _ _ ↦ ?_
  rw [streamBytes_withExtent h h' (hin stream (mem_of_requiredStream hstream))]

theorem byteValues_withExtent (valuesKind lengthsKind count : ℕ) :
    (decoder.withExtent fileSize).byteValues streams column valuesKind lengthsKind count =
      decoder.byteValues streams column valuesKind lengthsKind count := by
  refine Metered.lift_bind_congr fun stream hstream ↦ Metered.lift_bind_congr fun _ _ ↦ ?_
  have hstream := hin stream (mem_of_requiredStream hstream)
  simp only [fixedBinary_withExtent h h' hstream, streamBytes_withExtent h h' hstream,
    lengths_withExtent h h' hin]

theorem plain_withExtent (count : ℕ) :
    (decoder.withExtent fileSize).plain streams column count =
      decoder.plain streams column count := by
  rw [plain, plain, byteValues_withExtent h h' hin]
  refine if_congr Iff.rfl rfl (Metered.lift_bind_congr fun stream hstream ↦
    Metered.lift_bind_congr fun _ _ ↦ ?_)
  exact storedValues_withExtent h h' (hin stream (mem_of_requiredStream hstream))

theorem layoutValues_withExtent (hstream : decoder.Inside stream)
    (valuesKind lengthsKind count : ℕ) :
    (decoder.withExtent fileSize).layoutValues streams stream column valuesKind lengthsKind count =
      decoder.layoutValues streams stream column valuesKind lengthsKind count := by
  rw [layoutValues, layoutValues, byteValues_withExtent h h' hin,
    storedValues_withExtent h h' hstream]

theorem dictionary_withExtent (count : ℕ) :
    (decoder.withExtent fileSize).dictionary streams column count =
      decoder.dictionary streams column count := by
  have hindices : (decoder.withExtent fileSize).indices streams column count =
      decoder.indices streams column count := by
    refine Metered.lift_bind_congr fun stream hstream ↦ Metered.lift_bind_congr fun _ _ ↦ ?_
    exact unpack_withExtent h h' (hin stream (mem_of_requiredStream hstream)) _ _
  rw [dictionary, dictionary, hindices]
  refine congrArg (decoder.indices streams column count >>= ·) (funext fun indices ↦ ?_)
  refine Metered.lift_bind_congr fun stream hstream ↦ Metered.lift_bind_congr fun _ _ ↦ ?_
  rw [layoutValues_withExtent h h' hin (hin stream (mem_of_requiredStream hstream))]

theorem runLength_withExtent (count : ℕ) :
    (decoder.withExtent fileSize).runLength streams column count =
      decoder.runLength streams column count := by
  have hlengths : (decoder.withExtent fileSize).runLengths streams column count =
      decoder.runLengths streams column count := by
    refine Metered.lift_bind_congr fun stream hstream ↦ ?_
    rw [unpack_withExtent h h' (hin stream (mem_of_requiredStream hstream))]
  rw [runLength, runLength, hlengths]
  refine congrArg (decoder.runLengths streams column count >>= ·) (funext fun lengths ↦ ?_)
  refine Metered.lift_bind_congr fun stream hstream ↦ Metered.lift_bind_congr fun _ _ ↦ ?_
  rw [layoutValues_withExtent h h' hin (hin stream (mem_of_requiredStream hstream))]

theorem denseValues_withExtent (descriptor : ColumnBlockDescriptor) (count : ℕ) :
    (decoder.withExtent fileSize).denseValues streams column descriptor count =
      decoder.denseValues streams column descriptor count := by
  simp only [denseValues, constant, plain_withExtent h h' hin, dictionary_withExtent h h' hin,
    runLength_withExtent h h' hin]

theorem validity_withExtent (descriptor : ColumnBlockDescriptor) (rowCount : ℕ) :
    (decoder.withExtent fileSize).validity streams column descriptor rowCount =
      decoder.validity streams column descriptor rowCount := by
  refine Metered.lift_bind_congr fun found hfound ↦ ?_
  cases found with
  | none => rfl
  | some stream =>
    simp only [storedValidity, streamBytes_withExtent h h' (hin stream (mem_of_findStream hfound))]

end Streams

section Columns

variable {selection : Selection}

/-- A frame that an extent holds, and in its payload the streams of the layout. -/
structure HoldsFrame (decoder : BlockDecoder) (fileSize : ℕ) : Prop where
  header : decoder.frame.headerOffset + decoder.frame.headerLength ≤ fileSize
  payload : decoder.frame.payloadOffset + decoder.frame.payloadLength ≤ fileSize
  streams : ∀ stream ∈ decoder.layout.streams, decoder.Inside stream

variable (h : decoder.HoldsFrame decoder.fileSize) (h' : decoder.HoldsFrame fileSize)
include h h'

/-- Statistics are read the same under every extent that holds the frame. -/
theorem verifyColumnStatistics_withExtent (descriptor : ColumnBlockDescriptor)
    (array : LogicalArray) :
    Validate.verifyColumnStatistics decoder.file fileSize decoder.frame descriptor column array
        decoder.limits =
      Validate.verifyColumnStatistics decoder.file decoder.fileSize decoder.frame descriptor column
        array decoder.limits := by
  have hrange : Validate.statisticsRange decoder.frame descriptor column fileSize decoder.limits =
      Validate.statisticsRange decoder.frame descriptor column decoder.fileSize
        decoder.limits := by
    refine bind_congr_ok rfl fun headerEnd hend ↦ bind_congr_ok rfl fun offset _ ↦
      bind_congr_ok rfl fun stop _ ↦ bind_congr_ok rfl fun _ hinside ↦ ?_
    rw [okOr_eq_ok, checkedAdd_eq_some] at hend
    have hstop : stop ≤ decoder.frame.headerOffset + decoder.frame.headerLength := by
      rw [failIf_eq_ok] at hinside
      omega
    rw [failIf_neg (Nat.not_lt.mpr (hstop.trans h.header)),
      failIf_neg (Nat.not_lt.mpr (hstop.trans h'.header))]
  have hread : Validate.readStatistics decoder.file fileSize decoder.frame descriptor column
      decoder.limits = Validate.readStatistics decoder.file decoder.fileSize decoder.frame
        descriptor column decoder.limits := by
    rw [Validate.readStatistics, hrange]
    rfl
  rw [Validate.verifyColumnStatistics, hread]
  rfl

theorem column_withExtent (descriptor : ColumnBlockDescriptor) (rowCount : ℕ) :
    (decoder.withExtent fileSize).column column descriptor rowCount =
      decoder.column column descriptor rowCount := by
  refine Metered.lift_bind_congr fun streams hstreams ↦ Metered.lift_bind_congr fun _ _ ↦ ?_
  have hin : ∀ stream ∈ streams, decoder.Inside stream := by
    obtain ⟨_, -, hstreams⟩ := bind_eq_ok.mp hstreams
    obtain ⟨_, -, hstreams⟩ := bind_eq_ok.mp hstreams
    cases hstreams
    exact fun stream hstream ↦ h.streams stream
      (List.mem_of_mem_drop (List.mem_of_mem_take hstream))
  have hverify (array : LogicalArray) :
      Validate.verifyColumnStatistics (decoder.withExtent fileSize).file
          (decoder.withExtent fileSize).fileSize (decoder.withExtent fileSize).frame descriptor
          column array (decoder.withExtent fileSize).limits =
        Validate.verifyColumnStatistics decoder.file decoder.fileSize decoder.frame descriptor
          column array decoder.limits :=
    verifyColumnStatistics_withExtent h h' descriptor array
  simp only [validity_withExtent h.payload h'.payload hin,
    denseValues_withExtent h.payload h'.payload hin, hverify]

theorem decodeInto_withExtent (schema : Schema) (rowCount : ℕ) :
    (decoder.withExtent fileSize).decodeInto schema rowCount =
      decoder.decodeInto schema rowCount := by
  funext arrays index
  have hcolumn : (decoder.withExtent fileSize).decodedColumn schema index rowCount =
      decoder.decodedColumn schema index rowCount := by
    refine Metered.lift_bind_congr fun column _ ↦ Metered.lift_bind_congr fun descriptor _ ↦ ?_
    exact column_withExtent h h' descriptor rowCount
  rw [decodeInto, hcolumn]
  rfl

/-- **A block is decoded the same under every extent that holds its frame.** -/
theorem block_withExtent : (decoder.withExtent fileSize).block = decoder.block := by
  funext selection
  simp only [block, decodeInto_withExtent h h']
  rfl

end Columns

end BlockDecoder

/-! ### Frames -/

/-- There is one complete frame at an offset, under every extent that holds it. -/
theorem Frame.complete_unique {file : Bytes} {fileSize fileSize' offset sequence : ℕ}
    {limits : Limits} {frame frame' : FrameMetadata} (hsize : fileSize ≤ file.length)
    (hsize' : fileSize' ≤ file.length)
    (h : readFrame file fileSize offset sequence limits = .ok (.complete frame))
    (h' : readFrame file fileSize' offset sequence limits = .ok (.complete frame')) :
    frame = frame' := by
  have hlarge {size : ℕ} {found : FrameMetadata} (hle : size ≤ file.length)
      (hread : readFrame file size offset sequence limits = .ok (.complete found)) :
      readFrame file file.length offset sequence limits = .ok (.complete found) := by
    obtain ⟨total, hfits, hmax, hframe, hmeta⟩ := (readFrame_eq_complete hle).mp hread
    exact (readFrame_eq_complete le_rfl).mpr ⟨total, hfits.trans hle, hmax, hframe, hmeta⟩
  have hsame := (hlarge hsize h).symm.trans (hlarge hsize' h')
  exact FrameRead.complete.inj (Except.ok.inj hsame)

namespace Reader

variable {reader next : Reader} {zstd : Zstd}

/-! ### Refreshing -/

/-- What a refresh leaves as it was: everything but the blocks it adds, and where the file ends. -/
structure Extends (reader next : Reader) : Prop where
  path : next.path = reader.path
  limits : next.limits = reader.limits
  identity : next.identity = reader.identity
  schema : next.schema = reader.schema
  featureFlags : next.fileMetadata.featureFlags = reader.fileMetadata.featureFlags
  blocks : reader.blocks <+: next.blocks

theorem Extends.refl (reader : Reader) : reader.Extends reader :=
  ⟨rfl, rfl, rfl, rfl, rfl, List.prefix_rfl⟩

theorem Extends.trans {last : Reader} (h : reader.Extends next) (h' : next.Extends last) :
    reader.Extends last :=
  ⟨h'.path.trans h.path, h'.limits.trans h.limits, h'.identity.trans h.identity,
    h'.schema.trans h.schema, h'.featureFlags.trans h.featureFlags, h.blocks.trans h'.blocks⟩

/-- **A refresh only adds blocks**, whatever the file has become. -/
theorem extends_refresh (reader : Reader) (system : FileSystem) :
    reader.Extends (reader.refresh system).2 := by
  rw [refresh]
  split
  · exact .refl reader
  · rename_i report next hrefreshed
    obtain ⟨opened, -, -, -, hto⟩ := refreshed_eq_ok.mp hrefreshed
    cases hto with
    | unchanged hboundary heq =>
      obtain rfl : next = (reader.withoutGrowth (system.contents opened).length).2 :=
        congrArg Prod.snd heq
      exact ⟨rfl, rfl, rfl, rfl, rfl, List.prefix_rfl⟩
    | extended hboundary heq =>
      simp only [extend, bind_eq_ok] at heq
      obtain ⟨scan, -, _, hheader, ⟨walk, staged⟩, -, count, -, anchor, -, hdone⟩ := heq
      cases hdone
      have hsame := not_not.mp (failIf_eq_ok.mp hheader)
      exact ⟨rfl, rfl, rfl, rfl, hsame.2.1, List.prefix_append _ _⟩

/-- The streams of a header that was accepted lie in the payload of its frame. -/
theorem inside_of_readBlockLayout {file : Bytes} {frame : FrameMetadata} {schema : Schema}
    {featureFlags : ℕ} {expected : Option ℕ} {limits : Limits} {selected : Option (List UInt32)}
    {layout : BlockLayout}
    (h : DataFrame.readBlockLayout file frame schema featureFlags expected limits selected =
      .ok layout) :
    ∀ stream ∈ layout.streams,
      stream.payloadOffset + stream.storedLength ≤ frame.payloadLength := by
  obtain ⟨header, -, hlayout⟩ := bind_eq_ok.mp h
  obtain ⟨fields, count, -, -, hranges⟩ := DataFrame.parseLayout_eq_ok.mp hlayout
  obtain ⟨_, -, hextents⟩ := bind_eq_ok.mp hranges
  exact fun stream hstream ↦ (DataFrame.validateExtents_eq_ok.mp hextents stream hstream).2

/-- A block is decoded the same under two extents that hold its frame. -/
theorem block_of_extents {file : Bytes} {fileSize fileSize' : ℕ} {frame : FrameMetadata}
    {layout : BlockLayout} {limits : Limits} (htiled : frame.Tiled)
    (hfits : frame.frameOffset + frame.totalLength ≤ fileSize)
    (hfits' : frame.frameOffset + frame.totalLength ≤ fileSize')
    (hin : ∀ stream ∈ layout.streams,
      stream.payloadOffset + stream.storedLength ≤ frame.payloadLength) :
    BlockDecoder.block ⟨zstd, file, fileSize', frame, layout, limits⟩ =
      BlockDecoder.block ⟨zstd, file, fileSize, frame, layout, limits⟩ := by
  let decoder : BlockDecoder := ⟨zstd, file, fileSize, frame, layout, limits⟩
  have hheader := htiled.header
  have hpayload := htiled.payload
  have htotal := htiled.total
  have hholds {size : ℕ} (hsize : frame.frameOffset + frame.totalLength ≤ size) :
      decoder.HoldsFrame size := by
    refine ⟨?_, ?_, hin⟩
    · show frame.headerOffset + frame.headerLength ≤ size
      omega
    · show frame.payloadOffset + frame.payloadLength ≤ size
      omega
  have hblock : (decoder.withExtent fileSize').block = decoder.block :=
    BlockDecoder.block_withExtent (hholds hfits) (hholds hfits')
  exact hblock

section Same

variable {path : String} {limits : Limits} {system : FileSystem} {index : ℕ}
  (hextends : reader.Extends next) (hindex : index < reader.blocks.length)
include hextends hindex

theorem getElem?_blocks_of_extends : next.blocks[index]? = reader.blocks[index]? := by
  obtain ⟨more, hmore⟩ := hextends.blocks
  rw [← hmore, List.getElem?_append_left hindex]

theorem readBlockLayout_of_extends (file : Bytes) (frame : FrameMetadata)
    (selected : Option (List UInt32)) :
    DataFrame.readBlockLayout file frame next.schema next.fileMetadata.featureFlags
        (next.expectedBaseRowId index) next.limits selected =
      DataFrame.readBlockLayout file frame reader.schema
        reader.fileMetadata.featureFlags (reader.expectedBaseRowId index) reader.limits
        selected := by
  rw [hextends.schema, hextends.featureFlags, hextends.limits, expectedBaseRowId,
    getElem?_blocks_of_extends hextends hindex, expectedBaseRowId]

variable (h : Attached path limits system reader) (h' : Attached path limits system next)
include h h'

/-- The frame of a block that was there before a refresh is still there, inside both extents. -/
theorem frameAt_of_extends :
    ∃ frame, reader.frameAt (system.contents reader.identity) index = .ok frame ∧
      next.frameAt (system.contents reader.identity) index = .ok frame ∧ frame.Tiled ∧
        frame.frameOffset + frame.totalLength ≤ reader.fileMetadata.fileSize ∧
          frame.frameOffset + frame.totalLength ≤ next.fileMetadata.fileSize := by
  have hblock := List.getElem?_eq_getElem hindex
  have hblock' := (getElem?_blocks_of_extends hextends hindex).trans hblock
  obtain ⟨frame, _, hrecorded⟩ := h.recorded hblock
  obtain ⟨frame', _, hrecorded'⟩ := h'.recorded hblock'
  have hsize := h.fileSize_le
  have hsize' := h'.fileSize_le
  have hframe := hrecorded.frameAt
  have hframe' := hrecorded'.frameAt
  rw [hextends.identity] at hframe' hsize'
  obtain ⟨_, hsome, hread⟩ := frameAt_eq_ok.mp hframe
  obtain ⟨_, hsome', hread'⟩ := frameAt_eq_ok.mp hframe'
  rw [hblock] at hsome
  rw [hblock'] at hsome'
  cases hsome
  cases hsome'
  rw [hextends.limits] at hread'
  obtain rfl := Frame.complete_unique hsize hsize' hread hread'
  obtain ⟨htiled, hfits⟩ := tiled_of_frameAt hsize hframe
  exact ⟨frame, hframe, hframe', htiled, hfits, (tiled_of_frameAt hsize' hframe').2⟩

/-- **A block that was there before a refresh reads as it did.** -/
theorem decodeBlockAt_of_extends :
    next.decodeBlockAt zstd (system.contents reader.identity) index =
      reader.decodeBlockAt zstd (system.contents reader.identity) index := by
  obtain ⟨frame, hframe, hframe', htiled, hfits, hfits'⟩ :=
    frameAt_of_extends hextends hindex h h'
  rw [decodeBlockAt, hframe', decodeBlockAt, hframe, ok_bind, ok_bind, DataFrame.readLayout,
    readBlockLayout_of_extends hextends hindex]
  refine bind_congr_ok rfl fun layout hlayout ↦ ?_
  rw [Read.decodeBlock, hextends.schema, hextends.limits, Read.decodeSelectedBlock,
    block_of_extents htiled hfits hfits' (inside_of_readBlockLayout hlayout)]
  rfl

end Same

/-- A reader whose file grows, and which is refreshed, in any order and any number of times. -/
inductive Refreshes (path : String) : FileSystem → Reader → FileSystem → Reader → Prop
  | refl (system : FileSystem) (reader : Reader) : Refreshes path system reader system reader
  | grow {system middle last : FileSystem} {reader next : Reader}
      (h : Refreshes path system reader middle next) (hgrows : Grows path middle last) :
      Refreshes path system reader last next
  | refresh {system last : FileSystem} {reader next : Reader}
      (h : Refreshes path system reader last next) :
      Refreshes path system reader last (next.refresh last).2

theorem Grows.trans {path : String} {system middle last : FileSystem}
    (h : Grows path system middle) (h' : Grows path middle last) : Grows path system last := by
  obtain ⟨identity, more, hnamed, hnamed', hcontents⟩ := h
  obtain ⟨identity', more', hnamed'', hlast, hcontents'⟩ := h'
  obtain rfl : identity' = identity := Except.ok.inj (hnamed''.symm.trans hnamed')
  exact ⟨identity', more ++ more', hnamed, hlast, by
    rw [hcontents', hcontents, List.append_assoc]⟩

namespace Refreshes

variable {path : String} {limits : Limits} {system last : FileSystem}

theorem extends_last (h : Refreshes path system reader last next) : reader.Extends next := by
  induction h with
  | refl => exact .refl _
  | grow h hgrows ih => exact ih
  | refresh h ih => exact ih.trans (extends_refresh _ _)

theorem grows (h : Refreshes path system reader last next)
    (hnamed : system.identityOf path = .ok reader.identity) : Grows path system last := by
  induction h with
  | refl => exact ⟨_, [], hnamed, hnamed, (List.append_nil _).symm⟩
  | grow h hgrows ih => exact (ih hnamed).trans hgrows
  | refresh h ih => exact ih hnamed

theorem attached (h : Refreshes path system reader last next)
    (hattached : Attached path limits system reader) : Attached path limits last next := by
  induction h with
  | refl => exact hattached
  | grow h hgrows ih => exact (ih hattached).grows hgrows
  | refresh h ih => exact (ih hattached).refresh

end Refreshes

/-- **A block reads after a refresh as it did before.** -/
theorem readBlock_of_refreshes {path : String} {limits : Limits} {system last : FileSystem}
    (h : Refreshes path system reader last next) (hattached : Attached path limits system reader)
    {index : ℕ} (hindex : index < reader.blocks.length) :
    next.readBlock zstd last index = reader.readBlock zstd system index := by
  have hextends := h.extends_last
  have hlast := h.attached hattached
  have hgrows := h.grows hattached.identity
  have hgrown := hattached.grows hgrows
  obtain ⟨hnamed, hprefix⟩ := hgrows.of_identity hattached.identity
  have hopen (reader : Reader) {system : FileSystem} {identity : FileIdentity}
      (hpath : system.identityOf reader.path = .ok identity) :
      reader.readBlock zstd system index =
        reader.decodeBlockAt zstd (system.contents identity) index := by
    rw [readBlock, FileSystem.openFile, hpath]
    rfl
  rw [hopen next (hlast.isPath ▸ hlast.identity), hextends.identity,
    hopen reader (hattached.isPath ▸ hattached.identity),
    decodeBlockAt_of_extends hextends hindex hgrown hlast,
    decodeBlockAt_of_isPrefix zstd hprefix hattached.fileSize_le]

/-- **A refresh only adds.**  However often a file grows, by whatever bytes, and its reader is
refreshed, the blocks the reader had come first among the blocks it has, and each of them reads as
it did: the same batch, or the same error. -/
theorem Refreshes.only_adds {path : String} {limits : Limits} {system last : FileSystem}
    (h : Refreshes path system reader last next) (hchain : Chain path limits system reader) :
    next.schema = reader.schema ∧ reader.blocks <+: next.blocks ∧
      ∀ index < reader.blocks.length,
        next.readBlock zstd last index = reader.readBlock zstd system index :=
  ⟨h.extends_last.schema, h.extends_last.blocks, fun _ hindex ↦
    readBlock_of_refreshes h hchain.attached hindex⟩

/-- A reader of one block, once a byte has followed it. -/
theorem only_adds_oneBlock :
    ∃ file reader, OneBlock file reader ∧
      let next := (reader.refresh (oneFile (file ++ [65]))).2
      next.schema = reader.schema ∧ reader.blocks <+: next.blocks ∧
        ∀ index < reader.blocks.length,
          next.readBlock storingZstd (oneFile (file ++ [65])) index =
            reader.readBlock storingZstd (oneFile file) index := by
  obtain ⟨file, reader, h⟩ := exists_oneBlock
  exact ⟨file, reader, h, Refreshes.only_adds (.refresh (.grow (.refl (oneFile file) reader)
    (grows_oneFile "n.acta" file [65]))) (.opened h.opens)⟩

end Reader

end Acta
