import Acta.Read.Delivery
import Acta.RoundTrip.Snapshots

/-!
# What is read of a file that was written

The rows that sessions wrote come out of scans and tails: those that a plan asks for, in order, each
once, as long as no allowance is spent.  A turn delivers the rows of its block (`Delivers`), and so
turns at blocks one after another deliver the rows of these.  This gives the rows of a scan of any
snapshot of the file (`Sessions.scanned`), and the rows of a tail that follows the file while it is
written (`Sessions.tailed`).
-/

namespace Acta

open Machine Wire Write

/-- What a turn gives of the rows of a block: those that its plan asks for, unless an allowance is
spent. -/
inductive ScanPlan.Delivers (plan : ScanPlan) (schema : Schema) (rows : List Row) :
    Result (Option RecordBatch) → Prop
  | answered {answer : Option RecordBatch} (h : plan.Answers schema rows answer) :
      Delivers plan schema rows (.ok answer)
  | refused {e : Error} (h : Budget.IsRefusal e) : Delivers plan schema rows (.error e)
  | exceeded (sequence : ℕ) :
      Delivers plan schema rows (.error (Budget.exceeded.withContext (.frame sequence)))

/-- **A turn delivers the rows of its block.** -/
theorem ScanProgress.takeBlock_delivers {zstd : Zstd} {schema : Schema}
    {blocks : List PublishedBlock} {path : String} {limits : Limits} {system : FileSystem}
    {reader : Reader} {plan : ScanPlan} {progress : ScanProgress} {known : BlockMetadata}
    (h : Reader.Attached path limits system reader)
    (hknows : reader.Knows zstd schema blocks (system.contents reader.identity))
    (hplan : plan.Of reader.schema) (hholds : progress.Holds reader.identity)
    (hknown : reader.blocks[progress.nextBlock]? = some known) (missingPrimary : String) :
    ∃ block, blocks[progress.nextBlock]? = some block ∧ plan.Delivers schema block.rows.rows
      (takeBlock zstd system reader plan missingPrimary known progress).1 := by
  obtain ⟨block, batch, metadata, layout, hblock, -, hrows, hreads⟩ := hknows.reads hknown
  have hnamed : system.identityOf reader.path = .ok reader.identity := h.isPath ▸ h.identity
  have hsettles := takeBlock_settles hreads hplan hnamed hholds hknown missingPrimary
  refine ⟨block, hblock, ?_⟩
  rw [hrows, hknows.schema_eq] at hsettles
  generalize (takeBlock zstd system reader plan missingPrimary known progress).1 = turn
    at hsettles ⊢
  cases hsettles with
  | answered hanswers => exact .answered (hknows.schema_eq ▸ hanswers)
  | refused hrefusal => exact .refused hrefusal
  | exceeded => exact .exceeded _

/-! ### Deliveries -/

/-- Turns that are right of the parts at their positions, part by part. -/
theorem Turns.forall₂ {α : Type} {parts : List α} {good : α → Result (Option RecordBatch) → Prop}
    {first last : ℕ} {turns : List (Result (Option RecordBatch))}
    (h : Turns (fun index turn ↦ ∃ part, parts[index]? = some part ∧ good part turn) first last
      turns) : List.Forall₂ good ((parts.take last).drop first) turns := by
  have hlength := h.length
  have hpart {k : ℕ} {turn : Result (Option RecordBatch)} (hturn : turns[k]? = some turn) :
      ∃ part, ((parts.take last).drop first)[k]? = some part ∧ good part turn := by
    obtain ⟨part, hpart, hgood⟩ := h.right hturn
    have hk := (List.getElem?_eq_some_iff.mp hturn).1
    refine ⟨part, ?_, hgood⟩
    rw [List.getElem?_drop, List.getElem?_take_of_lt (by omega), hpart]
  have hcount : ((parts.take last).drop first).length = turns.length := by
    rw [List.length_drop, List.length_take]
    rcases turns.eq_nil_or_concat' with rfl | ⟨before, turn, rfl⟩
    · rw [List.length_nil] at hlength ⊢
      omega
    · obtain ⟨part, hinside, -⟩ := hpart List.getElem?_concat_length
      have hbefore := (List.getElem?_eq_some_iff.mp hinside).1
      rw [List.length_drop, List.length_take] at hbefore
      rw [List.length_append, List.length_singleton] at hlength ⊢
      omega
  refine List.forall₂_iff_get.mpr ⟨hcount, fun k hk hk' ↦ ?_⟩
  obtain ⟨part, hinside, hgood⟩ := hpart (List.getElem?_eq_getElem hk')
  have hsame := (List.getElem?_eq_getElem hk).symm.trans hinside
  rwa [List.get_eq_getElem, List.get_eq_getElem, Option.some.inj hsame]

/-- What a turn answers are the rows that its plan asks for. -/
theorem rows_of_answers {plan : ScanPlan} {schema : Schema} {rows : List Row}
    {answer : Option RecordBatch} (h : plan.Answers schema rows answer) :
    answer.toList.flatMap (·.rows) = plan.rowsOf schema rows := by
  cases answer with
  | none =>
    have hnone := h.isSome_iff
    exact (not_not.mp fun hrows ↦ nomatch hnone.mpr hrows).symm
  | some batch => rw [Option.toList_some, List.flatMap_singleton, h.rows_eq batch rfl]

section Delivers

variable {plan : ScanPlan} {schema : Schema} {parts : List (List Row)}
  {turns : List (Result (Option RecordBatch))}
  (h : List.Forall₂ (plan.Delivers schema) parts turns)
include h

/-- **The rows of the batches are rows that the plan asks for**, in their order, and none twice. -/
theorem sublist_of_delivers :
    ((batchesOf turns).flatMap (·.rows)).Sublist (plan.rowsOf schema parts.flatten) := by
  induction h with
  | nil => exact List.nil_sublist _
  | cons hturn _ ih =>
    rw [List.flatten_cons, ScanPlan.rowsOf_append, batchesOf_cons, List.flatMap_append]
    refine List.Sublist.append ?_ ih
    cases hturn with
    | answered hanswers => exact rows_of_answers hanswers ▸ List.Sublist.refl _
    | refused | exceeded => exact List.nil_sublist _

/-- Where no turn failed, they are all of them. -/
theorem rows_of_delivers (hok : ∀ turn ∈ turns, turn.isOk = true) :
    (batchesOf turns).flatMap (·.rows) = plan.rowsOf schema parts.flatten := by
  induction h with
  | nil => rfl
  | cons hturn _ ih =>
    obtain ⟨hfirst, hrest⟩ := List.forall_mem_cons.mp hok
    rw [List.flatten_cons, ScanPlan.rowsOf_append, batchesOf_cons, List.flatMap_append, ih hrest]
    refine congrArg (· ++ _) ?_
    cases hturn with
    | answered hanswers => exact rows_of_answers hanswers
    | refused | exceeded => cases hfirst

/-- A turn that fails has spent an allowance. -/
theorem spent_of_delivers {e : Error} (he : .error e ∈ turns) :
    Budget.IsRefusal e ∨ ∃ sequence, e = Budget.exceeded.withContext (.frame sequence) := by
  obtain ⟨part, -, hpart⟩ := Related.exists_left h he
  cases hpart with
  | refused hrefusal => exact .inl hrefusal
  | exceeded sequence => exact .inr ⟨sequence, rfl⟩

/-- A batch has the schema of the plan, and a row. -/
theorem batch_of_delivers {batch : RecordBatch} (hbatch : batch ∈ batchesOf turns) :
    batch.schema = plan.outputSchema ∧ batch.rows ≠ [] := by
  induction h with
  | nil => cases hbatch
  | cons hturn _ ih =>
    rw [batchesOf_cons, List.mem_append] at hbatch
    rcases hbatch with hbatch | hbatch
    · cases hturn with
      | answered hanswers =>
        have hanswer := Option.mem_toList.mp hbatch
        refine ⟨hanswers.schema_eq batch hanswer, ?_⟩
        rw [hanswers.rows_eq batch hanswer]
        exact hanswers.isSome_iff.mp (Option.isSome_of_mem hanswer)
      | refused | exceeded => cases hbatch
    · exact ih hbatch

end Delivers

/-- Turns that fail give items that fail. -/
theorem isOk_of_items {turns : List (Result (Option RecordBatch))}
    (h : ∀ item ∈ turns.filterMap itemOf, item.isOk = true) : ∀ turn ∈ turns, turn.isOk = true := by
  intro turn hturn
  cases turn with
  | ok => rfl
  | error e => exact h (.error e) (List.mem_filterMap.mpr ⟨_, hturn, rfl⟩)

/-- Turns that fail make a poll fail. -/
theorem isOk_of_events {events : List Tail.Event}
    (h : ∀ result ∈ events.filterMap Tail.Event.result, result.isOk = true) :
    ∀ turn ∈ events.filterMap Tail.Event.outcome, turn.isOk = true := by
  intro turn hturn
  obtain ⟨event, hevent, houtcome⟩ := List.mem_filterMap.mp hturn
  cases turn with
  | ok => rfl
  | error e =>
    cases event with
    | turn outcome =>
      cases houtcome
      exact h (.error e) (List.mem_filterMap.mpr ⟨_, hevent, rfl⟩)
    | caughtUp | stopped => cases houtcome

namespace Writer

variable {zstd : Zstd} {schema : Schema} {rowIds : Bool} {blocks : List PublishedBlock}
  {rows : List Row} {file : Bytes} {path : String} {limits : Limits} {system : FileSystem}
  {reader : Reader}

/-- **What a scan gives of the beginning of a file**, turn by turn. -/
theorem Holds.forall₂_of_drains (h : Holds zstd schema rowIds blocks file)
    (hzstd : zstd.RoundTrips) (hattached : Reader.Attached path limits system reader)
    (hlimits : limits.CoversDefault) (hinitial : system.contents reader.identity <+: file)
    {scan : Scan} (hscan : Scan.Configured reader scan) {items : List (Result RecordBatch)}
    (hdrains : Scan.Drains zstd path system scan items) :
    ∃ parts turns, items = turns.filterMap itemOf ∧
      List.Forall₂ (scan.plan.Delivers schema) parts turns ∧
        parts.flatten =
          (blocks.flatMap (·.rows.rows)).take reader.fileMetadata.totalRows := by
  have hknows := hattached.knows h hzstd hlimits hinitial
  obtain ⟨hof, hplan, hnext⟩ := hscan.of
  let right (index : ℕ) (turn : Result (Option RecordBatch)) : Prop :=
    ∃ part, (blocks.map (·.rows.rows))[index]? = some part ∧ scan.plan.Delivers schema part turn
  have hright : Scan.Rightly zstd system reader scan.plan (fun _ ↦ True) right := by
    intro progress known hholds _ hknown
    obtain ⟨block, hblock, hdelivers⟩ := ScanProgress.takeBlock_delivers hattached hknows hplan
      hholds hknown "range scan did not decode its primary column"
    exact ⟨⟨block.rows.rows, by rw [List.getElem?_map, hblock]; rfl, hdelivers⟩, trivial⟩
  obtain ⟨turns, hturns, hitems⟩ := hdrains.exists_turns hattached hright hof trivial rfl
    (hnext.le.trans (Nat.zero_le _))
  rw [hnext] at hturns
  refine ⟨_, turns, hitems, hturns.forall₂, ?_⟩
  rw [List.drop_zero, hknows.rows_take le_rfl, List.take_length, hattached.totalRows_eq]

/-- **A scan of a file gives the rows that were written.**  Let a reader have opened the beginning
of a file that sessions wrote, or followed it there, and let a scan of it be configured and drained.
Each item that is an error reports an allowance that was spent.  Each batch has the schema of the
plan and a row.  The rows of the batches are, in order, rows that the plan asks for among the first
rows that were written, as many as the reader counts; and where no item is an error they are all of
these. -/
theorem Sessions.scanned (h : Sessions zstd schema rowIds rows file) (hzstd : zstd.RoundTrips)
    (hchain : Reader.Chain path limits system reader) (hlimits : limits.CoversDefault)
    (hinitial : system.contents reader.identity <+: file) {scan : Scan}
    (hscan : Scan.Configured reader scan) {items : List (Result RecordBatch)}
    (hdrains : Scan.Drains zstd path system scan items) :
    let batches := items.filterMap Except.toOption
    let written := rows.take reader.fileMetadata.totalRows
    (∀ e, .error e ∈ items → Budget.IsRefusal e ∨
        ∃ sequence, e = Budget.exceeded.withContext (.frame sequence)) ∧
      (∀ batch ∈ batches, batch.schema = scan.plan.outputSchema ∧ batch.rows ≠ []) ∧
      (batches.flatMap (·.rows)).Sublist (scan.plan.rowsOf schema written) ∧
      ((∀ item ∈ items, item.isOk = true) →
        batches.flatMap (·.rows) = scan.plan.rowsOf schema written) ∧
      (Reader.openWithLimits system path limits = .ok reader →
        system.contents reader.identity = file → written = rows) := by
  obtain ⟨blocks, hholds, rfl⟩ := h.holds
  have hattached := hchain.attached
  have hknows := hattached.knows hholds hzstd hlimits hinitial
  obtain ⟨parts, turns, rfl, hdelivers, hparts⟩ :=
    hholds.forall₂_of_drains hzstd hattached hlimits hinitial hscan hdrains
  dsimp only
  rw [batchesOf_items, ← hparts]
  refine ⟨fun e he ↦ ?_, fun batch ↦ batch_of_delivers hdelivers, sublist_of_delivers hdelivers,
    fun hok ↦ rows_of_delivers hdelivers (isOk_of_items hok), fun hopen hfile ↦ ?_⟩
  · obtain ⟨turn, hturn, hitem⟩ := List.mem_filterMap.mp he
    rcases turn with found | ⟨- | batch⟩
    · cases hitem
      exact spent_of_delivers hdelivers hturn
    · cases hitem
    · cases hitem
  · rw [hparts, hattached.totalRows_eq]
    have hlength := Reader.length_blocks_of_open hopen hholds hlimits hfile
    have htake := hknows.rows_take le_rfl
    rw [List.take_length, hlength, List.take_of_length_le (by rw [List.length_map]),
      ← List.flatMap_def] at htake
    exact htake.symm

/-- A scan of the file of two sessions. -/
theorem scanned_numberFile :
    ∃ reader first second,
      Sessions storingZstd numberSchema false (oneNumber.rows ++ oneNumber.rows) (numberFile 2) ∧
        Reader.openWithLimits (Reader.oneFile (numberFile 2)) "n.acta" Limits.default =
            .ok reader ∧
          Scan.Drains storingZstd "n.acta" (Reader.oneFile (numberFile 2)) (Scan.new reader)
            [.ok first, .ok second] ∧
            [first, second].flatMap (·.rows) = (Scan.new reader).plan.rowsOf numberSchema
              (oneNumber.rows ++ oneNumber.rows) := by
  obtain ⟨reader, first, second, hopen, -, -, hdrains⟩ := Scan.exists_drains_numberFile
  obtain ⟨-, -, -, hrows, hall⟩ := sessions_numberFile.scanned roundTrips_storingZstd
    (.opened hopen) Limits.coversDefault_default List.prefix_rfl .new hdrains
  have hequal := hrows (List.forall_mem_cons.mpr ⟨rfl, List.forall_mem_singleton.mpr rfl⟩)
  rw [hall hopen rfl] at hequal
  exact ⟨reader, first, second, sessions_numberFile, hopen, hdrains, hequal⟩

/-- The turns of a tail deliver the rows of their blocks, as long as the file is the beginning of
one that holds these. -/
theorem Holds.keeps_delivers (h : Holds zstd schema rowIds blocks file) (hzstd : zstd.RoundTrips)
    (path : String) (hlimits : limits.CoversDefault) (plan : ScanPlan) :
    Tail.Keeps zstd path limits plan (fun _ _ _ ↦ True) fun system reader index turn ↦
      system.contents reader.identity <+: file → ∃ part,
        (blocks.map (·.rows.rows))[index]? = some part ∧ plan.Delivers schema part turn where
  taken hattached hplan hholds _ hknown := by
    refine ⟨fun hinitial ↦ ?_, trivial⟩
    obtain ⟨block, hblock, hdelivers⟩ := ScanProgress.takeBlock_delivers hattached
      (hattached.knows h hzstd hlimits hinitial) hplan hholds hknown
        "range tail did not decode its primary column"
    exact ⟨block.rows.rows, by rw [List.getElem?_map, hblock]; rfl, hdelivers⟩
  ready_refreshed _ _ _ _ := trivial
  counted _ _ _ _ := trivial
  right_refreshed hrefreshes hattached _ hdelivers hinitial := by
    refine hdelivers (List.IsPrefix.trans ?_ hinitial)
    rw [hrefreshes.extends_last.identity]
    exact ((hrefreshes.grows hattached.identity).of_identity hattached.identity).2

/-- **A tail of a file gives the rows that are written behind its reader.**  Let a tail be begun
behind a reader, configured, and polled, any number of times, while its file grows to a beginning of
one that sessions wrote.  The rows of the batches that the polls returned are, in order, rows that
the plan asks for among those that were written behind the reader, up to the blocks that the tail
has dealt with; where no poll failed they are all of these; and when the last poll of the whole file
returned nothing, the tail has dealt with all that was written. -/
theorem Sessions.tailed (h : Sessions zstd schema rowIds rows file) (hzstd : zstd.RoundTrips)
    (hchain : Reader.Chain path limits system reader) (hlimits : limits.CoversDefault)
    {tail later : Tail} (htail : Tail.Configured reader tail) {last : FileSystem}
    {results : List PollResult} (hpolls : Tail.Polls zstd path system tail results last later)
    (hinitial : last.contents later.reader.identity <+: file) :
    let batches := batchesOf results
    let taken := ((later.reader.blocks.take later.progress.nextBlock).map (·.rowCount)).sum
    let written := (rows.take taken).drop reader.fileMetadata.totalRows
    (∀ batch ∈ batches, batch.schema = tail.plan.outputSchema ∧ batch.rows ≠ []) ∧
      (batches.flatMap (·.rows)).Sublist (tail.plan.rowsOf schema written) ∧
      ((∀ result ∈ results, result.isOk = true) →
        batches.flatMap (·.rows) = tail.plan.rowsOf schema written) ∧
      (results.getLast? = some (.ok none) → last.contents later.reader.identity = file →
        rows.take taken = rows) := by
  obtain ⟨blocks, hholds, rfl⟩ := h.holds
  have hattached := hchain.attached
  obtain ⟨events, rfl, htracks, hcaught⟩ :=
    hpolls.tracks (hholds.keeps_delivers hzstd path hlimits tail.plan)
      (htail.tracks hattached trivial)
  have hknows := htracks.attached.knows hholds hzstd hlimits hinitial
  have hturns := htracks.turns.mono fun _ _ _ _ hdelivers ↦ hdelivers hinitial
  have hfirst : reader.blocks.length ≤ later.progress.nextBlock := by
    have hlength := hturns.length
    omega
  have hcounts : ((later.reader.blocks.take reader.blocks.length).map (·.rowCount)).sum =
      reader.fileMetadata.totalRows := by
    rw [← List.prefix_iff_eq_take.mp htracks.isPrefix, hattached.totalRows_eq]
  have hparts := hknows.rows_between hfirst htracks.nextBlock_le
  rw [hcounts] at hparts
  have hdelivers := hturns.forall₂
  dsimp only
  rw [Tail.batchesOf_events, ← hparts]
  refine ⟨fun batch ↦ batch_of_delivers hdelivers, sublist_of_delivers hdelivers,
    fun hok ↦ rows_of_delivers hdelivers (isOk_of_events hok), fun hnone hfile ↦ ?_⟩
  obtain ⟨hnext, hopen⟩ := hcaught hnone
  have hlength := Reader.length_blocks_of_open hopen hholds hlimits hfile
  have htake := hknows.rows_take htracks.nextBlock_le
  rw [hnext, hlength, List.take_of_length_le (by rw [List.length_map]), ← List.flatMap_def] at htake
  rw [hnext, hlength]
  exact htake.symm

/-- A tail behind the first of two sessions, polled after the second. -/
theorem tailed_numberFile :
    ∃ reader batch read later,
      Sessions storingZstd numberSchema false (oneNumber.rows ++ oneNumber.rows) (numberFile 2) ∧
        Tail.Delivery reader batch read later ∧
          batch.rows = (Tail.new reader).plan.rowsOf numberSchema oneNumber.rows := by
  obtain ⟨reader, batch, read, later, h⟩ := Tail.exists_delivery
  have hpolls : Tail.Polls storingZstd "n.acta" (Reader.oneFile (numberFile 1)) (Tail.new reader)
      [_] (Reader.oneFile (numberFile 2)) later := .poll (.start _ _) h.grows h.polls
  obtain ⟨-, -, hrows, -⟩ := sessions_numberFile.tailed roundTrips_storingZstd (.opened h.opens)
    Limits.coversDefault_default .new hpolls List.prefix_rfl
  have hequal := hrows (List.forall_mem_singleton.mpr rfl)
  have hwritten : ((oneNumber.rows ++ oneNumber.rows).take 2).drop 1 = oneNumber.rows := by decide
  rw [h.nextBlock, h.taken, h.totalRows, hwritten] at hequal
  exact ⟨reader, batch, read, later, sessions_numberFile, h,
    (List.append_nil batch.rows).symm.trans hequal⟩

end Writer

end Acta
