import Acta.Read.Allowance
import Acta.Read.Discovery

/-!
# Allowances

What a decode is granted is taken off the allowance of its block and off that of its scan
(`Budget.remaining_run`), so the blocks of a scan are granted no more than the scan allows together
(`Scan.Reached.granted_add`), and every buffer is charged for before it is filled
(`BlockDecoder.chargesFirst`): a refused charge ends the decode and leaves both allowances as they
were.
-/

namespace Acta

open Machine Wire

/-! ### What a charge takes -/

/-- An operation that leaves the decoded bytes of a scan alone. -/
def ScanStep.KeepsBytes (operation : ScanStep) : Prop :=
  ∀ budget, (operation budget).2.remainingBytes = budget.remainingBytes

theorem ScanStep.KeepsBytes.andThen {first second : ScanStep} (h : first.KeepsBytes)
    (h' : second.KeepsBytes) : (first.andThen second).KeepsBytes := by
  intro budget
  have hfirst := h budget
  unfold ScanStep.andThen
  rcases hcase : first budget with ⟨e | u, next⟩
  · rwa [hcase] at hfirst
  · rw [hcase] at hfirst
    exact (h' next).trans hfirst

namespace ScanBudget

theorem keepsBytes_count (counter : ScanMetrics → ℕ) (update : ScanMetrics → ℕ → ScanMetrics)
    (amount : ℕ) : (count counter update amount).KeepsBytes := by
  intro budget
  unfold count
  split <;> rfl

theorem keepsBytes_chargeRows (rows : ℕ) : (chargeRows rows).KeepsBytes := by
  intro budget
  unfold chargeRows
  split <;> rfl

theorem keepsBytes_recordBlock (pruned : Bool) : (recordBlock pruned).KeepsBytes := by
  refine (keepsBytes_count _ _ _).andThen ?_
  split
  · exact keepsBytes_count _ _ _
  · exact fun _ ↦ rfl

theorem keepsBytes_recordBytesRead (bytes : ℕ) : (recordBytesRead bytes).KeepsBytes :=
  keepsBytes_count _ _ _

theorem keepsBytes_recordStream (bytes : ℕ) : (recordStream bytes).KeepsBytes :=
  (keepsBytes_count _ _ _).andThen
    ((keepsBytes_count _ _ _).andThen (keepsBytes_recordBytesRead bytes))

theorem keepsBytes_recordRows (rows : ℕ) : (recordRows rows).KeepsBytes :=
  keepsBytes_count _ _ _

end ScanBudget

namespace Budget

/-- The decoded bytes a decode may still take from its scan, or from its own allowance alone. -/
def scanRemaining (budget : Budget) : ℕ :=
  (budget.scan.map ScanBudget.remainingBytes).getD budget.remaining

/-- A refused charge leaves both allowances as they were. -/
theorem take_eq_error {bytes : ℕ} {budget after : Budget} {e : Error}
    (h : take bytes budget = (.error e, after)) : after = budget := by
  unfold take at h
  split at h
  · cases h
    rfl
  split at h
  · cases h
  split at h
  · cases h
    rfl
  · cases h

theorem take_eq_ok {bytes : ℕ} {budget after : Budget} {u : Unit}
    (h : take bytes budget = (.ok u, after)) :
    after.remaining + bytes = budget.remaining ∧
      after.scanRemaining + bytes = budget.scanRemaining := by
  obtain ⟨remaining, scan⟩ := budget
  unfold take at h
  split at h
  · cases h
  rename_i hremaining
  split at h
  · rename_i hscan
    cases h
    dsimp only at hscan hremaining
    subst hscan
    simp only [scanRemaining, Option.map_none, Option.getD_none]
    omega
  · rename_i scan' hscan
    dsimp only at hscan hremaining
    subst hscan
    split at h
    · cases h
    · rename_i hbytes
      cases h
      simp only [scanRemaining, Option.map_some, Option.getD_some]
      omega

/-- Counting leaves the allowances as they were. -/
theorem allowances_onScan {operation : ScanStep} (h : operation.KeepsBytes) (budget : Budget) :
    (onScan operation budget).2.remaining = budget.remaining ∧
      (onScan operation budget).2.scanRemaining = budget.scanRemaining := by
  obtain ⟨remaining, scan⟩ := budget
  cases scan with
  | none => exact ⟨rfl, rfl⟩
  | some scan => exact ⟨rfl, h scan⟩

theorem step_eq_ok {w : Charge} {budget after : Budget} {u : Unit}
    (h : step w budget = (.ok u, after)) :
    after.remaining + w.decoded = budget.remaining ∧
      after.scanRemaining + w.decoded = budget.scanRemaining := by
  cases w with
  | bytes count => exact take_eq_ok h
  | stream count =>
    have hkeeps := allowances_onScan (ScanBudget.keepsBytes_recordStream count) budget
    rwa [show onScan (ScanBudget.recordStream count) budget = (.ok u, after) from h] at hkeeps
  | read count =>
    have hkeeps := allowances_onScan (ScanBudget.keepsBytes_recordBytesRead count) budget
    rwa [show onScan (ScanBudget.recordBytesRead count) budget = (.ok u, after) from h] at hkeeps

theorem step_eq_error {w : Charge} {budget after : Budget} {e : Error}
    (h : step w budget = (.error e, after)) :
    after.remaining = budget.remaining ∧ after.scanRemaining = budget.scanRemaining := by
  cases w with
  | bytes count =>
    rw [take_eq_error h]
    exact ⟨rfl, rfl⟩
  | stream count =>
    have hkeeps := allowances_onScan (ScanBudget.keepsBytes_recordStream count) budget
    rwa [show onScan (ScanBudget.recordStream count) budget = (.error e, after) from h] at hkeeps
  | read count =>
    have hkeeps := allowances_onScan (ScanBudget.keepsBytes_recordBytesRead count) budget
    rwa [show onScan (ScanBudget.recordBytesRead count) budget = (.error e, after) from h]
      at hkeeps

/-- The decoded bytes a budget grants a decode before it refuses one. -/
def granted {α : Type} (decode : DecodeM α) (budget : Budget) : ℕ :=
  charged (Metered.accepted step decode.spent budget)

/-- **What a decode is granted is taken off both allowances**, and nothing else is. -/
theorem remaining_run {α : Type} (decode : DecodeM α) (budget : Budget) :
    (run decode budget).2.remaining + granted decode budget = budget.remaining ∧
      (run decode budget).2.scanRemaining + granted decode budget = budget.scanRemaining := by
  constructor
  · exact Metered.level_run (fun w s u s' (h : step w s = (.ok u, s')) ↦ (step_eq_ok h).1)
      (fun w s e s' (h : step w s = (.error e, s')) ↦ (step_eq_error h).1) decode budget
  · exact Metered.level_run (fun w s u s' (h : step w s = (.ok u, s')) ↦ (step_eq_ok h).2)
      (fun w s e s' (h : step w s = (.error e, s')) ↦ (step_eq_error h).2) decode budget

/-- A decode that succeeds was granted all it charged. -/
theorem granted_of_run_eq_ok {α : Type} {decode : DecodeM α} {budget after : Budget} {a : α}
    (h : run decode budget = (.ok a, after)) :
    decode.outcome = .ok a ∧ granted decode budget = charged decode.spent := by
  obtain ⟨houtcome, haccepted⟩ := Metered.accepted_of_run_eq_ok h
  exact ⟨houtcome, congrArg charged haccepted⟩

/-- A decode that spends from a scan goes on spending from it. -/
theorem isSome_scan_run {α : Type} (decode : DecodeM α) {budget : Budget}
    (h : budget.scan.isSome) : (run decode budget).2.scan.isSome := by
  have hon (operation : ScanStep) (budget : Budget) (h : budget.scan.isSome) :
      (onScan operation budget).2.scan.isSome := by
    obtain ⟨remaining, scan⟩ := budget
    cases scan with
    | none => exact h
    | some scan => rfl
  have hstep (w : Charge) (budget : Budget) (h : budget.scan.isSome) :
      (step w budget).2.scan.isSome := by
    cases w with
    | bytes count =>
      show (take count budget).2.scan.isSome
      unfold take
      split
      · exact h
      split
      · rename_i hnone
        rw [hnone] at h
        cases h
      split
      · exact h
      · rfl
    | stream count => exact hon _ budget h
    | read count => exact hon _ budget h
  exact Metered.inv_run hstep decode h

end Budget

/-! ### What a scan is granted -/

namespace Budget

/-- The decoded bytes granted to a decode, if there is one. -/
def grantedTo {α : Type} : Option (DecodeM α × Budget) → ℕ
  | none => 0
  | some (decode, budget) => granted decode budget

end Budget

/-- Decoding a frame takes what the decode is granted off the scan's allowance. -/
theorem remainingBytes_decodeSelectedBlock (zstd : Zstd) (file : Bytes) (fileSize : ℕ)
    (frame : FrameMetadata) (layout : BlockLayout) (selection : Selection) (scan : ScanBudget)
    (limits : Limits) :
    ((Read.decodeSelectedBlock zstd file fileSize frame layout selection (some scan)
        limits).2.getD scan).remainingBytes +
      Budget.granted (BlockDecoder.block ⟨zstd, file, fileSize, frame, layout, limits⟩ selection)
        (Budget.new limits.maxDecodedBlockBytes (some scan)) = scan.remainingBytes := by
  have hgranted := (Budget.remaining_run
    (BlockDecoder.block ⟨zstd, file, fileSize, frame, layout, limits⟩ selection)
    (Budget.new limits.maxDecodedBlockBytes (some scan))).2
  have hkept := Budget.isSome_scan_run
    (BlockDecoder.block ⟨zstd, file, fileSize, frame, layout, limits⟩ selection)
    (show (Budget.new limits.maxDecodedBlockBytes (some scan)).scan.isSome from rfl)
  unfold Read.decodeSelectedBlock
  dsimp only
  rcases hrun : Budget.run
    (BlockDecoder.block ⟨zstd, file, fileSize, frame, layout, limits⟩ selection)
    (Budget.new limits.maxDecodedBlockBytes (some scan)) with ⟨result, remaining, after⟩
  rw [hrun] at hgranted hkept
  obtain ⟨scan', rfl⟩ := Option.isSome_iff_exists.mp hkept
  exact hgranted

namespace Reader

variable (zstd : Zstd) (reader : Reader)

/-- The decode `decodeSelectedBlockAt` runs and the budget it runs against, unless it fails
first. -/
def selectedDecode (file : Bytes) (index : ℕ) (selection : Selection) (scan : ScanBudget) :
    Option (DecodeM DecodedBlock × Budget) :=
  match reader.frameAt file index with
  | .error _ => none
  | .ok frame =>
    match (ScanBudget.recordBytesRead frame.totalLength).andThen
        (ScanBudget.recordBytesRead frame.headerLength) scan with
    | (.error _, _) => none
    | (.ok (), scan) =>
      match reader.selectedLayout file index selection frame with
      | .error _ => none
      | .ok layout =>
        let decoder : BlockDecoder :=
          { zstd, file, fileSize := reader.fileMetadata.fileSize, frame, layout,
            limits := reader.limits }
        some (decoder.block selection, Budget.new reader.limits.maxDecodedBlockBytes (some scan))

/-- Decoding a block takes what the decode is granted off the scan's allowance. -/
theorem remainingBytes_decodeSelectedBlockAt (file : Bytes) (index : ℕ) (selection : Selection)
    (scan : ScanBudget) :
    (reader.decodeSelectedBlockAt zstd file index selection scan).2.remainingBytes +
      Budget.grantedTo (reader.selectedDecode zstd file index selection scan) =
        scan.remainingBytes := by
  unfold decodeSelectedBlockAt selectedDecode
  rcases reader.frameAt file index with e | frame
  · rfl
  have hread := ((ScanBudget.keepsBytes_recordBytesRead frame.totalLength).andThen
    (ScanBudget.keepsBytes_recordBytesRead frame.headerLength)) scan
  dsimp only
  rcases hcase : (ScanBudget.recordBytesRead frame.totalLength).andThen
      (ScanBudget.recordBytesRead frame.headerLength) scan with ⟨e | u, counted⟩
  · rwa [hcase] at hread
  rw [hcase] at hread
  rcases reader.selectedLayout file index selection frame with e | layout
  · exact hread
  dsimp only at hread ⊢
  rw [← hread]
  exact remainingBytes_decodeSelectedBlock zstd file _ frame layout selection counted _

end Reader

namespace ScanProgress

variable (zstd : Zstd) (system : FileSystem) (reader : Reader) (plan : ScanPlan)

/-- The decode a turn runs and the budget it runs against, unless it prunes the block or fails
first. -/
def turnDecode (block : BlockMetadata) (progress : ScanProgress) :
    Option (DecodeM DecodedBlock × Budget) :=
  let consumed := { progress with nextBlock := progress.nextBlock + 1 }
  let pruned := plan.shouldPrune block
  match consumed.account (ScanBudget.recordBlock pruned) with
  | (.error _, _) => none
  | (.ok (), recorded) =>
    if pruned then none
    else
      match recorded.openHandle system reader.path with
      | (.error _, _) => none
      | (.ok file, opened) =>
        match opened.account (ScanBudget.chargeRows block.rowCount) with
        | (.error _, _) => none
        | (.ok (), charged) =>
          reader.selectedDecode zstd (system.contents file) progress.nextBlock
            (plan.selection reader.schema) charged.budget

/-- The decoded bytes a scan has left. -/
abbrev remainingBytes (progress : ScanProgress) : ℕ := progress.budget.remainingBytes

theorem remainingBytes_account {operation : ScanStep} (h : operation.KeepsBytes)
    (progress : ScanProgress) :
    (progress.account operation).2.remainingBytes = progress.remainingBytes :=
  h progress.budget

theorem remainingBytes_openHandle (path : String) (progress : ScanProgress) :
    (progress.openHandle system path).2.remainingBytes = progress.remainingBytes := by
  unfold openHandle
  split
  · rfl
  · split <;> rfl

theorem remainingBytes_handOut (batch : RecordBatch) (progress : ScanProgress) :
    (handOut batch progress).2.remainingBytes = progress.remainingBytes := by
  have hsame := remainingBytes_account (ScanBudget.keepsBytes_recordRows batch.rowCount) progress
  unfold handOut
  split
  · rename_i h
    rwa [h] at hsame
  · rename_i h
    rwa [h] at hsame

theorem remainingBytes_deliver (missingPrimary : String) (decoded : DecodedBlock)
    (progress : ScanProgress) :
    (deliver plan missingPrimary decoded progress).2.remainingBytes = progress.remainingBytes := by
  unfold deliver
  split
  · exact remainingBytes_handOut _ _
  · rfl
  · split
    · rfl
    · exact remainingBytes_handOut _ _

/-- **A turn takes what its decode is granted**, and nothing else. -/
theorem remainingBytes_takeBlock (missingPrimary : String) (block : BlockMetadata)
    (progress : ScanProgress) :
    (takeBlock zstd system reader plan missingPrimary block progress).2.remainingBytes +
      Budget.grantedTo (turnDecode zstd system reader plan block progress) =
        progress.remainingBytes := by
  have hrecord := remainingBytes_account
    (ScanBudget.keepsBytes_recordBlock (plan.shouldPrune block))
    { progress with nextBlock := progress.nextBlock + 1 }
  unfold takeBlock turnDecode
  dsimp only
  rcases hblock : ScanProgress.account (ScanBudget.recordBlock (plan.shouldPrune block))
    { progress with nextBlock := progress.nextBlock + 1 } with ⟨e | u, recorded⟩
  · rwa [hblock] at hrecord
  rw [hblock] at hrecord
  dsimp only at hrecord ⊢
  split
  · exact hrecord
  rw [← show recorded.remainingBytes = progress.remainingBytes from hrecord]
  have hopen := remainingBytes_openHandle system reader.path recorded
  unfold decodeBlock
  rcases hhandle : recorded.openHandle system reader.path with ⟨e | file, opened⟩
  · rwa [hhandle] at hopen
  rw [hhandle] at hopen
  dsimp only at hopen ⊢
  rw [← hopen]
  have hrows := remainingBytes_account (ScanBudget.keepsBytes_chargeRows block.rowCount) opened
  rcases hcharge : opened.account (ScanBudget.chargeRows block.rowCount) with ⟨e | u, charged⟩
  · rwa [hcharge] at hrows
  rw [hcharge] at hrows
  dsimp only at hrows ⊢
  rw [← hrows]
  have hdecode := reader.remainingBytes_decodeSelectedBlockAt zstd (system.contents file)
    progress.nextBlock (plan.selection reader.schema) charged.budget
  rcases hcase : reader.decodeSelectedBlockAt zstd (system.contents file) progress.nextBlock
    (plan.selection reader.schema) charged.budget with ⟨e | decoded, budget⟩
  · rwa [hcase] at hdecode
  · rw [hcase] at hdecode
    dsimp only
    rw [remainingBytes_deliver]
    exact hdecode

end ScanProgress

namespace Scan

variable (zstd : Zstd)

/-- The decoded bytes granted to the blocks a call of `next` deals with. -/
def granted (system : FileSystem) (scan : Scan) : ℕ :=
  match _hblock : scan.reader.blocks[scan.progress.nextBlock]? with
  | none => 0
  | some block =>
    Budget.grantedTo (scan.progress.turnDecode zstd system scan.reader scan.plan block) +
      match _hturn : scan.turn zstd system block with
      | (.ok none, later) => granted system later
      | (.ok (some _), _) => 0
      | (.error _, _) => 0
termination_by scan.reader.blocks.length - scan.progress.nextBlock
decreasing_by
  have hlt := (List.getElem?_eq_some_iff.mp _hblock).1
  have hlater : later = (scan.turn zstd system block).2 := by rw [_hturn]
  have hreader : later.reader = scan.reader := by rw [hlater]; rfl
  have hnext : later.progress.nextBlock = scan.progress.nextBlock + 1 := by
    rw [hlater]
    exact ScanProgress.nextBlock_takeBlock zstd system _ _ _ _ _
  rw [hreader, hnext]
  omega

theorem remainingBytes_turn (system : FileSystem) (scan : Scan) (block : BlockMetadata) :
    (scan.turn zstd system block).2.progress.remainingBytes +
      Budget.grantedTo (scan.progress.turnDecode zstd system scan.reader scan.plan block) =
        scan.progress.remainingBytes :=
  ScanProgress.remainingBytes_takeBlock zstd system _ _ _ _ _

theorem granted_of_none {system : FileSystem} {scan : Scan}
    (h : scan.reader.blocks[scan.progress.nextBlock]? = none) :
    scan.granted zstd system = 0 := by
  rw [granted]
  split
  · rfl
  · rename_i hsome
    rw [h] at hsome
    cases hsome

theorem granted_of_some {system : FileSystem} {scan : Scan} {block : BlockMetadata}
    (h : scan.reader.blocks[scan.progress.nextBlock]? = some block) :
    scan.granted zstd system =
      Budget.grantedTo (scan.progress.turnDecode zstd system scan.reader scan.plan block) +
        match scan.turn zstd system block with
        | (.ok none, later) => later.granted zstd system
        | _ => 0 := by
  rw [granted]
  split
  · rename_i hnone
    rw [h] at hnone
    cases hnone
  · rename_i found hfound
    rw [h] at hfound
    cases hfound
    split <;> rename_i hturn <;> rw [hturn]

/-- **Asking for an item takes what its blocks are granted.** -/
theorem remainingBytes_next (system : FileSystem) (scan : Scan) :
    (scan.next zstd system).2.progress.remainingBytes + scan.granted zstd system =
      scan.progress.remainingBytes := by
  induction scan using Scan.next.induct zstd system with
  | case1 scan hblock =>
    rw [next_of_none zstd hblock, granted_of_none zstd hblock]
    rfl
  | case2 scan block hblock e later hturn =>
    have htaken := scan.remainingBytes_turn zstd system block
    rw [next_of_some zstd hblock, granted_of_some zstd hblock]
    rw [hturn] at htaken ⊢
    exact htaken
  | case3 scan block hblock batch later hturn =>
    have htaken := scan.remainingBytes_turn zstd system block
    rw [next_of_some zstd hblock, granted_of_some zstd hblock]
    rw [hturn] at htaken ⊢
    exact htaken
  | case4 scan block hblock later hturn ih =>
    have htaken := scan.remainingBytes_turn zstd system block
    rw [next_of_some zstd hblock, granted_of_some zstd hblock]
    rw [hturn] at htaken ⊢
    dsimp only at htaken ⊢
    omega

/-- What a scan of a reader can come to by projecting, choosing a range and asking for items while
the files change, with the decoded bytes its decodes were granted on the way. -/
inductive Reached (reader : Reader) : Scan → ℕ → Prop
  | new : Reached reader (Scan.new reader) 0
  | project {scan scan' : Scan} {total : ℕ} (columns : List String) :
      Reached reader scan total → scan.project columns = .ok scan' → Reached reader scan' total
  | primaryRange {scan scan' : Scan} {total : ℕ} (range : PrimaryRange) :
      Reached reader scan total → scan.primaryRange range = .ok scan' → Reached reader scan' total
  | next {scan : Scan} {total : ℕ} (system : FileSystem) :
      Reached reader scan total →
        Reached reader (scan.next zstd system).2 (total + scan.granted zstd system)

/-- **A scan is granted no more than its reader allows.** -/
theorem Reached.granted_add {reader : Reader} {scan : Scan} {total : ℕ}
    (h : Reached zstd reader scan total) :
    scan.progress.remainingBytes + total = reader.limits.maxDecodedScanBytes := by
  induction h with
  | new => rfl
  | project columns _ hproject ih =>
    obtain ⟨plan, -, hscan⟩ := bind_eq_ok.mp hproject
    cases hscan
    exact ih
  | primaryRange range _ hrange ih =>
    obtain ⟨plan, -, hscan⟩ := bind_eq_ok.mp hrange
    cases hscan
    exact ih
  | @next scan total system _ ih =>
    have htaken := remainingBytes_next zstd system scan
    omega

end Scan

/-! ### Charging before filling -/

namespace Budget

/-- A charge that changes nothing when it is refused. -/
def Refusable (charge : DecodeM Unit) : Prop :=
  ∀ budget e after, run charge budget = (.error e, after) → after = budget

theorem refusable_charge (bytes : ℕ) : Refusable (charge bytes) := by
  intro budget e after h
  rw [run, charge, Metered.run_spend] at h
  exact take_eq_error h

theorem refusable_chargeElements (count width : ℕ) : Refusable (chargeElements count width) := by
  intro budget e after h
  unfold chargeElements at h
  rcases hmul : okOr (checkedMul count width) exceeded with e' | bytes
  · rw [hmul] at h
    cases h
    rfl
  · rw [hmul] at h
    exact refusable_charge bytes budget e after h

/-- A decode that comes to a charge after `before`: if the charge is refused, the decode ends with
the refusal and both allowances as they were. -/
def StopsAt {α β : Type} (before : DecodeM β) (charge : β → DecodeM Unit) (decode : DecodeM α) :
    Prop :=
  ∀ budget b left e after, run before budget = (.ok b, left) →
    run (charge b) left = (.error e, after) → run decode budget = (.error e, left)

theorem stopsAt_bind {α β : Type} {before : DecodeM β} {charge : β → DecodeM Unit}
    (h : ∀ b, Refusable (charge b)) (fill : β → DecodeM α) :
    StopsAt before charge (before >>= fun b ↦ charge b >>= fun _ ↦ fill b) := by
  intro budget b left e after hbefore hcharge
  have hleft := h b left e after hcharge
  rw [run] at hbefore hcharge ⊢
  rw [Metered.run_bind, hbefore]
  dsimp only
  rw [Metered.run_bind, hcharge, hleft]

/-- A decode that begins with a charge. -/
theorem stopsAt_first {α : Type} {charge : DecodeM Unit} (h : Refusable charge)
    (fill : DecodeM α) : StopsAt (pure ()) (fun _ ↦ charge) (charge >>= fun _ ↦ fill) :=
  stopsAt_bind (fun _ ↦ h) fun _ ↦ fill

end Budget

/-- A buffer is charged for before it is filled, and what has been charged by then, with what was
paid before, covers its size. -/
structure Budget.FillsCharged {α β : Type} (paid : ℕ) (before : DecodeM β)
    (charge : β → DecodeM Unit) (decode : DecodeM α) (size : α → ℕ) : Prop where
  stops : StopsAt before charge decode
  covered : Affords paid decode size

namespace BlockDecoder

open Budget Read

/-- Every buffer of a decode is charged for before it is filled.  Each entry gives what a decode
does up to a charge, the charge, and the size of the buffer it is for. -/
structure ChargesFirst (decoder : BlockDecoder) : Prop where
  stored (stream : StreamDescriptor) (column : Column) :
    FillsCharged 0 (decoder.streamExtent stream column) (fun _ ↦ charge stream.storedLength)
      (decoder.streamBytes stream column) List.length
  decompressed (stream : StreamDescriptor) (column : Column) (hcodec : stream.codec ≠ codecNone) :
    FillsCharged 0
      (do let offset ← decoder.streamExtent stream column
          charge stream.storedLength
          decoder.storedBytes stream column offset)
      (fun _ ↦ charge stream.transformedLength) (decoder.streamBytes stream column) List.length
  unpacked (stream : StreamDescriptor) (column : Column) (count : ℕ) (what : String)
      (htransform : stream.transform = transformBitPacked) :
    FillsCharged 0 (decoder.streamBytes stream column)
      (fun _ ↦ chargeElements count unpackedValueBytes) (decoder.unpack stream column count what)
      fun values ↦ values.length * unpackedValueBytes
  booleans (stream : StreamDescriptor) (column : Column) :
    FillsCharged 0 (decoder.streamBytes stream column) (fun _ ↦ chargeBooleans stream.elementCount)
      (decoder.booleans stream column) DenseValues.size
  integers (stream : StreamDescriptor) (column : Column) (type : IntType) :
    FillsCharged 0 (decoder.streamBytes stream column)
      (fun _ ↦ chargeElements stream.elementCount type.width)
      (decoder.integers stream column type) DenseValues.size
  canonical (payload : Bytes) (stream : StreamDescriptor) (column : Column) (width : ℕ)
      (htransform : stream.transform = transformByteStreamSplit) :
    FillsCharged 0 (okOr (checkedMul stream.elementCount width)
        (corrupt column "the value byte count overflows") : Result ℕ)
      (fun expected ↦ charge expected) (canonicalBytes payload stream column width) List.length
  floats (stream : StreamDescriptor) (column : Column) (float : Read.Float) :
    FillsCharged 0
      (do let payload ← decoder.streamBytes stream column
          canonicalBytes payload stream column float.width)
      (fun _ ↦ chargeElements stream.elementCount float.width)
      (decoder.floats stream column float) DenseValues.size
  fixedBinary (stream : StreamDescriptor) (column : Column) (width : ℕ)
      (hwidth : width + valueHandleBytes ≤ u64Max) :
    FillsCharged 0
      (do let payload ← decoder.streamBytes stream column
          canonicalBytes payload stream column width)
      (fun _ ↦ chargeElements stream.elementCount (saturatingAdd width valueHandleBytes))
      (decoder.fixedBinary stream column width) DenseValues.size
  lengths (streams : List StreamDescriptor) (column : Column) (kind count : ℕ) :
    FillsCharged 0
      (do let stream ← requiredStream streams kind column
          expectElements stream count column
          let payload ← decoder.streamBytes stream column
          return (stream, payload))
      (fun _ ↦ chargeElements count lengthValueBytes) (decoder.lengths streams column kind count)
      fun lengths ↦ lengths.length * lengthValueBytes
  bytes (streams : List StreamDescriptor) (column : Column) (valuesKind lengthsKind count : ℕ)
      (hvariable : ∀ byteWidth, column.logicalType ≠ .fixedBinary byteWidth) :
    FillsCharged 0
      (do let stream ← requiredStream streams valuesKind column
          expectElements stream count column
          failIf (stream.transform ≠ transformRaw)
            (corrupt column "variable-width values must use the raw transform")
          let lengths ← decoder.lengths streams column lengthsKind count
          let payload ← decoder.streamBytes stream column
          return (lengths, payload))
      (fun (_, payload) ↦ charge payload.length)
      (decoder.byteValues streams column valuesKind lengthsKind count) DenseValues.size
  handles (streams : List StreamDescriptor) (column : Column) (valuesKind lengthsKind count : ℕ)
      (hvariable : ∀ byteWidth, column.logicalType ≠ .fixedBinary byteWidth) :
    FillsCharged 0
      (do let stream ← requiredStream streams valuesKind column
          expectElements stream count column
          failIf (stream.transform ≠ transformRaw)
            (corrupt column "variable-width values must use the raw transform")
          let lengths ← decoder.lengths streams column lengthsKind count
          let payload ← decoder.streamBytes stream column
          charge payload.length
          return (lengths, payload))
      (fun _ ↦ chargeElements count valueHandleBytes)
      (decoder.byteValues streams column valuesKind lengthsKind count) DenseValues.size
  repeated (dense : DenseValues) (count : ℕ) (column : Column) :
    FillsCharged dense.size (pure ()) (fun _ ↦ chargeElements count dense.valueBytes)
      (dense.repeated count column) DenseValues.size
  expanded (dense : DenseValues) (indices : List ℕ) (column : Column) :
    FillsCharged dense.size (pure ()) (fun _ ↦ chargeElements indices.length dense.valueBytes)
      (dense.expanded indices column) DenseValues.size
  runs (dense : DenseValues) (lengths : List ℕ) (column : Column) :
    FillsCharged dense.size (okOr (lengths.foldlM checkedAdd 0)
        (corrupt column "run length sum overflow") : Result ℕ)
      (fun total ↦ chargeElements total dense.valueBytes) (dense.runs lengths column)
      DenseValues.size
  slots (dense : DenseValues) (column : Column) (validity : Option (List Bool)) (rows : ℕ)
      (hmoves : movesIntoPlace column validity = false) :
    FillsCharged (validitySize validity + dense.size) (pure ())
      (fun _ ↦ chargeElements rows dense.slotBytes) (dense.intoArray column validity rows)
      LogicalArray.size
  implicitValidity (column : Column) (descriptor : ColumnBlockDescriptor) (rows : ℕ)
      (hnull : descriptor.nullCount = rows) (hrows : rows ≠ 0) :
    FillsCharged 0 (pure ()) (fun _ ↦ chargeElements rows booleanValueBytes)
      (BlockDecoder.implicitValidity column descriptor none rows) validitySize
  storedValidity (column : Column) (descriptor : ColumnBlockDescriptor) (stream : StreamDescriptor)
      (rows : ℕ) :
    FillsCharged 0
      (do expectElements stream rows column
          decoder.streamBytes stream column)
      (fun _ ↦ chargeBooleans rows) (decoder.storedValidity column descriptor stream rows)
      validitySize
  runLengths (streams : List StreamDescriptor) (column : Column) (count : ℕ) :
    FillsCharged 0
      (do let stream ← requiredStream streams streamKindRunLengths column
          let packed ← decoder.unpack stream column stream.elementCount "run lengths"
          return (stream, packed))
      (fun (stream, _) ↦ chargeElements stream.elementCount 8)
      (decoder.runLengths streams column count) fun lengths ↦ lengths.length * 8
  primaryValues (array : LogicalArray) :
    FillsCharged 0 (pure ()) (fun _ ↦ chargeElements array.len 8)
      (decoder.verifyPrimaryColumn array) fun values ↦ values.length * 8

theorem affords_length_canonicalBytes {payload : Bytes} {stream : StreamDescriptor}
    {column : Column} {width : ℕ} (h : stream.transform = transformByteStreamSplit) :
    Affords 0 (canonicalBytes payload stream column width) List.length := by
  intro canonical hcanonical
  have hraw : ¬stream.transform = transformRaw := by
    rw [h]
    decide
  rw [length_of_canonicalBytes hcanonical]
  -- The bytes are charged for whole, so it is enough to look at the charge.
  have hcharge : Affords 0 (canonicalBytes payload stream column width)
      fun _ ↦ stream.elementCount * width := by
    simp only [canonicalBytes, if_neg hraw, if_pos h]
    refine Metered.Affords.lift_bind fun expected hexpected ↦ ?_
    obtain ⟨-, rfl⟩ := checkedMul_eq_some.mp (okOr_eq_ok.mp hexpected)
    refine (affords_charge _ _).bind fun _ _ ↦ ?_
    exact (Metered.affords_paid _).mono fun _ _ ↦ by omega
  exact hcharge canonical hcanonical

/-- The run lengths a decode keeps are covered by their second charge. -/
theorem affords_runLengths {decoder : BlockDecoder} {streams : List StreamDescriptor}
    {column : Column} {count : ℕ} :
    Affords 0 (decoder.runLengths streams column count) fun lengths ↦ lengths.length * 8 := by
  refine Metered.Affords.lift_bind fun stream _ ↦ ?_
  refine affords_unpack.bind fun packed _ ↦ ?_
  refine (affords_chargeElements _ _ _).bind fun _ _ ↦ ?_
  refine Metered.Affords.lift_bind fun _ _ ↦ ?_
  refine Metered.affords_pure ?_
  rw [unpackedValueBytes]
  omega

theorem affords_verifyPrimaryColumn {decoder : BlockDecoder} {array : LogicalArray} :
    Affords 0 (decoder.verifyPrimaryColumn array) fun values ↦ values.length * 8 := by
  refine (affords_chargeElements _ _ _).bind fun _ _ ↦ ?_
  refine Metered.Affords.lift_bind fun values hvalues ↦ ?_
  refine Metered.Affords.lift_bind fun _ _ ↦ ?_
  refine Metered.affords_pure ?_
  rw [length_of_mapM_eq_ok hvalues, LogicalArray.length_rows]
  omega

/-- The steps of decoding variable-width values. -/
theorem byteValues_of_variable {decoder : BlockDecoder} {streams : List StreamDescriptor}
    {column : Column} {valuesKind lengthsKind count : ℕ}
    (h : ∀ byteWidth, column.logicalType ≠ .fixedBinary byteWidth) :
    decoder.byteValues streams column valuesKind lengthsKind count =
      ((do let stream ← requiredStream streams valuesKind column
           expectElements stream count column
           failIf (stream.transform ≠ transformRaw)
             (corrupt column "variable-width values must use the raw transform")
           let lengths ← decoder.lengths streams column lengthsKind count
           let payload ← decoder.streamBytes stream column
           return (lengths, payload) : DecodeM (List ℕ × Bytes)) >>= fun read ↦ do
        charge read.2.length
        chargeElements count valueHandleBytes
        splitValues read.2 read.1 column) := by
  unfold byteValues
  simp only [bind_assoc, pure_bind]

/-- **Every buffer of a decode is charged for before it is filled.** -/
theorem chargesFirst (decoder : BlockDecoder) : decoder.ChargesFirst where
  stored stream column :=
    { stops := stopsAt_bind (fun _ ↦ refusable_charge _) _
      covered := affords_streamBytes.mono fun _ _ ↦ by omega }
  decompressed stream column hcodec := by
    have hsteps : decoder.streamBytes stream column =
        ((do let offset ← decoder.streamExtent stream column
             charge stream.storedLength
             decoder.storedBytes stream column offset : DecodeM Bytes) >>= fun stored ↦ do
          charge stream.transformedLength
          let transformed ← (decompress decoder.zstd stream.codec stored
            stream.transformedLength).withMessagePrefix s!"column {column.name}"
          recordStream stream.storedLength
          return transformed) := by
      simp only [streamBytes, if_neg hcodec, bind_assoc]
    refine ⟨?_, affords_streamBytes.mono fun _ _ ↦ by omega⟩
    rw [hsteps]
    exact stopsAt_bind (fun _ ↦ refusable_charge _) _
  unpacked stream column count what htransform := by
    refine ⟨?_, affords_unpack.mono fun _ _ ↦ by omega⟩
    unfold unpack
    rw [failIf_neg (not_not.mpr htransform)]
    exact stopsAt_bind (fun _ ↦ refusable_chargeElements _ _) _
  booleans stream column :=
    { stops := stopsAt_bind (fun _ ↦ refusable_chargeElements _ _) _
      covered := affords_booleans.mono fun _ _ ↦ by omega }
  integers stream column type :=
    { stops := stopsAt_bind (fun _ ↦ refusable_chargeElements _ _) _
      covered := affords_integers.mono fun _ _ ↦ by omega }
  canonical payload stream column width htransform := by
    have hraw : ¬stream.transform = transformRaw := by
      rw [htransform]
      decide
    refine ⟨?_, affords_length_canonicalBytes htransform⟩
    simp only [canonicalBytes, if_neg hraw, if_pos htransform]
    exact stopsAt_bind (fun _ ↦ refusable_charge _) _
  floats stream column float := by
    refine ⟨?_, affords_floats.mono fun _ _ ↦ by omega⟩
    unfold floats
    rw [← bind_assoc]
    exact stopsAt_bind (fun _ ↦ refusable_chargeElements _ _) _
  fixedBinary stream column width hwidth := by
    refine ⟨?_, (affords_fixedBinary hwidth).mono fun _ _ ↦ by omega⟩
    unfold BlockDecoder.fixedBinary
    rw [← bind_assoc]
    exact stopsAt_bind (fun _ ↦ refusable_chargeElements _ _) _
  lengths streams column kind count := by
    refine ⟨?_, affords_lengths.mono fun _ _ ↦ by omega⟩
    have hsteps : decoder.lengths streams column kind count =
        ((do let stream ← requiredStream streams kind column
             expectElements stream count column
             let payload ← decoder.streamBytes stream column
             return (stream, payload) : DecodeM (StreamDescriptor × Bytes)) >>= fun read ↦ do
          chargeElements count lengthValueBytes
          let lengths ← Transform.lengths read.2 read.1.elementCount read.1.transform
            (description column "lengths")
          return lengths.map fun length ↦ length.val.toNat) := by
      simp only [BlockDecoder.lengths, bind_assoc, pure_bind]
    rw [hsteps]
    exact stopsAt_bind (fun _ ↦ refusable_chargeElements _ _) _
  bytes streams column valuesKind lengthsKind count hvariable := by
    refine ⟨?_, affords_byteValues.mono fun _ _ ↦ by omega⟩
    rw [byteValues_of_variable hvariable]
    exact stopsAt_bind (fun _ ↦ refusable_charge _) _
  handles streams column valuesKind lengthsKind count hvariable := by
    refine ⟨?_, affords_byteValues.mono fun _ _ ↦ by omega⟩
    have hsteps : decoder.byteValues streams column valuesKind lengthsKind count =
        ((do let stream ← requiredStream streams valuesKind column
             expectElements stream count column
             failIf (stream.transform ≠ transformRaw)
               (corrupt column "variable-width values must use the raw transform")
             let lengths ← decoder.lengths streams column lengthsKind count
             let payload ← decoder.streamBytes stream column
             charge payload.length
             return (lengths, payload) : DecodeM (List ℕ × Bytes)) >>= fun read ↦ do
          chargeElements count valueHandleBytes
          splitValues read.2 read.1 column) := by
      rw [byteValues_of_variable hvariable]
      simp only [bind_assoc, pure_bind]
    rw [hsteps]
    exact stopsAt_bind (fun _ ↦ refusable_chargeElements _ _) _
  repeated dense count column := by
    refine ⟨stopsAt_first (refusable_chargeElements _ _) _, ?_⟩
    have hcopies : Affords (0 + dense.size) (dense.repeated count column)
      fun expanded ↦ 0 + expanded.size := dense.affords_repeated count
    simpa only [Nat.zero_add] using hcopies
  expanded dense indices column := by
    refine ⟨stopsAt_first (refusable_chargeElements _ _) _, ?_⟩
    have hcopies : Affords (0 + dense.size) (dense.expanded indices column)
      fun expanded ↦ 0 + expanded.size := dense.affords_expanded indices
    simpa only [Nat.zero_add] using hcopies
  runs dense lengths column := by
    refine ⟨stopsAt_bind (fun _ ↦ refusable_chargeElements _ _) _, ?_⟩
    have hcopies : Affords (0 + dense.size) (dense.runs lengths column)
      fun expanded ↦ 0 + expanded.size := dense.affords_runs lengths
    simpa only [Nat.zero_add] using hcopies
  slots dense column validity rows hmoves := by
    constructor
    · unfold DenseValues.intoArray
      simp only [hmoves]
      exact stopsAt_first (refusable_chargeElements _ _) _
    · have harray : Affords (0 + validitySize validity + dense.size)
        (dense.intoArray column validity rows) fun array ↦ 0 + array.size := dense.affords_intoArray
      simpa only [Nat.zero_add] using harray
  implicitValidity column descriptor rows hnull hrows := by
    constructor
    · have hsome : ¬descriptor.nullCount = 0 := by omega
      simp only [BlockDecoder.implicitValidity, if_neg hsome]
      rw [failIf_neg (by simp), failIf_neg (not_not.mpr hnull)]
      exact stopsAt_first (refusable_chargeElements _ _) _
    · exact affords_implicitValidity.mono fun _ _ ↦ by omega
  storedValidity column descriptor stream rows := by
    refine ⟨?_, affords_storedValidity.mono fun _ _ ↦ by omega⟩
    unfold BlockDecoder.storedValidity
    rw [← bind_assoc]
    exact stopsAt_bind (fun _ ↦ refusable_chargeElements _ _) _
  runLengths streams column count := by
    refine ⟨?_, affords_runLengths⟩
    have hsteps : decoder.runLengths streams column count =
        ((do let stream ← requiredStream streams streamKindRunLengths column
             let packed ← decoder.unpack stream column stream.elementCount "run lengths"
             return (stream, packed) : DecodeM (StreamDescriptor × List ℕ)) >>= fun read ↦ do
          chargeElements read.1.elementCount 8
          checkRunLengths column count 0 read.2
          return read.2) := by
      simp only [BlockDecoder.runLengths, bind_assoc, pure_bind]
    rw [hsteps]
    exact stopsAt_bind (fun _ ↦ refusable_chargeElements _ _) _
  primaryValues array :=
    { stops := stopsAt_first (refusable_chargeElements _ _) _
      covered := affords_verifyPrimaryColumn }

end BlockDecoder

/-! ### Decoding within an allowance -/

namespace Read

/-- A decode that succeeds returns no more than it charged, which both allowances granted. -/
theorem size_le_of_decodeSelectedBlock {zstd : Zstd} {file : Bytes} {fileSize : ℕ}
    {frame : FrameMetadata} {layout : BlockLayout} {selection : Selection}
    {scan after : Option ScanBudget} {limits : Limits} {decoded : DecodedBlock}
    (h : decodeSelectedBlock zstd file fileSize frame layout selection scan limits =
      (.ok decoded, after)) :
    let decode := BlockDecoder.block ⟨zstd, file, fileSize, frame, layout, limits⟩ selection
    decoded.batch.size ≤ Budget.charged decode.spent ∧
      Budget.charged decode.spent ≤ limits.maxDecodedBlockBytes ∧
      ∀ before ∈ scan, ∃ left ∈ after,
        left.remainingBytes + Budget.charged decode.spent = before.remainingBytes := by
  intro decode
  unfold decodeSelectedBlock at h
  dsimp only at h
  rcases hrun : Budget.run decode (Budget.new limits.maxDecodedBlockBytes scan) with
    ⟨result, budget⟩
  rw [show Budget.run (BlockDecoder.block ⟨zstd, file, fileSize, frame, layout, limits⟩ selection)
    (Budget.new limits.maxDecodedBlockBytes scan) = (result, budget) from hrun] at h
  obtain ⟨hresult, rfl⟩ := Prod.mk.inj h
  rw [withContext_eq_ok] at hresult
  subst hresult
  obtain ⟨houtcome, hgranted⟩ := Budget.granted_of_run_eq_ok hrun
  have htaken := Budget.remaining_run decode (Budget.new limits.maxDecodedBlockBytes scan)
  rw [hgranted, hrun] at htaken
  refine ⟨?_, ?_, ?_⟩
  · have hsize := BlockDecoder.affords_block selection decoded houtcome
    rwa [Nat.zero_add] at hsize
  · have hblock := htaken.1
    dsimp only [Budget.new] at hblock
    omega
  · rintro before ⟨⟩
    have hkept := Budget.isSome_scan_run decode
      (show (Budget.new limits.maxDecodedBlockBytes (some before)).scan.isSome from rfl)
    rw [hrun] at hkept
    obtain ⟨remaining, scan'⟩ := budget
    obtain ⟨left, rfl⟩ := Option.isSome_iff_exists.mp hkept
    exact ⟨left, rfl, htaken.2⟩

end Read

/-- **Decoding respects its allowances.**  What a decode of any bytes returns is no larger than what
it charged, which the allowances of its block and of its scan both granted; the blocks of a scan
are granted no more than the scan's allowance, whatever calls are made on it and however the files
change; and every buffer is charged for before it is filled, a refused charge ending the decode
with both allowances as they were. -/
theorem decodes_within_allowances (zstd : Zstd) :
    (∀ file fileSize frame layout schema limits batch,
      Read.decodeBlock zstd file fileSize frame layout schema limits = .ok batch →
      let selection := Selection.all schema (List.range schema.columns.length)
      let decode := BlockDecoder.block ⟨zstd, file, fileSize, frame, layout, limits⟩ selection
      batch.size ≤ Budget.charged decode.spent ∧
        Budget.charged decode.spent ≤ limits.maxDecodedBlockBytes) ∧
    (∀ file fileSize frame layout selection scan limits decoded after,
      Read.decodeSelectedBlock zstd file fileSize frame layout selection scan limits =
        (.ok decoded, after) →
      let decode := BlockDecoder.block ⟨zstd, file, fileSize, frame, layout, limits⟩ selection
      decoded.batch.size ≤ Budget.charged decode.spent ∧
        Budget.charged decode.spent ≤ limits.maxDecodedBlockBytes ∧
        ∀ before ∈ scan, ∃ left ∈ after,
          left.remainingBytes + Budget.charged decode.spent = before.remainingBytes) ∧
    (∀ reader scan total, Scan.Reached zstd reader scan total →
      total ≤ reader.limits.maxDecodedScanBytes) ∧
    (∀ decoder : BlockDecoder, decoder.ChargesFirst) := by
  refine ⟨?_, ?_, ?_, BlockDecoder.chargesFirst⟩
  · intro file fileSize frame layout schema limits batch h selection decode
    replace h : (Read.decodeSelectedBlock zstd file fileSize frame layout selection none
      limits).1.map (·.batch) = .ok batch := h
    rcases hcase : Read.decodeSelectedBlock zstd file fileSize frame layout selection none limits
      with ⟨e | decoded, after⟩
    · rw [hcase] at h
      cases h
    · rw [hcase] at h
      cases h
      obtain ⟨hsize, hcharged, -⟩ := Read.size_le_of_decodeSelectedBlock hcase
      exact ⟨hsize, hcharged⟩
  · intro file fileSize frame layout selection scan limits decoded after h
    exact Read.size_le_of_decodeSelectedBlock h
  · intro reader scan total h
    have htotal := h.granted_add
    omega

/-- A block of one row, which an open of its file lets be decoded. -/
theorem decodes_within_allowances_numberFile :
    ∃ fileSize frame layout schema batch,
      Read.decodeBlock storingZstd (numberFile 2) fileSize frame layout schema Limits.default =
          .ok batch ∧
        batch.rows = oneNumber.rows ∧
          let decode := BlockDecoder.block
            ⟨storingZstd, numberFile 2, fileSize, frame, layout, Limits.default⟩
            (Selection.all schema (List.range schema.columns.length))
          batch.size ≤ Budget.charged decode.spent ∧
            Budget.charged decode.spent ≤ Limits.default.maxDecodedBlockBytes := by
  obtain ⟨reader, hopen, hreads⟩ := Reader.exists_readBlock_numberFile
  obtain ⟨batch, hread, hrows⟩ := hreads 0 (by decide)
  obtain ⟨-, -, hlimits, -⟩ := Reader.openWithLimits_eq_ok.mp hopen
  obtain ⟨opened, -, hdecode⟩ := bind_eq_ok.mp hread
  obtain ⟨frame, -, hdecode⟩ := bind_eq_ok.mp hdecode
  obtain ⟨layout, -, hdecode⟩ := bind_eq_ok.mp hdecode
  rw [hlimits] at hdecode
  obtain ⟨hsize, hcharged⟩ :=
    (decodes_within_allowances storingZstd).1 _ _ frame layout reader.schema _ batch hdecode
  exact ⟨_, frame, layout, reader.schema, batch, hdecode, hrows, hsize, hcharged⟩

end Acta
