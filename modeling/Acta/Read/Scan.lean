import Acta.Read.Reader

/-!
# Scans

Lazy scan planning, pruning and row filtering.  A plan is shared by a snapshot scan and a live tail,
which walk the same committed blocks and take the same turn at each of them.
-/

namespace Acta

open Machine Wire

/-- A typed half-open range over the schema's primary column. -/
inductive PrimaryRange
  | timestamp (start stop : IntType.int64.Value)
  | date32 (start stop : IntType.int32.Value)
  deriving DecidableEq

/-- The first value the range includes, and the first past it. -/
def PrimaryRange.bounds : PrimaryRange → ℤ × ℤ
  | timestamp start stop => (start.val, stop.val)
  | date32 start stop => (start.val, stop.val)

/-- The schema of a projection. -/
def projectedSchema (schema : Schema) (projection : List ℕ) : Schema where
  schemaId := schema.schemaId
  columns := projection.filterMap (schema.columns[·]?)
  primaryColumnId := schema.primaryColumnId.filter fun id ↦
    projection.any fun index ↦ schema.columns[index]?.any (·.id = id)

/-- The projection and primary-range configuration shared by a scan and a tail. -/
structure ScanPlan where
  projection : List ℕ
  outputSchema : Schema
  range : Option PrimaryRange

namespace ScanPlan

/-- A plan over every column of a schema, in schema order. -/
def new (schema : Schema) : ScanPlan where
  projection := List.range schema.columns.length
  outputSchema := projectedSchema schema (List.range schema.columns.length)
  range := none

/-- The schema positions of the named columns, after those already chosen. -/
def positions (schema : Schema) : List ℕ → List String → Result (List ℕ)
  | chosen, [] => .ok chosen
  | chosen, name :: names => do
    let index ← okOr (schema.columns.findIdx? (·.name = name))
      (Error.invalidArgument s!"unknown projected column {name}")
    failIf (index ∈ chosen)
      (Error.invalidArgument s!"projected column {name} was requested more than once")
    positions schema (chosen ++ [index]) names

/-- Select columns by exact schema name, preserving the requested order. -/
def project (plan : ScanPlan) (schema : Schema) (columns : List String) : Result ScanPlan := do
  let projection ← positions schema [] columns
  return { plan with projection, outputSchema := projectedSchema schema projection }

/-- Whether a range is over values of a logical type. -/
def compatible : PrimaryRange → LogicalType → Bool
  | .timestamp _ _, .timestamp _ _ => true
  | .date32 _ _, .date32 => true
  | _, _ => false

/-- Configure a typed half-open primary range. -/
def primaryRange (plan : ScanPlan) (schema : Schema) (range : PrimaryRange) : Result ScanPlan := do
  failIf (range.bounds.2 < range.bounds.1)
    (Error.invalidArgument "primary range start must not be greater than its end")
  let primary ← okOr schema.primaryColumn
    (Error.invalidArgument "primary ranges require a schema primary column")
  failIf (¬compatible range primary.logicalType)
    (Error.invalidArgument s!"primary range type does not match primary column {primary.name}")
  return { plan with range := some range }

/-- The one column a consumer may decode without projecting it. -/
def internalPrimary (plan : ScanPlan) (schema : Schema) : Option ℕ :=
  (primaryIndex schema).filter fun index ↦ plan.range.isSome || plan.projection.contains index

/-- The decode selection this plan requests for one block. -/
def selection (plan : ScanPlan) (sourceSchema : Schema) : Selection where
  sourceSchema := sourceSchema
  outputSchema := plan.outputSchema
  selected := plan.projection
  primary := plan.internalPrimary sourceSchema

/-- Whether a block's stored primary bounds exclude every range value. -/
def shouldPrune (plan : ScanPlan) (block : BlockMetadata) : Bool :=
  match plan.range with
  | none => false
  | some range =>
    let (start, stop) := range.bounds
    if start = stop then
      true
    else
      match block.primaryBounds with
      | none => false
      | some (minimum, maximum) => maximum < start ∨ stop ≤ minimum

/-- The first position of `values` from which on `below` is false, found by halving `[low, high)`
as the standard library's `partition_point` does. -/
def partitionPoint (below : ℤ → Bool) (values : List ℤ) (low high : ℕ) : ℕ :=
  if _h : low < high then
    let middle := (low + high) / 2
    if below (values[middle]?.getD 0) then partitionPoint below values (middle + 1) high
    else partitionPoint below values low middle
  else
    low
termination_by high - low
decreasing_by all_goals omega

/-- Keep the rows of one decoded block that the range covers. -/
def filterBatch (primarySorted : Bool) (batch : RecordBatch) (primaryValues : List ℤ)
    (range : PrimaryRange) : Option RecordBatch :=
  let (start, stop) := range.bounds
  if start = stop then
    none
  else if primarySorted then
    let first := partitionPoint (· < start) primaryValues 0 primaryValues.length
    let last := partitionPoint (· < stop) primaryValues 0 primaryValues.length
    if first = last then none else some (batch.slice first last)
  else
    let indices := (List.range primaryValues.length).filter fun index ↦
      primaryValues[index]?.any fun value ↦ start ≤ value ∧ value < stop
    if indices = [] then none else some (batch.take indices)

end ScanPlan

/-! ### One block of a scan or a tail -/

/-- How far a scan or a tail has come. -/
structure ScanProgress where
  nextBlock : ℕ
  /-- The file being read, once it has been opened. -/
  file : Option FileIdentity := none
  budget : ScanBudget

namespace ScanProgress

/-- Let the budget account for something. -/
def account (step : ScanStep) (progress : ScanProgress) : Result Unit × ScanProgress :=
  match step progress.budget with
  | (result, budget) => (result, { progress with budget })

/-- The handle the blocks are read through, opened at its first use. -/
def openHandle (system : FileSystem) (path : String) (progress : ScanProgress) :
    Result FileIdentity × ScanProgress :=
  match progress.file with
  | some file => (.ok file, progress)
  | none =>
    match system.openFile path with
    | .error e => (.error e, progress)
    | .ok file => (.ok file, { progress with file := some file })

variable (zstd : Zstd)

/-- Hand out a batch, whose rows are counted. -/
def handOut (batch : RecordBatch) (progress : ScanProgress) :
    Result (Option RecordBatch) × ScanProgress :=
  match progress.account (ScanBudget.recordRows batch.rowCount) with
  | (.error e, progress) => (.error e, progress)
  | (.ok (), progress) => (.ok (some batch), progress)

/-- What a decoded block contributes. -/
def deliver (plan : ScanPlan) (missingPrimary : String) (decoded : DecodedBlock)
    (progress : ScanProgress) : Result (Option RecordBatch) × ScanProgress :=
  match plan.range, decoded.primaryValues with
  | none, _ => handOut decoded.batch progress
  | some _, none => (.error (Error.internal missingPrimary), progress)
  | some range, some primaryValues =>
    match ScanPlan.filterBatch decoded.primarySorted decoded.batch primaryValues range with
    | none => (.ok none, progress)
    | some batch => handOut batch progress

/-- Read and decode a block that was not pruned. -/
def decodeBlock (system : FileSystem) (reader : Reader) (plan : ScanPlan)
    (missingPrimary : String) (index : ℕ) (block : BlockMetadata) (progress : ScanProgress) :
    Result (Option RecordBatch) × ScanProgress :=
  match progress.openHandle system reader.path with
  | (.error e, progress) => (.error e, progress)
  | (.ok file, progress) =>
    match progress.account (ScanBudget.chargeRows block.rowCount) with
    | (.error e, progress) => (.error e, progress)
    | (.ok (), progress) =>
      match reader.decodeSelectedBlockAt zstd (system.contents file) index
          (plan.selection reader.schema) progress.budget with
      | (.error e, budget) => (.error e, { progress with budget })
      | (.ok decoded, budget) => deliver plan missingPrimary decoded { progress with budget }

/-- Deal with the block at `index`, which is consumed before it is decoded. -/
def takeBlock (system : FileSystem) (reader : Reader) (plan : ScanPlan) (missingPrimary : String)
    (block : BlockMetadata) (progress : ScanProgress) :
    Result (Option RecordBatch) × ScanProgress :=
  let index := progress.nextBlock
  let progress := { progress with nextBlock := index + 1 }
  let pruned := plan.shouldPrune block
  match progress.account (ScanBudget.recordBlock pruned) with
  | (.error e, progress) => (.error e, progress)
  | (.ok (), progress) =>
    if pruned then (.ok none, progress)
    else decodeBlock zstd system reader plan missingPrimary index block progress

@[simp] theorem nextBlock_account (step : ScanStep) (progress : ScanProgress) :
    (progress.account step).2.nextBlock = progress.nextBlock := rfl

theorem nextBlock_openHandle (system : FileSystem) (path : String) (progress : ScanProgress) :
    (progress.openHandle system path).2.nextBlock = progress.nextBlock := by
  unfold openHandle
  split
  · rfl
  · split <;> rfl

theorem nextBlock_handOut (batch : RecordBatch) (progress : ScanProgress) :
    (handOut batch progress).2.nextBlock = progress.nextBlock := by
  have hsame := nextBlock_account (ScanBudget.recordRows batch.rowCount) progress
  unfold handOut
  split
  · rename_i h
    rwa [h] at hsame
  · rename_i h
    rwa [h] at hsame

theorem nextBlock_deliver (plan : ScanPlan) (missingPrimary : String) (decoded : DecodedBlock)
    (progress : ScanProgress) :
    (deliver plan missingPrimary decoded progress).2.nextBlock = progress.nextBlock := by
  unfold deliver
  split
  · exact nextBlock_handOut _ _
  · rfl
  · split
    · rfl
    · exact nextBlock_handOut _ _

theorem nextBlock_decodeBlock (system : FileSystem) (reader : Reader) (plan : ScanPlan)
    (missingPrimary : String) (index : ℕ) (block : BlockMetadata) (progress : ScanProgress) :
    (decodeBlock zstd system reader plan missingPrimary index block progress).2.nextBlock =
      progress.nextBlock := by
  have hopen := nextBlock_openHandle system reader.path progress
  unfold decodeBlock
  rcases hhandle : progress.openHandle system reader.path with ⟨e | file, opened⟩
  · rw [hhandle] at hopen
    exact hopen
  · rw [hhandle] at hopen
    dsimp only at hopen ⊢
    rcases hrows : opened.account (ScanBudget.chargeRows block.rowCount) with ⟨e | u, charged⟩
    · have hsame := nextBlock_account (ScanBudget.chargeRows block.rowCount) opened
      rw [hrows] at hsame
      exact hsame.trans hopen
    · have hsame := nextBlock_account (ScanBudget.chargeRows block.rowCount) opened
      rw [hrows] at hsame
      dsimp only at hsame ⊢
      split
      · exact hsame.trans hopen
      · rw [nextBlock_deliver]
        exact hsame.trans hopen

/-- A turn consumes exactly one block. -/
theorem nextBlock_takeBlock (system : FileSystem) (reader : Reader) (plan : ScanPlan)
    (missingPrimary : String) (block : BlockMetadata) (progress : ScanProgress) :
    (takeBlock zstd system reader plan missingPrimary block progress).2.nextBlock =
      progress.nextBlock + 1 := by
  unfold takeBlock
  dsimp only
  rcases hblock : ScanProgress.account (ScanBudget.recordBlock (plan.shouldPrune block))
    { progress with nextBlock := progress.nextBlock + 1 } with ⟨e | u, recorded⟩
  · exact congrArg ScanProgress.nextBlock (congrArg Prod.snd hblock).symm
  · have hsame : recorded.nextBlock = progress.nextBlock + 1 :=
      congrArg ScanProgress.nextBlock (congrArg Prod.snd hblock).symm
    dsimp only
    split
    · exact hsame
    · rw [nextBlock_decodeBlock]
      exact hsame

end ScanProgress

/-! ### The scan -/

/-- A lazy, sequential scan over the committed blocks of a snapshot. -/
structure Scan where
  reader : Reader
  plan : ScanPlan
  progress : ScanProgress

namespace Scan

variable (zstd : Zstd)

def new (reader : Reader) : Scan where
  reader := reader
  plan := ScanPlan.new reader.schema
  progress :=
    { nextBlock := 0
      budget := ScanBudget.new reader.limits.maxRowsPerScan reader.limits.maxDecodedScanBytes }

/-- Select columns by exact schema name, preserving the requested order. -/
def project (scan : Scan) (columns : List String) : Result Scan := do
  let plan ← scan.plan.project scan.reader.schema columns
  return { scan with plan }

/-- Configure a typed half-open primary range. -/
def primaryRange (scan : Scan) (range : PrimaryRange) : Result Scan := do
  let plan ← scan.plan.primaryRange scan.reader.schema range
  return { scan with plan }

/-- Deal with the next block. -/
def turn (system : FileSystem) (scan : Scan) (block : BlockMetadata) :
    Result (Option RecordBatch) × Scan :=
  match scan.progress.takeBlock zstd system scan.reader scan.plan
      "range scan did not decode its primary column" block with
  | (result, progress) => (result, { scan with progress })

/-- The next item, skipping the blocks that contribute none. -/
def next (system : FileSystem) (scan : Scan) : Option (Result RecordBatch) × Scan :=
  match _hblock : scan.reader.blocks[scan.progress.nextBlock]? with
  | none => (none, scan)
  | some block =>
    match _hturn : scan.turn zstd system block with
    | (.error e, scan) => (some (.error e), scan)
    | (.ok (some batch), scan) => (some (.ok batch), scan)
    | (.ok none, later) => next system later
termination_by scan.reader.blocks.length - scan.progress.nextBlock
decreasing_by
  have hlt := (List.getElem?_eq_some_iff.mp _hblock).1
  have hlater : later = (scan.turn zstd system block).2 := by rw [_hturn]
  have hreader : later.reader = scan.reader := by rw [hlater]; rfl
  have hnext : later.progress.nextBlock = scan.progress.nextBlock + 1 := by
    rw [hlater]
    exact ScanProgress.nextBlock_takeBlock zstd system _ _ _ _ _
  rw [hreader, hnext]
  omega

theorem next_of_none {system : FileSystem} {scan : Scan}
    (h : scan.reader.blocks[scan.progress.nextBlock]? = none) :
    scan.next zstd system = (none, scan) := by
  rw [next]
  split
  · rfl
  · rename_i hsome
    rw [h] at hsome
    cases hsome

theorem next_of_some {system : FileSystem} {scan : Scan} {block : BlockMetadata}
    (h : scan.reader.blocks[scan.progress.nextBlock]? = some block) :
    scan.next zstd system =
      match scan.turn zstd system block with
      | (.error e, later) => (some (.error e), later)
      | (.ok (some batch), later) => (some (.ok batch), later)
      | (.ok none, later) => later.next zstd system := by
  rw [next]
  split
  · rename_i hnone
    rw [h] at hnone
    cases hnone
  · rename_i found hfound
    rw [h] at hfound
    cases hfound
    split <;> rename_i hturn <;> rw [hturn]

end Scan

end Acta
