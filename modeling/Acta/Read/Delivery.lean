import Acta.Read.Ample

/-!
# What scans and tails deliver

A scan and a tail take one turn at each block, in order.  `Turns` is such a run of turns, and
`itemOf` the item a turn hands out.  A scan that is drained, while its file may go on growing, hands
out the items of its turns at all the blocks of its snapshot (`Scan.Drains.agrees_readBlock`).  A
tail hands out those of its turns at the blocks behind the snapshot it began with, once each and in
order, however its polls and the growth of the file are interleaved (`Tail.Polls.delivers_once`).
-/

namespace Acta

open Machine Wire

/-! ### Turns -/

/-- The item that a turn hands out: a batch, a failure, or nothing. -/
def itemOf : Result (Option RecordBatch) → Option (Result RecordBatch)
  | .ok answer => answer.map .ok
  | .error e => some (.error e)

/-- The batch of a turn that yields one. -/
theorem exists_batch {turn : Result (Option RecordBatch)} (h : turn.toOption.join.isSome) :
    ∃ batch, turn = .ok (some batch) := by
  obtain ⟨batch, hbatch⟩ := Option.isSome_iff_exists.mp h
  exact ⟨batch, mem_toOption.mp (Option.join_eq_some_iff.mp hbatch)⟩

/-- The batches among what was returned. -/
def batchesOf (results : List PollResult) : List RecordBatch :=
  results.filterMap fun result ↦ result.toOption.join

theorem batchesOf_cons (result : PollResult) (results : List PollResult) :
    batchesOf (result :: results) = result.toOption.join.toList ++ batchesOf results := by
  rw [batchesOf, List.filterMap_cons]
  cases result.toOption.join <;> rfl

/-- The items of turns carry the batches of the turns. -/
theorem batchesOf_items (turns : List (Result (Option RecordBatch))) :
    (turns.filterMap itemOf).filterMap Except.toOption = batchesOf turns := by
  rw [List.filterMap_filterMap, batchesOf]
  refine List.filterMap_congr fun turn _ ↦ ?_
  rcases turn with e | ⟨- | batch⟩ <;> rfl

/-- The turns at the blocks from `first` up to `last`, in order. -/
structure Turns (right : ℕ → Result (Option RecordBatch) → Prop) (first last : ℕ)
    (turns : List (Result (Option RecordBatch))) : Prop where
  length : first + turns.length = last
  right : ∀ {k : ℕ} {turn : Result (Option RecordBatch)}, turns[k]? = some turn →
    right (first + k) turn

namespace Turns

variable {right : ℕ → Result (Option RecordBatch) → Prop} {first middle last : ℕ}
  {turns rest : List (Result (Option RecordBatch))}

theorem nil (right : ℕ → Result (Option RecordBatch) → Prop) (first : ℕ) :
    Turns right first first [] :=
  ⟨rfl, fun h ↦ nomatch h⟩

theorem singleton {turn : Result (Option RecordBatch)} (h : right first turn) :
    Turns right first (first + 1) [turn] := by
  refine ⟨rfl, fun {k found} hfound ↦ ?_⟩
  obtain ⟨hk, rfl⟩ := List.getElem?_eq_some_iff.mp hfound
  obtain rfl : k = 0 := Nat.lt_one_iff.mp hk
  exact h

theorem append (h : Turns right first middle turns) (h' : Turns right middle last rest) :
    Turns right first last (turns ++ rest) := by
  refine ⟨by rw [List.length_append, ← Nat.add_assoc, h.length, h'.length],
    fun {k turn} hturn ↦ ?_⟩
  by_cases hk : k < turns.length
  · rw [List.getElem?_append_left hk] at hturn
    exact h.right hturn
  · rw [List.getElem?_append_right (Nat.not_lt.mp hk)] at hturn
    have hright := h'.right hturn
    have hindex : middle + (k - turns.length) = first + k := by
      have hlength := h.length
      omega
    rwa [hindex] at hright

theorem mono {right' : ℕ → Result (Option RecordBatch) → Prop} (h : Turns right first last turns)
    (hright : ∀ index turn, first ≤ index → index < last → right index turn →
      right' index turn) : Turns right' first last turns := by
  refine ⟨h.length, fun {k turn} hturn ↦ hright _ _ (Nat.le_add_right _ _) ?_ (h.right hturn)⟩
  rw [← h.length]
  exact Nat.add_lt_add_left (List.getElem?_eq_some_iff.mp hturn).1 first

end Turns

/-- What a turn at a block comes to, as far as the plain read of the block tells: where that
succeeds, the turn answers its plan, unless the accounting of the scan refuses it. -/
def Reader.Agrees (reader : Reader) (zstd : Zstd) (system : FileSystem) (plan : ScanPlan)
    (index : ℕ) (turn : Result (Option RecordBatch)) : Prop :=
  ∀ batch, reader.readBlock zstd system index = .ok batch →
    (∃ e, turn = .error e ∧ Budget.IsRefusal e) ∨
      ∃ answer, turn = .ok answer ∧ plan.Answers reader.schema batch.rows answer

namespace ScanProgress

variable {zstd : Zstd} {path : String} {limits : Limits} {system : FileSystem} {reader : Reader}
  {plan : ScanPlan} {progress : ScanProgress} {block : BlockMetadata}

variable (zstd) in
/-- **A turn agrees with the plain read of its block.** -/
theorem takeBlock_agrees (h : Reader.Attached path limits system reader)
    (hplan : plan.Of reader.schema) (hholds : progress.Holds reader.identity)
    (hblock : reader.blocks[progress.nextBlock]? = some block) (missingPrimary : String) :
    reader.Agrees zstd system plan progress.nextBlock
      (takeBlock zstd system reader plan missingPrimary block progress).1 := by
  intro batch hread
  have hnamed : system.identityOf reader.path = .ok reader.identity := h.isPath ▸ h.identity
  have hopen : system.openFile reader.path = .ok reader.identity := by
    rw [FileSystem.openFile, hnamed]
    rfl
  rw [Reader.readBlock, hopen] at hread
  obtain ⟨metadata, arrayAt, costAt, hreads⟩ := Reader.exists_reads h hblock hread
  -- The plain read is within the allowance of a block, and the turn asks for no more.
  have hcost : (plan.selection reader.schema).cost costAt metadata.rowCount ≤
      reader.limits.maxDecodedBlockBytes := by
    have hplain := hreads.plain
    rw [show reader.decodeBlockAt zstd (system.contents reader.identity) progress.nextBlock =
      .ok batch from hread] at hplain
    split at hplain
    · rename_i hle
      exact (hplan.selection.cost_le costAt _).trans hle
    · cases hplain
  have hsettles := takeBlock_settles hreads hplan hnamed hholds hblock missingPrimary
  generalize (takeBlock zstd system reader plan missingPrimary block progress).1 = turn at hsettles
  cases hsettles with
  | answered hanswers => exact .inr ⟨_, rfl, hanswers⟩
  | refused hrefusal => exact .inl ⟨_, rfl, hrefusal⟩
  | exceeded hmore => exact absurd hcost (Nat.not_le.mpr hmore)

variable (zstd plan block) in
/-- A turn opens no file but the one its reader reads. -/
theorem holds_takeBlock (h : Reader.Attached path limits system reader)
    (hholds : progress.Holds reader.identity) (missingPrimary : String) :
    (takeBlock zstd system reader plan missingPrimary block progress).2.Holds reader.identity := by
  have hnamed : system.identityOf reader.path = .ok reader.identity := h.isPath ▸ h.identity
  exact (takeBlock_of_grown zstd hnamed ⟨_, [], hnamed, hnamed, (List.append_nil _).symm⟩
    h.fileSize_le hholds plan missingPrimary block).2

end ScanProgress

/-! ### Scans -/

namespace Scan

/-- A scan that was started over a reader and configured, and has not handed out anything yet. -/
inductive Configured (reader : Reader) : Scan → Prop
  | new : Configured reader (Scan.new reader)
  | project {scan next : Scan} {columns : List String} (h : Configured reader scan)
      (hnext : scan.project columns = .ok next) : Configured reader next
  | primaryRange {scan next : Scan} {range : PrimaryRange} (h : Configured reader scan)
      (hnext : scan.primaryRange range = .ok next) : Configured reader next

/-- What configuring a scan changes is its plan. -/
theorem Configured.eq {reader : Reader} {scan : Scan} (h : Configured reader scan) :
    scan.reader = reader ∧ scan.progress = (Scan.new reader).progress ∧
      ScanPlan.Configured reader.schema scan.plan := by
  induction h with
  | new => exact ⟨rfl, rfl, .new⟩
  | project h hnext ih =>
    obtain ⟨rfl, hprogress, hplan⟩ := ih
    obtain ⟨plan, hproject, hdone⟩ := bind_eq_ok.mp hnext
    cases hdone
    exact ⟨rfl, hprogress, .project hplan hproject⟩
  | primaryRange h hnext ih =>
    obtain ⟨rfl, hprogress, hplan⟩ := ih
    obtain ⟨plan, hrange, hdone⟩ := bind_eq_ok.mp hnext
    cases hdone
    exact ⟨rfl, hprogress, .primaryRange hplan hrange⟩

/-- A scan that is asked for its next item until there is none, each time when its file has grown by
whatever bytes, and the items it gave. -/
inductive Drains (zstd : Zstd) (path : String) (system : FileSystem) :
    Scan → List (Result RecordBatch) → Prop
  | done {now : FileSystem} {scan later : Scan} (hgrows : Reader.Grows path system now)
      (h : scan.next zstd now = (none, later)) : Drains zstd path system scan []
  | item {now : FileSystem} {scan later : Scan} {item : Result RecordBatch}
      {items : List (Result RecordBatch)} (hgrows : Reader.Grows path system now)
      (h : scan.next zstd now = (some item, later)) (hrest : Drains zstd path system later items) :
      Drains zstd path system scan (item :: items)

/-- What is said of the turns of a scan, and of the scan between them: the turn that a ready scan
takes is right, and leaves the scan ready. -/
def Rightly (zstd : Zstd) (system : FileSystem) (reader : Reader) (plan : ScanPlan)
    (ready : ScanProgress → Prop) (right : ℕ → Result (Option RecordBatch) → Prop) : Prop :=
  ∀ (progress : ScanProgress) (block : BlockMetadata), progress.Holds reader.identity →
    ready progress → reader.blocks[progress.nextBlock]? = some block →
      let taken := progress.takeBlock zstd system reader plan
        "range scan did not decode its primary column" block
      right progress.nextBlock taken.1 ∧ ready taken.2

variable {zstd : Zstd} {path : String} {limits : Limits} {system : FileSystem} {reader : Reader}
  {ready : ScanProgress → Prop} {right : ℕ → Result (Option RecordBatch) → Prop}

/-- The turns that one item takes, of a scan whose turns are right. -/
theorem exists_turns_next (h : Reader.Attached path limits system reader) {plan : ScanPlan}
    (hright : Rightly zstd system reader plan ready right) {scan later : Scan}
    (hscan : scan.Of reader reader.identity) (hready : ready scan.progress)
    (hplan : scan.plan = plan) (hle : scan.progress.nextBlock ≤ reader.blocks.length)
    {item : Option (Result RecordBatch)} (hnext : scan.next zstd system = (item, later)) :
    later.Of reader reader.identity ∧ ready later.progress ∧ later.plan = plan ∧
      later.progress.nextBlock ≤ reader.blocks.length ∧
        (item = none → later.progress.nextBlock = reader.blocks.length) ∧
          ∃ turns, Turns right scan.progress.nextBlock later.progress.nextBlock turns ∧
            turns.filterMap itemOf = item.toList := by
  generalize hleft : reader.blocks.length - scan.progress.nextBlock = left
  induction left using Nat.strong_induction_on generalizing scan with
  | _ left ih =>
    cases hblock : reader.blocks[scan.progress.nextBlock]? with
    | none =>
      rw [Scan.next_of_none zstd (by rw [hscan.reader_eq, hblock])] at hnext
      cases hnext
      have hend := List.getElem?_eq_none_iff.mp hblock
      exact ⟨hscan, hready, hplan, hle, fun _ ↦ Nat.le_antisymm hle hend, [], .nil _ _, rfl⟩
    | some block =>
      have hlt := (List.getElem?_eq_some_iff.mp hblock).1
      rw [Scan.next_of_some zstd (by rw [hscan.reader_eq, hblock])] at hnext
      obtain ⟨hturn, hstays⟩ := hright scan.progress block hscan.holds hready hblock
      have hholds := ScanProgress.holds_takeBlock zstd plan block h hscan.holds
        "range scan did not decode its primary column"
      have hmoved := ScanProgress.nextBlock_takeBlock zstd system reader plan
        "range scan did not decode its primary column" block scan.progress
      have heq : scan.turn zstd system block =
          ((scan.progress.takeBlock zstd system reader plan
            "range scan did not decode its primary column" block).1,
          { scan with progress := (scan.progress.takeBlock zstd system reader plan
            "range scan did not decode its primary column" block).2 }) := by
        rw [Scan.turn, hscan.reader_eq, hplan]
      rw [heq] at hnext
      generalize scan.progress.takeBlock zstd system reader plan
        "range scan did not decode its primary column" block = taken
        at hnext hturn hstays hholds hmoved
      obtain ⟨turn, progress⟩ := taken
      dsimp only at hnext hturn hstays hholds hmoved
      have hone : Turns right scan.progress.nextBlock progress.nextBlock [turn] :=
        hmoved ▸ Turns.singleton hturn
      have hmore : ({ scan with progress } : Scan).Of reader reader.identity :=
        ⟨hscan.reader_eq, hholds⟩
      rcases turn with e | ⟨- | batch⟩
      · cases hnext
        exact ⟨hmore, hstays, hplan, by dsimp only; omega, (fun h ↦ nomatch h), _, hone, rfl⟩
      · obtain ⟨hof, hlater, hsame, hinside, hdone, turns, hturns, hitems⟩ :=
          ih (reader.blocks.length - progress.nextBlock) (by omega) hmore hstays hplan
            (by dsimp only; omega) hnext rfl
        exact ⟨hof, hlater, hsame, hinside, hdone, _, hone.append hturns, hitems⟩
      · cases hnext
        exact ⟨hmore, hstays, hplan, by dsimp only; omega, (fun h ↦ nomatch h), _, hone, rfl⟩

/-- **The items of a scan that is drained are those of its turns at all the blocks left.** -/
theorem Drains.exists_turns (h : Reader.Attached path limits system reader) {plan : ScanPlan}
    (hright : Rightly zstd system reader plan ready right) {scan : Scan}
    {items : List (Result RecordBatch)} (hdrains : Drains zstd path system scan items)
    (hscan : scan.Of reader reader.identity) (hready : ready scan.progress)
    (hplan : scan.plan = plan) (hle : scan.progress.nextBlock ≤ reader.blocks.length) :
    ∃ turns, Turns right scan.progress.nextBlock reader.blocks.length turns ∧
      items = turns.filterMap itemOf := by
  have hnamed : system.identityOf reader.path = .ok reader.identity := h.isPath ▸ h.identity
  induction hdrains with
  | done hgrows hnext =>
    rw [← h.isPath] at hgrows
    rw [(next_of_grown zstd hnamed hgrows h.fileSize_le hscan).1] at hnext
    obtain ⟨-, -, -, -, hdone, turns, hturns, hitems⟩ :=
      exists_turns_next h hright hscan hready hplan hle hnext
    exact ⟨turns, hdone rfl ▸ hturns, hitems.symm⟩
  | item hgrows hnext hrest ih =>
    rw [← h.isPath] at hgrows
    rw [(next_of_grown zstd hnamed hgrows h.fileSize_le hscan).1] at hnext
    obtain ⟨hof, hstays, hsame, hinside, -, turns, hturns, hitems⟩ :=
      exists_turns_next h hright hscan hready hplan hle hnext
    obtain ⟨rest, hlater, hmore⟩ := ih hof hstays hsame hinside
    refine ⟨turns ++ rest, hturns.append hlater, ?_⟩
    rw [List.filterMap_append, hitems, hmore]
    rfl

/-- A scan that was configured stands before the first block of its reader. -/
theorem Configured.of {scan : Scan} (h : Configured reader scan) :
    scan.Of reader reader.identity ∧ scan.plan.Of reader.schema ∧ scan.progress.nextBlock = 0 := by
  obtain ⟨hreader, hprogress, hplan⟩ := h.eq
  refine ⟨⟨hreader, fun file hfile ↦ ?_⟩, hplan.of, by rw [hprogress]; rfl⟩
  rw [hprogress] at hfile
  cases hfile

/-- A turn that yields a batch gives an item. -/
theorem Drains.of_turn {now : FileSystem} {scan : Scan} {block : BlockMetadata}
    {batch : RecordBatch} {items : List (Result RecordBatch)}
    (hgrows : Reader.Grows path system now)
    (hblock : scan.reader.blocks[scan.progress.nextBlock]? = some block)
    (hturn : (scan.turn zstd now block).1 = .ok (some batch))
    (hrest : Drains zstd path system (scan.turn zstd now block).2 items) :
    Drains zstd path system scan (.ok batch :: items) :=
  .item hgrows (by rw [next_of_some zstd hblock, ← Prod.eta (scan.turn zstd now block), hturn])
    hrest

set_option maxRecDepth 100000 in
/-- A scan of two blocks gives the row of each. -/
theorem exists_drains_numberFile :
    ∃ reader first second,
      Reader.openWithLimits (Reader.oneFile (numberFile 2)) "n.acta" Limits.default = .ok reader ∧
        reader.blocks.length = 2 ∧
          reader.work storingZstd (numberFile 2) (Scan.new reader).plan 0 reader.blocks.length ≤
              1000 ∧
            Drains storingZstd "n.acta" (Reader.oneFile (numberFile 2)) (Scan.new reader)
              [.ok first, .ok second] := by
  obtain ⟨file, frame, _, reader, -, hsecond⟩ := Reader.exists_secondBlock
  have hopen := hsecond.opens_both
  have hturns : ∀ reader ∈
      (Reader.openWithLimits (Reader.oneFile (numberFile 2)) "n.acta" Limits.default).toOption,
        ∀ block ∈ reader.blocks[0]?, ∀ block' ∈ reader.blocks[1]?,
          let first := (Scan.new reader).turn storingZstd (Reader.oneFile (numberFile 2)) block
          let second := first.2.turn storingZstd (Reader.oneFile (numberFile 2)) block'
          first.1.toOption.join.isSome ∧ second.1.toOption.join.isSome ∧
            reader.work storingZstd (numberFile 2) (Scan.new reader).plan 0 reader.blocks.length ≤
              1000 := by
    decide +kernel
  obtain ⟨block, block', hblocks⟩ := List.length_eq_two.mp hsecond.blocks
  have hblock : reader.blocks[0]? = some block := by rw [hblocks]; rfl
  have hblock' : reader.blocks[1]? = some block' := by rw [hblocks]; rfl
  have hend : reader.blocks[2]? = none := by rw [hblocks]; rfl
  obtain ⟨hfirst, hlast, hwork⟩ :=
    hturns reader (mem_toOption.mpr hopen) block hblock block' hblock'
  obtain ⟨first, hturn⟩ := exists_batch hfirst
  obtain ⟨second, hturn'⟩ := exists_batch hlast
  have hgrows := Reader.grows_refl_oneFile "n.acta" (numberFile 2)
  have hnext (scan : Scan) (block : BlockMetadata) :
      (scan.turn storingZstd (Reader.oneFile (numberFile 2)) block).2.progress.nextBlock =
        scan.progress.nextBlock + 1 :=
    ScanProgress.nextBlock_takeBlock storingZstd _ scan.reader scan.plan _ block scan.progress
  refine ⟨reader, first, second, hopen, hsecond.blocks, hwork, .of_turn hgrows hblock hturn
    (.of_turn hgrows ?_ hturn' (.done hgrows (next_of_none storingZstd ?_)))⟩
  · rw [hnext]
    exact hblock'
  · rw [hnext, hnext]
    exact hend

end Scan

/-! ### Tails -/

namespace Tail

/-- A tail that was begun behind a reader and configured, and was not polled yet. -/
inductive Configured (reader : Reader) : Tail → Prop
  | new : Configured reader (Tail.new reader)
  | project {tail next : Tail} {columns : List String} (h : Configured reader tail)
      (hnext : tail.project columns = .ok next) : Configured reader next
  | primaryRange {tail next : Tail} {range : PrimaryRange} (h : Configured reader tail)
      (hnext : tail.primaryRange range = .ok next) : Configured reader next

/-- What configuring a tail changes is its plan. -/
theorem Configured.eq {reader : Reader} {tail : Tail} (h : Configured reader tail) :
    tail.reader = reader ∧ tail.progress = (Tail.new reader).progress ∧
      ScanPlan.Configured reader.schema tail.plan := by
  induction h with
  | new => exact ⟨rfl, rfl, .new⟩
  | project h hnext ih =>
    obtain ⟨rfl, hprogress, hplan⟩ := ih
    obtain ⟨plan, hproject, hdone⟩ := bind_eq_ok.mp hnext
    cases hdone
    exact ⟨rfl, hprogress, .project hplan hproject⟩
  | primaryRange h hnext ih =>
    obtain ⟨rfl, hprogress, hplan⟩ := ih
    obtain ⟨plan, hrange, hdone⟩ := bind_eq_ok.mp hnext
    cases hdone
    exact ⟨rfl, hprogress, .primaryRange hplan hrange⟩

/-- A tail that is polled, any number of times, while its file grows, and what the polls return. -/
inductive Polls (zstd : Zstd) (path : String) :
    FileSystem → Tail → List PollResult → FileSystem → Tail → Prop
  | start (system : FileSystem) (tail : Tail) : Polls zstd path system tail [] system tail
  | poll {system middle last : FileSystem} {tail next later : Tail} {results : List PollResult}
      {result : PollResult} (h : Polls zstd path system tail results middle next)
      (hgrows : Reader.Grows path middle last) (hpoll : next.pollNext zstd last = (result, later)) :
      Polls zstd path system tail (results ++ [result]) last later

/-- What happens in a poll: a turn at a block, a refresh that finds nothing to deal with, or one
that fails. -/
inductive Event
  | turn (outcome : Result (Option RecordBatch))
  | caughtUp
  | stopped (e : Error)

/-- What a poll returns of an event, if it returns. -/
def Event.result : Event → Option PollResult
  | turn (.ok none) => none
  | turn (.ok (some batch)) => some (.ok (some batch))
  | turn (.error e) => some (.error e)
  | caughtUp => some (.ok none)
  | stopped e => some (.error e)

/-- The turn of an event that is one. -/
def Event.outcome : Event → Option (Result (Option RecordBatch))
  | turn outcome => some outcome
  | caughtUp => none
  | stopped _ => none

/-- The results of events carry the batches of their turns. -/
theorem batchesOf_events (events : List Event) :
    batchesOf (events.filterMap Event.result) =
      batchesOf (events.filterMap Event.outcome) := by
  rw [batchesOf, batchesOf, List.filterMap_filterMap, List.filterMap_filterMap]
  refine List.filterMap_congr fun event _ ↦ ?_
  rcases event with (e | ⟨- | batch⟩) | - | e <;> rfl

/-- What is said of the turn at a block, by the file system and the reader there are, and of a tail
between its turns: the turn that a ready tail takes is right, and leaves the tail ready; what is
right stays right, and what is ready stays ready, while the file grows and the reader is refreshed;
and a tail stays ready when it counts what a refresh has read. -/
structure Keeps (zstd : Zstd) (path : String) (limits : Limits) (plan : ScanPlan)
    (ready : FileSystem → Reader → ScanProgress → Prop)
    (right : FileSystem → Reader → ℕ → Result (Option RecordBatch) → Prop) : Prop where
  taken : ∀ {system : FileSystem} {reader : Reader} {progress : ScanProgress}
    {block : BlockMetadata}, Reader.Attached path limits system reader → plan.Of reader.schema →
      progress.Holds reader.identity → ready system reader progress →
        reader.blocks[progress.nextBlock]? = some block →
          let taken := progress.takeBlock zstd system reader plan
            "range tail did not decode its primary column" block
          right system reader progress.nextBlock taken.1 ∧ ready system reader taken.2
  right_refreshed : ∀ {system last : FileSystem} {reader next : Reader} {index : ℕ}
    {turn : Result (Option RecordBatch)}, Reader.Refreshes path system reader last next →
      Reader.Attached path limits system reader → index < reader.blocks.length →
        right system reader index turn → right last next index turn
  ready_refreshed : ∀ {system last : FileSystem} {reader next : Reader} {progress : ScanProgress},
    Reader.Refreshes path system reader last next → Reader.Attached path limits system reader →
      progress.nextBlock ≤ reader.blocks.length → ready system reader progress →
        ready last next progress
  counted : ∀ {system : FileSystem} {reader next : Reader} {report : RefreshReport}
    {progress : ScanProgress}, Reader.Attached path limits system reader →
      reader.refresh system = (.ok report, next) → progress.nextBlock ≤ reader.blocks.length →
        ready system reader progress → ready system next
          (progress.account (ScanBudget.recordBytesRead report.frameBytesScanned)).2

/-- A tail, after some of its polls: it reads its file as a reader that knew the blocks `known` and
was refreshed since, and has taken its turns, in order, at the blocks behind those. -/
structure Tracks (path : String) (limits : Limits) (plan : ScanPlan)
    (ready : FileSystem → Reader → ScanProgress → Prop)
    (right : FileSystem → Reader → ℕ → Result (Option RecordBatch) → Prop)
    (known : List BlockMetadata) (system : FileSystem)
    (turns : List (Result (Option RecordBatch))) (tail : Tail) : Prop where
  attached : Reader.Attached path limits system tail.reader
  isPrefix : known <+: tail.reader.blocks
  plan_eq : tail.plan = plan
  planned : plan.Of tail.reader.schema
  holds : tail.progress.Holds tail.reader.identity
  ready : ready system tail.reader tail.progress
  nextBlock_le : tail.progress.nextBlock ≤ tail.reader.blocks.length
  turns : Turns (right system tail.reader) known.length tail.progress.nextBlock turns

section Polls

variable {zstd : Zstd} {path : String} {limits : Limits} {system last : FileSystem}
  {plan : ScanPlan} {ready : FileSystem → Reader → ScanProgress → Prop}
  {right : FileSystem → Reader → ℕ → Result (Option RecordBatch) → Prop}
  {known : List BlockMetadata} {turns : List (Result (Option RecordBatch))} {tail : Tail}
  (hright : Keeps zstd path limits plan ready right)
include hright

/-- What a tail has done stands, however its file grows and its reader is refreshed. -/
theorem Tracks.refreshes (h : Tracks path limits plan ready right known system turns tail)
    {reader : Reader} (hrefreshes : Reader.Refreshes path system tail.reader last reader)
    {progress : ScanProgress} (hready : ready last reader progress)
    (hnext : progress.nextBlock = tail.progress.nextBlock)
    (hfile : progress.file = tail.progress.file) :
    Tracks path limits plan ready right known last turns { tail with reader, progress } := by
  have hextends := hrefreshes.extends_last
  refine ⟨hrefreshes.attached h.attached, h.isPrefix.trans hextends.blocks, h.plan_eq, ?_,
    fun file hopened ↦ ?_, hready, ?_, ?_⟩
  · show plan.Of reader.schema
    rw [hextends.schema]
    exact h.planned
  · rw [hextends.identity]
    exact h.holds file (hfile ▸ hopened)
  · show progress.nextBlock ≤ _
    rw [hnext]
    exact h.nextBlock_le.trans hextends.blocks.length_le
  · show Turns _ known.length progress.nextBlock turns
    rw [hnext]
    exact h.turns.mono fun index turn _ hindex hagrees ↦ hright.right_refreshed hrefreshes
      h.attached (Nat.lt_of_lt_of_le hindex h.nextBlock_le) hagrees

/-- **One turn of a poll** is one event, or a refresh that found something to deal with. -/
theorem Tracks.turn (h : Tracks path limits plan ready right known system turns tail)
    {result : Option PollResult} {next : Tail} (hturn : tail.turn zstd system = (result, next)) :
    ∃ events : List Event, events.filterMap Event.result = result.toList ∧
      Tracks path limits plan ready right known system (turns ++ events.filterMap Event.outcome)
        next ∧
        (result = some (.ok none) → next.progress.nextBlock = next.reader.blocks.length ∧
          Reader.openWithLimits system path limits = .ok next.reader) := by
  have hattached := h.attached
  have hrefreshes : Reader.Refreshes path system tail.reader system
      (tail.reader.refresh system).2 := .refresh (.refl _ _)
  rw [Tail.turn] at hturn
  cases hblock : tail.reader.blocks[tail.progress.nextBlock]? with
  | none =>
    have hend : tail.progress.nextBlock = tail.reader.blocks.length :=
      Nat.le_antisymm h.nextBlock_le (List.getElem?_eq_none_iff.mp hblock)
    rw [hblock] at hturn
    dsimp only at hturn
    rw [refreshNext] at hturn
    rcases hrefresh : tail.reader.refresh system with ⟨e | report, reader⟩
    · rw [hrefresh] at hturn
      cases hturn
      have htracks := h.refreshes hright hrefreshes
        (hright.ready_refreshed hrefreshes hattached h.nextBlock_le h.ready) rfl rfl
      rw [hrefresh] at htracks
      exact ⟨[.stopped e], rfl, by rwa [← List.append_nil turns] at htracks, fun h ↦ nomatch h⟩
    · rw [hrefresh] at hturn
      dsimp only at hturn
      rcases haccount : tail.progress.account
        (ScanBudget.recordBytesRead report.frameBytesScanned) with ⟨e | u, progress⟩
      all_goals
        have hprogress : progress = (tail.progress.account
          (ScanBudget.recordBytesRead report.frameBytesScanned)).2 := by rw [haccount]
        have hcounted := hright.counted hattached hrefresh h.nextBlock_le h.ready
        rw [← hprogress] at hcounted
        rw [hrefresh] at hrefreshes
        have htracks := h.refreshes hright hrefreshes hcounted (by rw [hprogress]; rfl)
          (by rw [hprogress]; rfl)
        rw [haccount] at hturn
        cases hturn
      · exact ⟨[.stopped e], rfl, by rwa [← List.append_nil turns] at htracks, fun h ↦ nomatch h⟩
      · by_cases hadded : report.blocksAdded = 0
        · refine ⟨[.caughtUp], by rw [if_pos hadded]; rfl,
            by rwa [← List.append_nil turns] at htracks, fun _ ↦ ?_⟩
          have hfresh := hattached.refresh_eq
          cases hopen : Reader.openWithLimits system path limits with
          | error e =>
            rw [hopen, hrefresh] at hfresh
            cases hfresh
          | ok fresh =>
            rw [hopen, hrefresh] at hfresh
            obtain ⟨report', heq, hblocks, -⟩ := hfresh
            cases heq
            refine ⟨?_, rfl⟩
            show progress.nextBlock = reader.blocks.length
            rw [← hblocks, hadded, Nat.add_zero, ← hend, hprogress]
            rfl
        · refine ⟨[], by rw [if_neg hadded]; rfl,
            by rwa [← List.append_nil turns] at htracks, fun hcaught ↦ ?_⟩
          rw [if_neg hadded] at hcaught
          cases hcaught
  | some block =>
    have hlt := (List.getElem?_eq_some_iff.mp hblock).1
    rw [hblock] at hturn
    dsimp only at hturn
    rw [decodeNext] at hturn
    obtain rfl := h.plan_eq
    obtain ⟨hagrees, hstays⟩ := hright.taken hattached h.planned h.holds h.ready hblock
    have hholds := ScanProgress.holds_takeBlock zstd tail.plan block hattached h.holds
      "range tail did not decode its primary column"
    have hmoved := ScanProgress.nextBlock_takeBlock zstd system tail.reader tail.plan
      "range tail did not decode its primary column" block tail.progress
    rcases htaken : tail.progress.takeBlock zstd system tail.reader tail.plan
      "range tail did not decode its primary column" block with ⟨outcome, progress⟩
    rw [htaken] at hturn hagrees hstays hholds hmoved
    dsimp only at hturn hagrees hstays hholds hmoved
    have hle : progress.nextBlock ≤ tail.reader.blocks.length := by omega
    have htracks : Tracks path limits tail.plan ready right known system (turns ++ [outcome])
        { tail with progress } :=
      ⟨hattached, h.isPrefix, rfl, h.planned, hholds, hstays, hle,
        h.turns.append (hmoved ▸ Turns.singleton hagrees)⟩
    refine ⟨[.turn outcome], ?_⟩
    rcases outcome with e | ⟨- | batch⟩
    · cases hturn
      exact ⟨rfl, htracks, fun h ↦ nomatch h⟩
    · cases hturn
      exact ⟨rfl, htracks, fun h ↦ nomatch h⟩
    · cases hturn
      exact ⟨rfl, htracks, fun h ↦ nomatch h⟩

/-- **One poll** is a run of events, the last of which it returns. -/
theorem Tracks.pollNext (h : Tracks path limits plan ready right known system turns tail) :
    ∃ events : List Event,
      events.filterMap Event.result = [(tail.pollNext zstd system).1] ∧
        Tracks path limits plan ready right known system (turns ++ events.filterMap Event.outcome)
          (tail.pollNext zstd system).2 ∧
        ((tail.pollNext zstd system).1 = .ok none →
          (tail.pollNext zstd system).2.progress.nextBlock =
              (tail.pollNext zstd system).2.reader.blocks.length ∧
            Reader.openWithLimits system path limits =
              .ok (tail.pollNext zstd system).2.reader) := by
  fun_induction Tail.pollNext zstd system tail generalizing turns with
  | case1 tail result next hturn =>
    obtain ⟨events, hresult, htracks, hcaught⟩ := h.turn hright hturn
    exact ⟨events, hresult, htracks, fun hdone ↦ hcaught (congrArg some hdone)⟩
  | case2 tail next hturn ih =>
    obtain ⟨events, hresult, htracks, -⟩ := h.turn hright hturn
    obtain ⟨rest, hrest, hlater, hcaught⟩ := ih htracks
    refine ⟨events ++ rest, ?_, ?_, hcaught⟩
    · rw [List.filterMap_append, hresult, hrest]
      rfl
    · rwa [List.filterMap_append, ← List.append_assoc]

end Polls

/-- A tail that was configured has taken no turn yet. -/
theorem Configured.tracks {path : String} {limits : Limits} {system : FileSystem}
    {ready : FileSystem → Reader → ScanProgress → Prop}
    {right : FileSystem → Reader → ℕ → Result (Option RecordBatch) → Prop} {reader : Reader}
    {tail : Tail} (h : Configured reader tail)
    (hattached : Reader.Attached path limits system reader)
    (hready : ready system reader (Tail.new reader).progress) :
    Tracks path limits tail.plan ready right reader.blocks system [] tail := by
  obtain ⟨hreader, hprogress, hplan⟩ := h.eq
  refine ⟨hreader ▸ hattached, hreader ▸ List.prefix_rfl, rfl, hreader ▸ hplan.of,
    fun file hfile ↦ ?_, by rw [hprogress, hreader]; exact hready, ?_, ?_⟩
  · rw [hprogress] at hfile
    cases hfile
  · rw [hprogress, hreader]
    exact le_rfl
  · rw [hprogress]
    exact .nil _ _

/-- The turns that a tail takes agree with the plain reads of their blocks. -/
theorem keeps_agrees (zstd : Zstd) (path : String) (limits : Limits) (plan : ScanPlan) :
    Keeps zstd path limits plan (fun _ _ _ ↦ True)
      fun system reader ↦ reader.Agrees zstd system plan where
  taken hattached hplan hholds _ hblock :=
    ⟨ScanProgress.takeBlock_agrees zstd hattached hplan hholds hblock _, trivial⟩
  ready_refreshed _ _ _ _ := trivial
  counted _ _ _ _ := trivial
  right_refreshed hrefreshes hattached hindex hagrees batch hread := by
    rw [Reader.readBlock_of_refreshes hrefreshes hattached hindex] at hread
    rw [hrefreshes.extends_last.schema]
    exact hagrees batch hread

/-- **A run of polls** is a run of events. -/
theorem Polls.tracks {zstd : Zstd} {path : String} {limits : Limits} {system last : FileSystem}
    {plan : ScanPlan} {ready : FileSystem → Reader → ScanProgress → Prop}
    {right : FileSystem → Reader → ℕ → Result (Option RecordBatch) → Prop}
    {known : List BlockMetadata} {tail later : Tail} {results : List PollResult}
    (hright : Keeps zstd path limits plan ready right)
    (hpolls : Polls zstd path system tail results last later)
    (h : Tracks path limits plan ready right known system [] tail) :
    ∃ events : List Event, results = events.filterMap Event.result ∧
      Tracks path limits plan ready right known last (events.filterMap Event.outcome) later ∧
        (results.getLast? = some (.ok none) →
          later.progress.nextBlock = later.reader.blocks.length ∧
            Reader.openWithLimits last path limits = .ok later.reader) := by
  induction hpolls with
  | start => exact ⟨[], rfl, h, fun hnone ↦ nomatch hnone⟩
  | poll hpolls hgrows hpoll ih =>
    obtain ⟨events, hresults, htracks, -⟩ := ih h
    have hgrow (reader : Reader) : Reader.Refreshes path _ reader _ reader :=
      .grow (.refl _ reader) hgrows
    have hgrown := htracks.refreshes hright (hgrow _) (hright.ready_refreshed (hgrow _)
      htracks.attached htracks.nextBlock_le htracks.ready) rfl rfl
    obtain ⟨rest, hrest, hlater, hcaught⟩ := hgrown.pollNext hright
    rw [hpoll] at hrest hlater hcaught
    refine ⟨events ++ rest, ?_, ?_, fun hlast ↦ ?_⟩
    · rw [List.filterMap_append, hrest, hresults]
    · rwa [List.filterMap_append]
    · rw [List.getLast?_concat] at hlast
      exact hcaught (Option.some.inj hlast)

/-- **A tail delivers every block once, in order.**  Whatever a tail was configured to give, and
however its polls and the growth of the file are interleaved, what the polls returned are the
results of a run of events.  The turns among these were taken at the blocks behind the snapshot the
tail began with, one at each, in order, up to the block that comes next; wherever the plain read of
a block succeeds, the turn at it gave the rows that the plan asks for, or no batch where there are
none, unless the accounting of the tail refused it; and each turn that failed made one poll fail.
When the last poll returned nothing, every block of the file as it is has had its turn. -/
theorem Polls.delivers_once {zstd : Zstd} {path : String} {limits : Limits}
    {system last : FileSystem} {reader : Reader} {tail later : Tail} {results : List PollResult}
    (h : Reader.Chain path limits system reader) (htail : Configured reader tail)
    (hpolls : Polls zstd path system tail results last later) :
    ∃ events : List Event, results = events.filterMap Event.result ∧
      reader.blocks.length + (events.filterMap Event.outcome).length = later.progress.nextBlock ∧
      later.progress.nextBlock ≤ later.reader.blocks.length ∧
      reader.blocks <+: later.reader.blocks ∧
      (∀ k turn batch, (events.filterMap Event.outcome)[k]? = some turn →
        later.reader.readBlock zstd last (reader.blocks.length + k) = .ok batch →
          (∃ e, turn = .error e ∧ Budget.IsRefusal e) ∨
            ∃ answer, turn = .ok answer ∧
              tail.plan.Answers later.reader.schema batch.rows answer) ∧
      (results.getLast? = some (.ok none) →
        later.progress.nextBlock = later.reader.blocks.length ∧
          Reader.openWithLimits last path limits = .ok later.reader) := by
  obtain ⟨events, hresults, htracks, hcaught⟩ :=
    hpolls.tracks (keeps_agrees zstd path limits tail.plan) (htail.tracks h.attached trivial)
  exact ⟨events, hresults, htracks.turns.length, htracks.nextBlock_le, htracks.isPrefix,
    fun k turn batch hturn hread ↦ htracks.turns.right hturn batch hread, hcaught⟩

/-- A poll ends with a turn that returns. -/
theorem pollNext_of_some {zstd : Zstd} {system : FileSystem} {tail next : Tail}
    {result : PollResult} (h : tail.turn zstd system = (some result, next)) :
    tail.pollNext zstd system = (result, next) := by
  rw [pollNext]
  split <;> rename_i hturn <;> rw [h] at hturn <;> cases hturn
  rfl

/-- A poll goes on after a turn that does not. -/
theorem pollNext_of_none {zstd : Zstd} {system : FileSystem} {tail next : Tail}
    (h : tail.turn zstd system = (none, next)) :
    tail.pollNext zstd system = next.pollNext zstd system := by
  rw [pollNext]
  split <;> rename_i hturn <;> rw [h] at hturn <;> cases hturn
  rfl

/-- A tail behind one block, and the poll of it once a second block has followed. -/
structure Delivery (reader : Reader) (batch read : RecordBatch) (later : Tail) : Prop where
  opens : Reader.openWithLimits (Reader.oneFile (numberFile 1)) "n.acta" Limits.default = .ok reader
  grows : Reader.Grows "n.acta" (Reader.oneFile (numberFile 1)) (Reader.oneFile (numberFile 2))
  blocks : reader.blocks.length = 1
  totalRows : reader.fileMetadata.totalRows = 1
  polls : (Tail.new reader).pollNext storingZstd (Reader.oneFile (numberFile 2)) =
    (.ok (some batch), later)
  nextBlock : later.progress.nextBlock = 2
  taken : ((later.reader.blocks.take 2).map (·.rowCount)).sum = 2
  known : later.reader.blocks.length = 2
  limits : later.reader.limits = Limits.default
  work : later.reader.work storingZstd (numberFile 2) (Tail.new reader).plan 0 2 +
    later.reader.fileMetadata.lastGoodOffset ≤ 2000
  reads : later.reader.readBlock storingZstd (Reader.oneFile (numberFile 2)) 1 = .ok read

set_option maxRecDepth 100000 in
theorem exists_delivery : ∃ reader batch read later, Delivery reader batch read later := by
  obtain ⟨file, frame, reader, _, hone, hsecond⟩ := Reader.exists_secondBlock
  obtain rfl := hsecond.bytes.isFirst
  have hpoll : ∀ reader ∈
      (Reader.openWithLimits (Reader.oneFile (numberFile 1)) "n.acta" Limits.default).toOption,
        let first := (Tail.new reader).turn storingZstd (Reader.oneFile (numberFile 2))
        let second := first.2.turn storingZstd (Reader.oneFile (numberFile 2))
        reader.fileMetadata.totalRows = 1 ∧ first.1 = none ∧
          (second.1.bind fun result ↦ result.toOption.join).isSome ∧
            second.2.progress.nextBlock = 2 ∧
              ((second.2.reader.blocks.take 2).map (·.rowCount)).sum = 2 ∧
                second.2.reader.blocks.length = 2 ∧ second.2.reader.limits = Limits.default ∧
                second.2.reader.work storingZstd (numberFile 2) (Tail.new reader).plan 0 2 +
                  second.2.reader.fileMetadata.lastGoodOffset ≤ 2000 ∧
                (second.2.reader.readBlock storingZstd (Reader.oneFile (numberFile 2)) 1).isOk := by
    decide +kernel
  obtain ⟨htotal, hnone, hsome, hnext, htaken, hknown, hlimits, hwork, hread⟩ :=
    hpoll reader (mem_toOption.mpr hone.opens)
  -- The first turn refreshes and goes on, the second returns the batch.
  obtain ⟨batch, hbatch⟩ := Option.isSome_iff_exists.mp hsome
  obtain ⟨result, hresult, hjoin⟩ := Option.bind_eq_some_iff.mp hbatch
  obtain rfl := mem_toOption.mp (Option.join_eq_some_iff.mp hjoin)
  obtain ⟨read, hread⟩ := exists_eq_ok hread
  have hgrows := Reader.grows_oneFile "n.acta" (numberFile 1) frame
  rw [hsecond.bytes.isBoth] at hgrows
  refine ⟨reader, batch, read, _, hone.opens, hgrows, hone.blocks, htotal, ?_, hnext, htaken,
    hknown, hlimits, hwork, hread⟩
  rw [pollNext_of_none (Prod.ext hnone rfl)]
  exact pollNext_of_some (Prod.ext hresult rfl)

/-- A tail that is polled once a second block has followed the one it knows. -/
theorem delivers_once_numberFile :
    ∃ reader batch read later, Delivery reader batch read later ∧
      (Tail.new reader).plan.Answers later.reader.schema read.rows (some batch) := by
  obtain ⟨reader, batch, read, later, h⟩ := exists_delivery
  have hpolls : Polls storingZstd "n.acta" (Reader.oneFile (numberFile 1)) (Tail.new reader) [_]
      (Reader.oneFile (numberFile 2)) later := .poll (.start _ _) h.grows h.polls
  obtain ⟨events, hresults, hcount, -, -, hagrees, -⟩ :=
    Polls.delivers_once (.opened h.opens) .new hpolls
  rw [h.blocks, h.nextBlock] at hcount
  obtain ⟨turn, hturn⟩ := List.length_eq_one_iff.mp (Nat.add_left_cancel hcount)
  -- The batch can only come from the one turn there was.
  have hbatch : .ok (some batch) ∈ events.filterMap Event.result := by
    rw [← hresults]
    exact List.mem_singleton_self _
  obtain ⟨event, hevent, heq⟩ := List.mem_filterMap.mp hbatch
  obtain rfl : event = .turn (.ok (some batch)) := by
    rcases event with (e | ⟨- | answer⟩) | - | e <;> cases heq
    rfl
  have houtcome : .ok (some batch) ∈ events.filterMap Event.outcome :=
    List.mem_filterMap.mpr ⟨_, hevent, rfl⟩
  rw [hturn] at houtcome hagrees
  obtain rfl := List.mem_singleton.mp houtcome
  have hreads := h.reads
  rw [← h.blocks] at hreads
  obtain ⟨_, herror, -⟩ | ⟨_, hanswer, hanswers⟩ := hagrees 0 _ read rfl hreads
  · cases herror
  cases hanswer
  exact ⟨reader, batch, read, later, h, hanswers⟩

end Tail

end Acta
