import Acta.Error
import Acta.Lib.Checked
import Acta.Lib.Metered

/-!
# The decode budget

Every declaration a block makes about itself is small, and decoding multiplies them, so each buffer
a decode materializes is charged before it is allocated.  The allowance is spent and never refunded.
A scan has allowances of its own, which every block it decodes spends from, and counts its work.

A decode is a metered computation: what it charges is known from the file alone, and the budget only
decides how far it gets.
-/

namespace Acta

open Machine

/-- One thing a decode tells its budget. -/
inductive Charge
  /-- A buffer of decoded bytes. -/
  | bytes (count : ℕ)
  /-- A decoded stream, by its stored bytes. -/
  | stream (count : ℕ)
  /-- Bytes read from the file that are not stream payloads. -/
  | read (count : ℕ)
  deriving DecidableEq, Repr

/-- The decoded bytes one charge asks for. -/
def Charge.decoded : Charge → ℕ
  | .bytes count => count
  | .stream _ | .read _ => 0

/-- A decode in progress. -/
abbrev DecodeM := Metered Charge Error

/-- Aggregate work counters for one scan. -/
structure ScanMetrics where
  blocksConsidered : ℕ := 0
  blocksPruned : ℕ := 0
  streamsDecoded : ℕ := 0
  streamBytesDecoded : ℕ := 0
  bytesRead : ℕ := 0
  rowsReturned : ℕ := 0
  deriving DecidableEq, Repr

/-- The cumulative allowances owned by one lazy scan. -/
structure ScanBudget where
  remainingRows : ℕ
  remainingBytes : ℕ
  metrics : ScanMetrics := {}
  deriving DecidableEq, Repr

/-- The allowance of one block decode, with the allowances of the scan it belongs to. -/
structure Budget where
  remaining : ℕ
  scan : Option ScanBudget := none

namespace Budget

def exceeded : Error :=
  (Error.resourceLimit "decoding this block exceeds the configured decoded-byte limit"
    none).withContext .payload

def scanExceeded : Error :=
  (Error.resourceLimit "the scan exceeds the configured cumulative decoded-byte limit"
    none).withContext .payload

def scanRowsExceeded : Error :=
  (Error.resourceLimit "the scan exceeds the configured cumulative row limit"
    none).withContext .payload

def metricsOverflow : Error :=
  Error.resourceLimit "scan metrics arithmetic overflow" none

/-! ### Charging -/

/-- Charge for one buffer of `bytes` bytes. -/
def charge (bytes : ℕ) : DecodeM Unit := .spend (.bytes bytes)

/-- Charge for `count` values of `width` bytes each. -/
def chargeElements (count width : ℕ) : DecodeM Unit := do
  let bytes ← okOr (checkedMul count width) exceeded
  charge bytes

/-- Record one decoded stream of `bytes` stored bytes. -/
def recordStream (bytes : ℕ) : DecodeM Unit := .spend (.stream bytes)

def recordBytesRead (bytes : ℕ) : DecodeM Unit := .spend (.read bytes)

end Budget

/-! ### The allowances of a scan -/

/-- An operation on the allowances of a scan. -/
abbrev ScanStep := ScanBudget → Result Unit × ScanBudget

/-- One operation after another, stopping where the first fails. -/
def ScanStep.andThen (first second : ScanStep) : ScanStep := fun budget ↦
  match first budget with
  | (.ok (), budget) => second budget
  | (.error e, budget) => (.error e, budget)

namespace ScanBudget

def new (rows bytes : ℕ) : ScanBudget where
  remainingRows := rows
  remainingBytes := bytes

/-- Advance one counter, unless it overflows. -/
def count (counter : ScanMetrics → ℕ) (update : ScanMetrics → ℕ → ScanMetrics) (amount : ℕ) :
    ScanStep := fun budget ↦
  match checkedAdd (counter budget.metrics) amount with
  | none => (.error Budget.metricsOverflow, budget)
  | some total => (.ok (), { budget with metrics := update budget.metrics total })

def chargeRows (rows : ℕ) : ScanStep := fun budget ↦
  match checkedSub budget.remainingRows rows with
  | none => (.error Budget.scanRowsExceeded, budget)
  | some remainingRows => (.ok (), { budget with remainingRows })

def recordBlock (pruned : Bool) : ScanStep :=
  (count ScanMetrics.blocksConsidered (fun m n ↦ { m with blocksConsidered := n }) 1).andThen
    (if pruned then count ScanMetrics.blocksPruned (fun m n ↦ { m with blocksPruned := n }) 1
      else fun budget ↦ (.ok (), budget))

def recordBytesRead (bytes : ℕ) : ScanStep :=
  count ScanMetrics.bytesRead (fun m n ↦ { m with bytesRead := n }) bytes

def recordStream (bytes : ℕ) : ScanStep :=
  (count ScanMetrics.streamsDecoded (fun m n ↦ { m with streamsDecoded := n }) 1).andThen
    ((count ScanMetrics.streamBytesDecoded (fun m n ↦ { m with streamBytesDecoded := n })
      bytes).andThen (recordBytesRead bytes))

def recordRows (rows : ℕ) : ScanStep :=
  count ScanMetrics.rowsReturned (fun m n ↦ { m with rowsReturned := n }) rows

end ScanBudget

/-! ### Spending -/

namespace Budget

def new (allowance : ℕ) (scan : Option ScanBudget) : Budget where
  remaining := allowance
  scan := scan

/-- Let the scan account for something, when there is one. -/
def onScan (step : ScanStep) (budget : Budget) : Result Unit × Budget :=
  match budget.scan with
  | none => (.ok (), budget)
  | some scan =>
    match step scan with
    | (result, scan) => (result, { budget with scan := some scan })

/-- Take decoded bytes from both allowances, or from neither. -/
def take (bytes : ℕ) (budget : Budget) : Result Unit × Budget :=
  if budget.remaining < bytes then
    (.error exceeded, budget)
  else
    match budget.scan with
    | none => (.ok (), { budget with remaining := budget.remaining - bytes })
    | some scan =>
      if scan.remainingBytes < bytes then
        (.error scanExceeded, budget)
      else
        (.ok (), { remaining := budget.remaining - bytes,
                   scan := some { scan with remainingBytes := scan.remainingBytes - bytes } })

/-- What a charge does to the budget. -/
def step : Charge → Budget → Result Unit × Budget
  | .bytes count => take count
  | .stream count => onScan (ScanBudget.recordStream count)
  | .read count => onScan (ScanBudget.recordBytesRead count)

/-- Run a decode against a budget. -/
def run {α : Type} (decode : DecodeM α) (budget : Budget) : Result α × Budget :=
  Metered.run step decode budget

/-! ### What a decode needs -/

/-- The decoded bytes a list of charges asks for. -/
def charged (charges : List Charge) : ℕ :=
  (charges.map Charge.decoded).sum

@[simp] theorem charged_nil : charged [] = 0 := rfl

@[simp] theorem charged_cons (w : Charge) (rest : List Charge) :
    charged (w :: rest) = w.decoded + charged rest := rfl

@[simp] theorem charged_append (first rest : List Charge) :
    charged (first ++ rest) = charged first + charged rest := by
  simp [charged]

theorem spendAll_none (charges : List Charge) (remaining : ℕ) :
    (Metered.spendAll step charges { remaining }).1 =
      if charged charges ≤ remaining then .ok () else .error exceeded := by
  induction charges generalizing remaining with
  | nil => rw [charged_nil, if_pos (Nat.zero_le _)]; rfl
  | cons w rest ih =>
    cases w with
    | bytes count =>
      by_cases hcount : remaining < count
      · have hmore : ¬count + charged rest ≤ remaining := by omega
        rw [charged_cons, Charge.decoded, if_neg hmore]
        simp only [Metered.spendAll, step, take, if_pos hcount]
      · have hrest : (count + charged rest ≤ remaining) = (charged rest ≤ remaining - count) := by
          rw [eq_iff_iff]
          omega
        rw [charged_cons, Charge.decoded]
        simp only [Metered.spendAll, step, take, if_neg hcount, hrest]
        exact ih _
    | stream count =>
      rw [charged_cons, Charge.decoded, Nat.zero_add]
      exact ih _
    | read count =>
      rw [charged_cons, Charge.decoded, Nat.zero_add]
      exact ih _

/-- **Without a scan, a decode succeeds exactly within its allowance.** -/
theorem run_new_none {α : Type} (decode : DecodeM α) (allowance : ℕ) :
    (run decode (new allowance none)).1 =
      if charged decode.spent ≤ allowance then decode.outcome else .error exceeded := by
  have hspend := spendAll_none decode.spent allowance
  rw [run, Metered.run, new]
  rcases hspent : Metered.spendAll step decode.spent { remaining := allowance } with ⟨e | u, budget⟩
  · rw [hspent] at hspend
    by_cases hcost : charged decode.spent ≤ allowance
    · rw [if_pos hcost] at hspend
      cases hspend
    · rw [if_neg hcost] at hspend ⊢
      cases hspend
      rfl
  · rw [hspent] at hspend
    by_cases hcost : charged decode.spent ≤ allowance
    · rw [if_pos hcost]
    · rw [if_neg hcost] at hspend
      cases hspend

/-- A failure of the scan's own accounting: an allowance of the scan is spent, or a counter is full.
A decode places it in the frame it was decoding. -/
inductive IsRefusal : Error → Prop
  | bytes : IsRefusal scanExceeded
  | rows : IsRefusal scanRowsExceeded
  | metrics : IsRefusal metricsOverflow
  | inFrame {e : Error} (sequence : ℕ) : IsRefusal e → IsRefusal (e.withContext (.frame sequence))

end Budget

/-- An operation fails only by a refusal of the scan's accounting. -/
def ScanStep.Refuses (operation : ScanStep) : Prop :=
  ∀ budget e, (operation budget).1 = .error e → Budget.IsRefusal e

theorem ScanStep.Refuses.andThen {first second : ScanStep} (h : first.Refuses)
    (h' : second.Refuses) : (first.andThen second).Refuses := by
  intro budget e he
  unfold ScanStep.andThen at he
  rcases hfirst : first budget with ⟨e' | u, next⟩
  · rw [hfirst] at he
    exact h budget e (by rw [hfirst]; exact he)
  · rw [hfirst] at he
    exact h' next e he

namespace ScanBudget

theorem refuses_count (counter : ScanMetrics → ℕ) (update : ScanMetrics → ℕ → ScanMetrics)
    (amount : ℕ) : (count counter update amount).Refuses := by
  intro budget e he
  unfold count at he
  split at he
  · cases he
    exact .metrics
  · cases he

theorem refuses_chargeRows (rows : ℕ) : (chargeRows rows).Refuses := by
  intro budget e he
  unfold chargeRows at he
  split at he
  · cases he
    exact .rows
  · cases he

theorem refuses_recordBlock (pruned : Bool) : (recordBlock pruned).Refuses := by
  refine (refuses_count _ _ _).andThen ?_
  cases pruned with
  | true =>
    rw [if_pos rfl]
    exact refuses_count _ _ _
  | false =>
    intro budget e he
    cases he

theorem refuses_recordBytesRead (bytes : ℕ) : (recordBytesRead bytes).Refuses :=
  refuses_count _ _ _

theorem refuses_recordStream (bytes : ℕ) : (recordStream bytes).Refuses :=
  (refuses_count _ _ _).andThen ((refuses_count _ _ _).andThen (refuses_recordBytesRead bytes))

theorem refuses_recordRows (rows : ℕ) : (recordRows rows).Refuses :=
  refuses_count _ _ _

end ScanBudget

namespace Budget

/-- A charge against a budget with a scan is refused by the scan, or does what it does without. -/
theorem step_some (w : Charge) (remaining : ℕ) (scan : ScanBudget) :
    (∃ e, (step w { remaining, scan }).1 = .error e ∧ IsRefusal e) ∨
      ∃ scan', step w { remaining, scan } =
        ((step w { remaining }).1, { (step w { remaining }).2 with scan := some scan' }) := by
  have hon {operation : ScanStep} (h : operation.Refuses) :
      (∃ e, (onScan operation { remaining, scan }).1 = .error e ∧ IsRefusal e) ∨
        ∃ scan', onScan operation { remaining, scan } =
          (.ok (), { remaining, scan := some scan' }) := by
    rcases hcase : operation scan with ⟨e | u, scan'⟩
    · refine .inl ⟨e, ?_, h scan e (by rw [hcase])⟩
      simp only [onScan, hcase]
    · refine .inr ⟨scan', ?_⟩
      simp only [onScan, hcase]
  cases w with
  | bytes count =>
    by_cases hcount : remaining < count
    · refine .inr ⟨scan, ?_⟩
      simp only [step, take, if_pos hcount]
    · by_cases hscan : scan.remainingBytes < count
      · refine .inl ⟨scanExceeded, ?_, .bytes⟩
        simp only [step, take, if_neg hcount, if_pos hscan]
      · refine .inr ⟨{ scan with remainingBytes := scan.remainingBytes - count }, ?_⟩
        simp only [step, take, if_neg hcount, if_neg hscan]
  | stream count => exact hon (ScanBudget.refuses_recordStream count)
  | read count => exact hon (ScanBudget.refuses_recordBytesRead count)

theorem scan_step_none (w : Charge) (remaining : ℕ) :
    (step w { remaining }).2.scan = none := by
  cases w with
  | bytes count =>
    by_cases hcount : remaining < count
    · simp only [step, take, if_pos hcount]
    · simp only [step, take, if_neg hcount]
  | stream count => rfl
  | read count => rfl

theorem spendAll_some (charges : List Charge) (remaining : ℕ) (scan : ScanBudget) :
    (∃ e, (Metered.spendAll step charges { remaining, scan }).1 = .error e ∧ IsRefusal e) ∨
      (Metered.spendAll step charges { remaining, scan }).1 =
        (Metered.spendAll step charges { remaining }).1 := by
  induction charges generalizing remaining scan with
  | nil => exact .inr rfl
  | cons w rest ih =>
    rcases step_some w remaining scan with ⟨e, he, hrefusal⟩ | ⟨scan', hstep⟩
    · refine .inl ⟨e, ?_, hrefusal⟩
      rcases hcase : step w { remaining, scan } with ⟨e' | u, next⟩
      · rw [hcase] at he
        simp only [Metered.spendAll, hcase, he]
      · rw [hcase] at he
        cases he
    · have hnone := scan_step_none w remaining
      rcases hcase : step w { remaining } with ⟨e' | u, next⟩
      · rw [hcase] at hstep
        refine .inr ?_
        simp only [Metered.spendAll, hstep, hcase]
      · rw [hcase] at hstep hnone
        obtain ⟨left, scan''⟩ := next
        subst hnone
        simp only [Metered.spendAll, hstep, hcase]
        exact ih left scan'

/-- **A scan's accounting refuses a decode, or leaves its result as it is.** -/
theorem run_new_some {α : Type} (decode : DecodeM α) (allowance : ℕ) (scan : ScanBudget) :
    (∃ e, (run decode (new allowance (some scan))).1 = .error e ∧ IsRefusal e) ∨
      (run decode (new allowance (some scan))).1 = (run decode (new allowance none)).1 := by
  rcases spendAll_some decode.spent allowance scan with ⟨e, he, hrefusal⟩ | hsame
  · refine .inl ⟨e, ?_, hrefusal⟩
    rcases hcase : Metered.spendAll step decode.spent { remaining := allowance, scan } with
      ⟨e' | u, next⟩
    · rw [hcase] at he
      simp only [run, Metered.run, new, hcase]
      cases he
      rfl
    · rw [hcase] at he
      cases he
  · refine .inr ?_
    rcases hcase : Metered.spendAll step decode.spent { remaining := allowance, scan } with
      ⟨e' | u, next⟩ <;>
    rcases hcase' : Metered.spendAll step decode.spent { remaining := allowance } with
      ⟨e'' | u', next'⟩ <;>
    simp_all [run, Metered.run, new]

end Budget

end Acta
