import Mathlib.Data.List.Forall2

/-!
# Errors

The crate's error type: a kind, a message, the file offset of the field or region that failed, and
the regions around it, innermost first.  Every fallible operation returns a `Result`.

Guards are written with `failIf`, and errors gain their context with `withContext`, so a checked
operation succeeds exactly when each of its steps does (`bind_eq_ok`, `failIf_eq_ok`) and how it
fails is read off the first step that fails (`FailsWith`).
-/

namespace Acta

/-- The broad category of a failure. -/
inductive ErrorKind
  | io
  | corruption
  | unsupportedVersion
  | unsupportedFeature
  | unsupportedFrame
  | resourceLimit
  | incompleteTail
  | invalidArgument
  | schemaMismatch
  | writerLocked
  | poisoned
  | fileReplaced
  | fileTruncated
  | internal
  deriving DecidableEq, Repr

/-- The region of a file an error was detected in. -/
inductive ErrorContext
  | file
  | prologue
  | frame (sequence : ℕ)
  | framePrefix
  | header
  | payload
  | trailer
  deriving DecidableEq, Repr

/-- An error with its category, message, optional file offset and parsing context. -/
structure Error where
  kind : ErrorKind
  message : String
  offset : Option ℕ
  context : List ErrorContext := []
  deriving DecidableEq, Repr

/-- The result of a fallible operation. -/
abbrev Result (α : Type) := Except Error α

namespace Error

def corruption (message : String) (offset : Option ℕ) : Error :=
  { kind := .corruption, message, offset }

def unsupportedVersion (message : String) (offset : Option ℕ) : Error :=
  { kind := .unsupportedVersion, message, offset }

def unsupportedFeature (message : String) (offset : Option ℕ) : Error :=
  { kind := .unsupportedFeature, message, offset }

def unsupportedFrame (message : String) (offset : Option ℕ) : Error :=
  { kind := .unsupportedFrame, message, offset }

def resourceLimit (message : String) (offset : Option ℕ) : Error :=
  { kind := .resourceLimit, message, offset }

def incompleteTail (message : String) (offset : Option ℕ) : Error :=
  { kind := .incompleteTail, message, offset }

def invalidArgument (message : String) : Error :=
  { kind := .invalidArgument, message, offset := none }

def schemaMismatch (message : String) : Error :=
  { kind := .schemaMismatch, message, offset := none }

def writerLocked (message : String) : Error :=
  { kind := .writerLocked, message, offset := none }

def poisoned (message : String) : Error :=
  { kind := .poisoned, message, offset := none }

def fileReplaced (message : String) : Error :=
  { kind := .fileReplaced, message, offset := none }

def fileTruncated (message : String) (offset : Option ℕ) : Error :=
  { kind := .fileTruncated, message, offset }

def internal (message : String) : Error :=
  { kind := .internal, message, offset := none }

/-- An operating-system failure, with the text the system gave for it. -/
def io (message : String) (offset : Option ℕ) : Error :=
  { kind := .io, message, offset }

/-- Record one more region around the failure. -/
def withContext (error : Error) (context : ErrorContext) : Error :=
  { error with context := error.context ++ [context] }

/-- Name the structure an error came from, for a check that could not name it itself. -/
def withMessagePrefix (error : Error) (label : String) : Error :=
  { error with message := s!"{label}: {error.message}" }

@[simp] theorem kind_withContext (error : Error) (context : ErrorContext) :
    (error.withContext context).kind = error.kind := rfl

@[simp] theorem kind_withMessagePrefix (error : Error) (label : String) :
    (error.withMessagePrefix label).kind = error.kind := rfl

end Error

/-! ### Guards and contexts -/

/-- Fail with `error` when `condition` holds, and otherwise carry on. -/
def failIf (condition : Prop) [Decidable condition] (error : Error) : Result Unit :=
  if condition then .error error else .ok ()

/-- The value of an option, or `error` when there is none. -/
def okOr {α : Type} (value : Option α) (error : Error) : Result α :=
  match value with
  | some a => .ok a
  | none => .error error

namespace Result

/-- Add a region to the context of a failure. -/
def withContext {α : Type} (result : Result α) (context : ErrorContext) : Result α :=
  result.mapError (·.withContext context)

/-- Add a label to the message of a failure. -/
def withMessagePrefix {α : Type} (result : Result α) (label : String) : Result α :=
  result.mapError (·.withMessagePrefix label)

end Result

variable {α β : Type}

@[simp] theorem ok_bind (a : α) (f : α → Result β) : ((.ok a : Result α) >>= f) = f a := rfl

@[simp] theorem error_bind (e : Error) (f : α → Result β) :
    ((.error e : Result α) >>= f) = .error e := rfl

theorem exists_eq_ok {x : Result α} (h : x.isOk = true) : ∃ a, x = .ok a := by
  cases x with
  | error e => cases h
  | ok a => exact ⟨a, rfl⟩

/-- Read a decidable fact off a result that is known to be there. -/
theorem exists_ok_and {α : Type} {x : Result α} {p : α → Prop} (h : x.toOption.any fun _ ↦ true)
    (hp : ∀ a ∈ x.toOption, p a) : ∃ a, x = .ok a ∧ p a := by
  cases x with
  | error e => cases h
  | ok a => exact ⟨a, rfl, hp a rfl⟩

theorem mem_toOption {x : Result α} {a : α} : a ∈ x.toOption ↔ x = .ok a := by
  cases x <;> simp [Except.toOption]

@[simp] theorem pure_eq_ok (a : α) : (pure a : Result α) = .ok a := rfl

theorem bind_eq_ok {x : Result α} {f : α → Result β} {b : β} :
    (x >>= f) = .ok b ↔ ∃ a, x = .ok a ∧ f a = .ok b := by
  cases x <;> simp

theorem bind_eq_error {x : Result α} {f : α → Result β} {e : Error} :
    (x >>= f) = .error e ↔ x = .error e ∨ ∃ a, x = .ok a ∧ f a = .error e := by
  cases x <;> simp

theorem bind_congr_ok {x y : Result α} {f g : α → Result β} (hxy : x = y)
    (hfg : ∀ a, y = .ok a → f a = g a) : (x >>= f) = (y >>= g) := by
  subst hxy
  cases x with
  | error e => rfl
  | ok a => exact hfg a rfl

@[simp] theorem failIf_eq_ok {c : Prop} [Decidable c] {e : Error} {u : Unit} :
    failIf c e = .ok u ↔ ¬c := by
  unfold failIf
  split <;> simp_all

@[simp] theorem failIf_eq_error {c : Prop} [Decidable c] {e e' : Error} :
    failIf c e = .error e' ↔ c ∧ e = e' := by
  unfold failIf
  split <;> simp_all

theorem failIf_pos {c : Prop} [Decidable c] {e : Error} (h : c) : failIf c e = .error e :=
  if_pos h

theorem failIf_neg {c : Prop} [Decidable c] {e : Error} (h : ¬c) : failIf c e = .ok () :=
  if_neg h

@[simp] theorem okOr_eq_ok {value : Option α} {e : Error} {a : α} :
    okOr value e = .ok a ↔ value = some a := by
  cases value <;> simp [okOr]

@[simp] theorem mapError_eq_ok {ε : Type} {x : Except ε α} {f : ε → Error} {a : α} :
    x.mapError f = .ok a ↔ x = .ok a := by
  cases x <;> simp [Except.mapError]

@[simp] theorem mapError_eq_error {ε : Type} {x : Except ε α} {f : ε → Error} {e : Error} :
    x.mapError f = .error e ↔ ∃ e', x = .error e' ∧ f e' = e := by
  cases x <;> simp [Except.mapError]

@[simp] theorem withContext_eq_ok {x : Result α} {c : ErrorContext} {a : α} :
    x.withContext c = .ok a ↔ x = .ok a := by
  cases x <;> simp [Result.withContext, Except.mapError]

@[simp] theorem withMessagePrefix_eq_ok {x : Result α} {s : String} {a : α} :
    x.withMessagePrefix s = .ok a ↔ x = .ok a := by
  cases x <;> simp [Result.withMessagePrefix, Except.mapError]

/-! ### Lists -/

/-- A check made of every element of a list. -/
theorem forM_eq_ok {check : α → Result Unit} {values : List α} {u : Unit} :
    values.forM check = .ok u ↔ ∀ value ∈ values, check value = .ok () := by
  induction values with
  | nil => simp [List.forM_nil, pure_eq_ok]
  | cons value values ih =>
    show (check value >>= fun _ ↦ values.forM check) = .ok u ↔ _
    rw [bind_eq_ok]
    constructor
    · rintro ⟨_, hvalue, hrest⟩
      exact List.forall_mem_cons.mpr ⟨hvalue, ih.mp hrest⟩
    · intro h
      obtain ⟨hvalue, hrest⟩ := List.forall_mem_cons.mp h
      exact ⟨(), hvalue, ih.mpr hrest⟩

/-- A checked function of every element of a list. -/
theorem mapM_eq_ok {f : α → Result β} {values : List α} {results : List β} :
    values.mapM f = .ok results ↔ List.Forall₂ (fun value result ↦ f value = .ok result) values
      results := by
  induction values generalizing results with
  | nil => simp [pure_eq_ok, eq_comm]
  | cons value values ih =>
    rw [List.mapM_cons, bind_eq_ok]
    constructor
    · rintro ⟨result, hvalue, h⟩
      obtain ⟨rest, hrest, h⟩ := bind_eq_ok.mp h
      cases h
      exact .cons hvalue (ih.mp hrest)
    · rintro (_ | ⟨hvalue, hrest⟩)
      exact ⟨_, hvalue, bind_eq_ok.mpr ⟨_, ih.mpr hrest, rfl⟩⟩

/-- A checked map fails on one of the values. -/
theorem exists_of_mapM_eq_error {f : α → Result β} {values : List α} {e : Error}
    (h : values.mapM f = .error e) : ∃ value ∈ values, f value = .error e := by
  induction values with
  | nil => cases h
  | cons value values ih =>
    rw [List.mapM_cons] at h
    rcases bind_eq_error.mp h with hvalue | ⟨_, -, h⟩
    · exact ⟨value, List.mem_cons_self, hvalue⟩
    · rcases bind_eq_error.mp h with hrest | ⟨_, -, h⟩
      · obtain ⟨value', hmem, hvalue⟩ := ih hrest
        exact ⟨value', List.mem_cons_of_mem _ hmem, hvalue⟩
      · cases h

/-- A checked map over the first `n` numbers gives one result for each of them. -/
theorem mapM_range_eq_ok {f : ℕ → Result β} {n : ℕ} {results : List β} :
    (List.range n).mapM f = .ok results ↔
      results.length = n ∧ ∀ index result, results[index]? = some result → f index =
        .ok result := by
  rw [mapM_eq_ok, List.forall₂_iff_get]
  simp only [List.length_range, List.get_eq_getElem, List.getElem_range,
    List.getElem?_eq_some_iff]
  constructor
  · rintro ⟨hlength, hall⟩
    refine ⟨hlength.symm, ?_⟩
    rintro index _ ⟨hindex, rfl⟩
    exact hall index (by omega) hindex
  · rintro ⟨hlength, hall⟩
    exact ⟨hlength.symm, fun index _ hindex ↦ hall index _ ⟨hindex, rfl⟩⟩

/-- Every result of a checked map comes from one of the values. -/
theorem exists_of_mapM_eq_ok {f : α → Result β} {values : List α} {results : List β}
    (h : values.mapM f = .ok results) {result : β} (hmem : result ∈ results) :
    ∃ value ∈ values, f value = .ok result := by
  induction mapM_eq_ok.mp h with
  | nil => cases hmem
  | cons hvalue hrest ih =>
    rcases List.mem_cons.mp hmem with rfl | hmem
    · exact ⟨_, List.mem_cons_self, hvalue⟩
    · obtain ⟨value, hmem, hvalue⟩ := ih (mapM_eq_ok.mpr hrest) hmem
      exact ⟨value, List.mem_cons_of_mem _ hmem, hvalue⟩

theorem length_of_mapM_eq_ok {f : α → Result β} {values : List α} {results : List β}
    (h : values.mapM f = .ok results) : results.length = values.length :=
  (mapM_eq_ok.mp h).length_eq.symm

/-! ### How an operation fails -/

/-- The operation fails with an error of the given kind. -/
def FailsWith (kind : ErrorKind) (x : Result α) : Prop :=
  ∃ e, x = .error e ∧ e.kind = kind

instance (kind : ErrorKind) (x : Result α) : Decidable (FailsWith kind x) :=
  match x with
  | .ok _ => .isFalse fun ⟨_, h, _⟩ ↦ by cases h
  | .error e =>
    decidable_of_iff (e.kind = kind)
      ⟨fun h ↦ ⟨e, rfl, h⟩, fun ⟨_, h, hkind⟩ ↦ by cases h; exact hkind⟩

theorem failsWith_error {e : Error} : FailsWith e.kind (.error e : Result α) :=
  ⟨e, rfl, rfl⟩

theorem FailsWith.bind {k : ErrorKind} {x : Result α} (h : FailsWith k x) (f : α → Result β) :
    FailsWith k (x >>= f) := by
  obtain ⟨e, rfl, he⟩ := h
  exact ⟨e, rfl, he⟩

theorem FailsWith.withContext {k : ErrorKind} {x : Result α} (h : FailsWith k x)
    (c : ErrorContext) : FailsWith k (x.withContext c) := by
  obtain ⟨e, rfl, he⟩ := h
  exact ⟨e.withContext c, rfl, he⟩

/-- A failing guard decides how the rest of the operation fails. -/
theorem failsWith_failIf_bind {c : Prop} [Decidable c] {e : Error} (h : c) (f : Unit → Result β) :
    FailsWith e.kind (failIf c e >>= f) := by
  rw [failIf_pos h]
  exact failsWith_error.bind f

/-- A guard that fails with `k` may be skipped in showing that the operation fails with `k`. -/
theorem failsWith_guard {k : ErrorKind} {c : Prop} [Decidable c] {e : Error} {f : Unit → Result β}
    (he : e.kind = k) (hf : ¬c → FailsWith k (f ())) : FailsWith k (failIf c e >>= f) := by
  by_cases h : c
  · exact he ▸ failsWith_failIf_bind h f
  · rw [failIf_neg h]
    exact hf h

end Acta
