import Acta.Error
import Acta.Format.Constants
import Acta.Lib.Checked
import Acta.Lib.LittleEndian

/-!
# Bounds-checked reads

A `Cursor` walks forward over one wire structure, and a parser over it is a computation in
`CursorM`.  Parsers read fields in declaration order, and every read reports the file offset of the
field that failed.  Reading within the structure always succeeds (`readBytes_bind`).

The file itself is its byte string; `readExactAt` reads a region of it and reports an I/O failure
where the file is too short.
-/

namespace Acta

open Machine Wire

/-- A forward reader over `bytes`, which begin at `baseOffset` in the file. -/
structure Cursor where
  bytes : Bytes
  position : ℕ
  baseOffset : ℕ

/-- A parser over a cursor. -/
abbrev CursorM := StateT Cursor Result

namespace Cursor

def new (bytes : Bytes) (baseOffset : ℕ) : Cursor :=
  { bytes, position := 0, baseOffset }

/-- The file offset the cursor stands at. -/
def offset (cursor : Cursor) : Option ℕ :=
  checkedAdd cursor.baseOffset cursor.position

def overflowed (cursor : Cursor) (field : String) : Error :=
  Error.corruption s!"offset overflow while reading {field}" cursor.offset

def truncated (cursor : Cursor) (field : String) : Error :=
  Error.corruption s!"truncated {field}" cursor.offset

/-- Take the next `length` bytes. -/
def readBytes (length : ℕ) (field : String) : CursorM Bytes := fun cursor ↦ do
  let stop ← okOr (checkedAdd cursor.position length) (cursor.overflowed field)
  failIf (cursor.bytes.length < stop) (cursor.truncated field)
  return (slice cursor.bytes cursor.position length, { cursor with position := stop })

/-- Take a little-endian number of `width` bytes. -/
def readUInt (width : ℕ) (field : String) : CursorM ℕ := do
  let bytes ← readBytes width field
  return leNat bytes

def readU16 (field : String) : CursorM ℕ := readUInt 2 field
def readU32 (field : String) : CursorM ℕ := readUInt 4 field
def readU64 (field : String) : CursorM ℕ := readUInt 8 field

/-- Advance past a field whose contents are not interpreted. -/
def skip (length : ℕ) (field : String) : CursorM Unit := do
  let _ ← readBytes length field

section Run

variable {α : Type} {bytes : Bytes} {position base length width : ℕ} {field : String}

theorem readBytes_bind (h : position + length ≤ bytes.length) (hu : bytes.length ≤ u64Max)
    (f : Bytes → CursorM α) :
    (readBytes length field >>= f) ⟨bytes, position, base⟩ =
      f (slice bytes position length) ⟨bytes, position + length, base⟩ := by
  have hstop : checkedAdd position length = some (position + length) :=
    checkedAdd_of_le (Nat.le_trans h hu)
  simp [bind, StateT.bind, readBytes, hstop, okOr, failIf_neg (Nat.not_lt.mpr h), Except.bind]

theorem readUInt_bind (h : position + width ≤ bytes.length) (hu : bytes.length ≤ u64Max)
    (f : ℕ → CursorM α) :
    (readUInt width field >>= f) ⟨bytes, position, base⟩ =
      f (leNat (slice bytes position width)) ⟨bytes, position + width, base⟩ := by
  rw [readUInt, bind_assoc, readBytes_bind h hu, pure_bind]

theorem skip_bind (h : position + length ≤ bytes.length) (hu : bytes.length ≤ u64Max)
    (f : Unit → CursorM α) :
    (skip length field >>= f) ⟨bytes, position, base⟩ =
      f () ⟨bytes, position + length, base⟩ := by
  rw [skip, bind_assoc, readBytes_bind h hu, pure_bind]

end Run

end Cursor

/-! ### Reads of the file -/

/-- The absolute file offset of a field located `field` bytes into a structure at `base`. -/
def fieldOffset (base field : ℕ) : Option ℕ :=
  checkedAdd base field

/-- What the operating system says of a read past the end of the file. -/
def unexpectedEof : String := "failed to fill whole buffer"

/-- The `length` bytes of the file at `offset`.  Callers check every read against the file extent
first, so a short read means the file shrank and is an I/O failure. -/
def readExactAt (file : Bytes) (offset length : ℕ) : Result Bytes :=
  if length = 0 ∨ offset + length ≤ file.length then
    .ok (slice file offset length)
  else
    .error (Error.io unexpectedEof (some offset))

theorem readExactAt_of_le {file : Bytes} {offset length : ℕ} (h : offset + length ≤ file.length) :
    readExactAt file offset length = .ok (slice file offset length) :=
  if_pos (.inr h)

end Acta
