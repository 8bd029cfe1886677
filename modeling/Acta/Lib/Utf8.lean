import Mathlib.Data.Nat.Notation

/-!
# Text and its bytes

A string and its UTF-8 encoding as a list of bytes determine each other.
-/

namespace Wire

/-- The UTF-8 encoding of a string. -/
def utf8Bytes (text : String) : List UInt8 :=
  text.toByteArray.data.toList

/-- The string a byte string encodes, when it is valid UTF-8. -/
def utf8Decode (bytes : List UInt8) : Option String :=
  String.fromUTF8? ⟨bytes.toArray⟩

@[simp] theorem utf8Decode_utf8Bytes (text : String) : utf8Decode (utf8Bytes text) = some text :=
  dif_pos text.isValidUTF8

theorem utf8Bytes_of_utf8Decode {bytes : List UInt8} {text : String}
    (h : utf8Decode bytes = some text) : utf8Bytes text = bytes := by
  unfold utf8Decode String.fromUTF8? at h
  split at h
  · cases h
    rfl
  · cases h

theorem utf8Bytes_injective {s t : String} (h : utf8Bytes s = utf8Bytes t) : s = t := by
  have hs := utf8Decode_utf8Bytes s
  rw [h, utf8Decode_utf8Bytes] at hs
  exact (Option.some.inj hs).symm

/-! ### What is wrong with bytes that are not text -/

/-- How long a sequence that starts with this byte is, and the range its second byte stands in. -/
def sequenceShape (lead : UInt8) : Option (ℕ × UInt8 × UInt8) :=
  if 0xc2 ≤ lead ∧ lead ≤ 0xdf then some (2, 0x80, 0xbf)
  else if lead = 0xe0 then some (3, 0xa0, 0xbf)
  else if lead = 0xed then some (3, 0x80, 0x9f)
  else if 0xe1 ≤ lead ∧ lead ≤ 0xef then some (3, 0x80, 0xbf)
  else if lead = 0xf0 then some (4, 0x90, 0xbf)
  else if 0xf1 ≤ lead ∧ lead ≤ 0xf3 then some (4, 0x80, 0xbf)
  else if lead = 0xf4 then some (4, 0x80, 0x8f)
  else none

/-- How many bytes of a sequence are well formed, when one that should follow is not, or nothing
when the bytes end first. -/
inductive SequenceFault
  | malformed (length : ℕ)
  | ended

/-- Check the bytes that follow the first `seen` of a sequence against the ranges they stand in. -/
def sequenceFault (seen : ℕ) : List (UInt8 × UInt8) → List UInt8 → Option SequenceFault
  | [], _ => none
  | _ :: _, [] => some .ended
  | (low, high) :: ranges, byte :: rest =>
    if low ≤ byte ∧ byte ≤ high then sequenceFault (seen + 1) ranges rest
    else some (.malformed seen)

/-- Where a byte string stops being UTF-8, as the standard library reports it. -/
def utf8Fault (index : ℕ) (bytes : List UInt8) : Option (ℕ × SequenceFault) :=
  match bytes with
  | [] => none
  | lead :: rest =>
    if lead < 0x80 then
      utf8Fault (index + 1) rest
    else
      match sequenceShape lead with
      | none => some (index, .malformed 1)
      | some (length, low, high) =>
        match sequenceFault 1 ((low, high) :: List.replicate (length - 2) (0x80, 0xbf)) rest with
        | some fault => some (index, fault)
        | none => utf8Fault (index + length) (rest.drop (length - 1))
termination_by bytes.length
decreasing_by
  · simp
  · simp only [List.length_drop, List.length_cons]
    omega

def utf8FaultText (bytes : List UInt8) : String :=
  match utf8Fault 0 bytes with
  | some (index, .malformed length) => s!"invalid utf-8 sequence of {length} bytes from index {index}"
  | some (index, .ended) => s!"incomplete utf-8 byte sequence from index {index}"
  | none => ""

example : utf8Decode [0x61, 0xc3, 0xa9] = some "aé" := by decide +kernel

end Wire
