/-!
# Decoding UTF-8

Bytes are decoded one character at a time. What is not UTF-8 is reported with the number of bytes before it and the
number of bytes that cannot be part of any character; when the bytes end inside a character there is no such number.
-/

namespace Pron.Text

/-- Where bytes stop being UTF-8. -/
inductive Utf8Error
  | invalid (length index : Nat)
  | incomplete (index : Nat)
  deriving DecidableEq, Repr

namespace Utf8Error

/-- The text of an error. -/
def message : Utf8Error → String
  | invalid length index => s!"invalid utf-8 sequence of {length} bytes from index {index}"
  | incomplete index => s!"incomplete utf-8 byte sequence from index {index}"

end Utf8Error

/-- How a character starts: it is complete after one byte, or needs more, the next of them in a given range. -/
inductive Utf8Lead
  | single
  | multiple (bits : Nat) (more : Nat) (least greatest : Nat)
  | none

/-- The role of a first byte. The range of the second one excludes overlong forms, surrogates and values that are too
large. -/
def utf8Lead (b : Nat) : Utf8Lead :=
  if b < 0x80 then .single
  else if b < 0xc2 then .none
  else if b < 0xe0 then .multiple (b - 0xc0) 1 0x80 0xbf
  else if b = 0xe0 then .multiple 0 2 0xa0 0xbf
  else if b = 0xed then .multiple 0xd 2 0x80 0x9f
  else if b < 0xf0 then .multiple (b - 0xe0) 2 0x80 0xbf
  else if b = 0xf0 then .multiple 0 3 0x90 0xbf
  else if b < 0xf4 then .multiple (b - 0xf0) 3 0x80 0xbf
  else if b = 0xf4 then .multiple 4 3 0x80 0x8f
  else .none

/-- A character that has begun: where, the bits so far, and how many bytes are missing, the next one in a range. -/
structure Utf8Pending where
  start : Nat
  code : Nat
  more : Nat
  least : Nat
  greatest : Nat

/-- Decodes bytes from an index on; `pending` is the character that has begun, if any. -/
def decodeFrom (index : Nat) (pending : Option Utf8Pending) : List UInt8 → Except Utf8Error (List Char)
  | [] =>
    match pending with
    | some p => .error (.incomplete p.start)
    | none => .ok []
  | b :: rest =>
    match pending with
    | some p =>
      if p.least ≤ b.toNat ∧ b.toNat ≤ p.greatest then
        let code := 64 * p.code + (b.toNat - 0x80)
        if p.more = 1 then (decodeFrom (index + 1) none rest).map (.ofNat code :: ·)
        else decodeFrom (index + 1) (some ⟨p.start, code, p.more - 1, 0x80, 0xbf⟩) rest
      else .error (.invalid (index - p.start) p.start)
    | none =>
      match utf8Lead b.toNat with
      | .single => (decodeFrom (index + 1) none rest).map (.ofNat b.toNat :: ·)
      | .multiple bits more least greatest =>
        decodeFrom (index + 1) (some ⟨index, bits, more, least, greatest⟩) rest
      | .none => .error (.invalid 1 index)

/-- The text that bytes encode. -/
def decodeUtf8 (bytes : List UInt8) : Except Utf8Error String :=
  (decodeFrom 0 none bytes).map String.ofList

end Pron.Text
