import Lox.Failure

/-!
# UTF-8

Bytes are decoded one character at a time. The first byte of a character says how many more follow.
A character is refused if it is written with more bytes than it needs, if it is a surrogate, or if
it lies beyond the last code point.
-/

namespace Lox.Utf8

/-- A character of which some bytes have been read: its bits so far, how many bytes are still to
come, and the least code point that needs this many bytes. -/
structure Pending where
  bits : Nat
  needed : Nat
  least : Nat
  deriving DecidableEq, Repr, Inhabited

/-- What a first byte begins. -/
inductive Lead where
  | single
  | sequence (p : Pending)
  | invalid
  deriving DecidableEq, Repr, Inhabited

def lead (b : Nat) : Lead :=
  if b < 0x80 then .single
  else if b < 0xC0 then .invalid
  else if b < 0xE0 then .sequence ⟨b % 0x20, 1, 0x80⟩
  else if b < 0xF0 then .sequence ⟨b % 0x10, 2, 0x800⟩
  else if b < 0xF8 then .sequence ⟨b % 0x08, 3, 0x10000⟩
  else .invalid

/-- Whether a byte continues a character. -/
def isTail (b : Nat) : Bool := 0x80 ≤ b && b < 0xC0

/-- The characters of some bytes that begin inside a character, if one is pending. -/
def decodeFrom : Option Pending → List UInt8 → Except IoCause (List Char)
  | none, [] => .ok []
  | some _, [] => .error .unexpectedEof
  | none, b :: bs =>
    match lead b.toNat with
    | .single => (decodeFrom none bs).map (Char.ofNat b.toNat :: ·)
    | .sequence p => decodeFrom (some p) bs
    | .invalid => .error .invalidData
  | some p, b :: bs =>
    if !isTail b.toNat then .error .invalidData
    else
      let bits := p.bits * 0x40 + b.toNat % 0x40
      if p.needed ≤ 1 then
        if p.least ≤ bits ∧ bits.isValidChar then
          (decodeFrom none bs).map (Char.ofNat bits :: ·)
        else .error .invalidData
      else decodeFrom (some { p with bits, needed := p.needed - 1 }) bs

/-- The text that some bytes are the UTF-8 form of, or what is wrong with the first character that
cannot be decoded. -/
def decode (bytes : List UInt8) : Except IoCause String :=
  (decodeFrom none bytes).map String.ofList

/-- The UTF-8 form of a text. -/
def encode (s : String) : List UInt8 := s.toList.flatMap String.utf8EncodeChar

end Lox.Utf8
