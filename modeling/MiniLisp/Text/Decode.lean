/-!
# Decoding files

Files are UTF-8.  A byte sequence that can start no character, or that continues with a
byte which no character has there, cannot be decoded; it is reported with the bytes up to
that point.  A file may also be **cut off** inside a character, which is noticed only at its
end; so it is if the file ends two bytes into a surrogate, which is no character.
Line ends are read alike: a carriage return, alone or with a line feed, becomes a line feed.
-/
namespace MiniLisp.Text

inductive DecodeProblem where
  | invalidStart
  | invalidContinuation
  | cutOff
  deriving DecidableEq, Repr

/-- Bytes that cannot be decoded, and the position of the first. -/
structure DecodeError where
  problem : DecodeProblem
  pos : Nat
  bytes : List UInt8
  deriving DecidableEq, Repr

/-- A character of which not all bytes have been read. -/
structure Partial where
  /-- The bytes so far, the last one first. -/
  bytes : List UInt8
  /-- The code point bits so far. -/
  bits : Nat
  /-- How many bytes are missing. -/
  missing : Nat
  /-- The least and the greatest byte that may come next. -/
  least : UInt8
  greatest : UInt8
  deriving DecidableEq, Repr

/-- What the first byte of a longer character promises.  The second byte is limited so
that no character has two spellings, none is a surrogate, and none lies above U+10FFFF. -/
def startOf? (b : UInt8) : Option Partial :=
  if b < 0xC2 then none
  else if b < 0xE0 then some ⟨[b], b.toNat % 0x20, 1, 0x80, 0xBF⟩
  else if b < 0xF0 then
    some ⟨[b], b.toNat % 0x10, 2, if b = 0xE0 then 0xA0 else 0x80, if b = 0xED then 0x9F else 0xBF⟩
  else if b < 0xF5 then
    some ⟨[b], b.toNat % 0x08, 3, if b = 0xF0 then 0x90 else 0x80, if b = 0xF4 then 0x8F else 0xBF⟩
  else none

/-- A text, and what is wrong at its end if it is cut off.  There positions are counted
from the first byte of the character that is cut. -/
structure Decoded where
  text : List Char
  cut : Option DecodeError
  deriving DecidableEq, Repr

def Decoded.push (c : Char) (d : Decoded) : Decoded := { d with text := c :: d.text }

/-- Whether the bytes of `p` and then `b` begin a surrogate. -/
def Partial.beginsSurrogate (p : Partial) (b : UInt8) : Bool :=
  p.bytes == [0xED] && 0xA0 ≤ b && b ≤ 0xBF

/-- Decodes bytes from position `pos` on, inside a character or between two. -/
def decodeFrom (pos : Nat) : Option Partial → List UInt8 → Except DecodeError Decoded
  | none, [] => .ok ⟨[], none⟩
  | some p, [] => .ok ⟨[], some ⟨.cutOff, 0, p.bytes.reverse⟩⟩
  | none, b :: rest =>
    if b < 0x80 then (decodeFrom (pos + 1) none rest).map (.push (Char.ofNat b.toNat))
    else match startOf? b with
      | some p => decodeFrom (pos + 1) (some p) rest
      | none => .error ⟨.invalidStart, pos, [b]⟩
  | some p, b :: rest =>
    if p.least ≤ b ∧ b ≤ p.greatest then
      let bits := p.bits * 0x40 + b.toNat % 0x40
      if p.missing ≤ 1 then (decodeFrom (pos + 1) none rest).map (.push (Char.ofNat bits))
      else decodeFrom (pos + 1) (some ⟨b :: p.bytes, bits, p.missing - 1, 0x80, 0xBF⟩) rest
    else if p.beginsSurrogate b && rest.isEmpty then
      .ok ⟨[], some ⟨.invalidContinuation, 0, p.bytes.reverse⟩⟩
    else .error ⟨.invalidContinuation, pos - p.bytes.length, p.bytes.reverse⟩

def decode (bytes : List UInt8) : Except DecodeError Decoded := decodeFrom 0 none bytes

/-- A text with every line end as a line feed. -/
def joinLineEnds : List Char → List Char
  | [] => []
  | '\r' :: '\n' :: cs => '\n' :: joinLineEnds cs
  | '\r' :: cs => '\n' :: joinLineEnds cs
  | c :: cs => c :: joinLineEnds cs

end MiniLisp.Text
