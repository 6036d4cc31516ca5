/-!
# The numbers of the language, as bits

A number is an IEEE 754 binary64 value.  Apart from the sign bit, the bit patterns
below `infinityBits` are the finite magnitudes **in increasing order**, so a
magnitude is handled as its pattern, a natural number, and measured exactly in the
smallest unit, 2⁻¹⁰⁷⁴ (`magnitude`).  `nearest` goes the other way: it rounds any
fraction of units to a pattern, a tie to the even one.  Nothing here is inexact.
-/
namespace MiniLisp.Number

/-- Powers of natural numbers are the core's, also where those of a monoid are known. -/
scoped instance (priority := high) natPow : Pow Nat Nat := instPowNat

/-! ## Sign and magnitude bits -/

def signBit : Nat := 2 ^ (63 : Nat)

/-- The pattern of infinity; the patterns above it are not numbers. -/
def infinityBits : Nat := 0x7FF0000000000000

def isNegative (x : Float) : Bool := signBit ≤ x.toBits.toNat

def magnitudeBits (x : Float) : Nat := x.toBits.toNat % signBit

def isFinite (x : Float) : Bool := magnitudeBits x < infinityBits

def isNaN (x : Float) : Bool := infinityBits < magnitudeBits x

def ofBits (negative : Bool) (bits : Nat) : Float :=
  Float.ofBits (UInt64.ofNat (if negative then signBit + bits else bits))

/-! ## Bits and exact magnitudes -/

/-- How many units make 1. -/
def unitsPerOne : Nat := 2 ^ (1074 : Nat)

/-- The magnitude that a finite pattern stands for, in units: below 2⁵² the pattern
itself, above it the 52 low bits with a leading 1, shifted by the field above them. -/
def magnitude (bits : Nat) : Nat :=
  if bits < 2 ^ (52 : Nat) then bits
  else (2 ^ (52 : Nat) + bits % 2 ^ (52 : Nat)) * 2 ^ (bits / 2 ^ (52 : Nat) - 1)

/-- The whole number next to `num / den`; a half goes to the even neighbour. -/
def roundHalfEven (num den : Nat) : Nat :=
  let quotient := num / den
  let twice := 2 * (num % den)
  if twice < den then quotient else if den < twice then quotient + 1 else quotient + quotient % 2

/-- The pattern next to `num / den` units.  A carry out of the low bits runs into the
field above them, which is the pattern of the next power of two. -/
def nearest (num den : Nat) : Nat :=
  let shift := (num / den).log2 - 52
  min (shift * 2 ^ (52 : Nat) + roundHalfEven num (den * 2 ^ shift)) infinityBits

/-! ## Whole numbers -/

def ofNat (n : Nat) : Float := ofBits false (nearest (n * unitsPerOne) 1)

/-- The greatest integer that is not above a finite number. -/
def floor (x : Float) : Int :=
  let units := magnitude (magnitudeBits x)
  if isNegative x then -(((units + unitsPerOne - 1) / unitsPerOne : Nat) : Int)
  else ((units / unitsPerOne : Nat) : Int)

end MiniLisp.Number
