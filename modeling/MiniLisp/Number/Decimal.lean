import MiniLisp.Number.Binary
/-!
# Decimals

A `Decimal` is a magnitude written in base ten, `coefficient · 10 ^ exponent`.
`Decimal.nearest` is its binary pattern.  In the other direction a pattern has many
decimals that read back to it; `shortest` takes **the fewest digits that read back**,
of those the nearest to the magnitude, and of two equally near the one with the even
last digit.  That a result reads back is tested by the definition itself, and if no
grid of up to 17 digits had a hit the exact expansion would be returned, so the law
does not rest on 17 being enough.
-/
namespace MiniLisp.Number

structure Decimal where
  coefficient : Nat
  exponent : Int
  deriving DecidableEq, Repr

namespace Decimal

/-- A decimal as a fraction of units. -/
def fraction (d : Decimal) : Nat × Nat :=
  match d.exponent with
  | .ofNat k => (d.coefficient * 10 ^ k * unitsPerOne, 1)
  | .negSucc k => (d.coefficient * unitsPerOne, 10 ^ (k + 1))

def nearest (d : Decimal) : Nat := Number.nearest d.fraction.1 d.fraction.2

def digits (d : Decimal) : List Char := Nat.toDigits 10 d.coefficient

/-- The same magnitude without the zeros at the end of its coefficient. -/
def trim (d : Decimal) : Decimal :=
  let zeros := (d.digits.reverse.takeWhile (· == '0')).length
  if d.coefficient = 0 then ⟨0, 0⟩ else ⟨d.coefficient / 10 ^ zeros, d.exponent + zeros⟩

/-! ## The decimals beside a magnitude -/

/-- The two neighbours of a magnitude on the grid of multiples of `10 ^ exponent`,
the nearer first and of two equally near the even one. -/
def neighbours (units : Nat) (exponent : Int) : List Decimal :=
  let (num, den) := match exponent with
    | .ofNat k => (units, unitsPerOne * 10 ^ k)
    | .negSucc k => (units * 10 ^ (k + 1), unitsPerOne)
  let near := roundHalfEven num den
  let far := if near = num / den then near + 1 else near - 1
  [⟨near, exponent⟩, ⟨far, exponent⟩]

/-- The place of the first digit of a magnitude: 0 for 1 to 9, -1 for tenths.  The
smallest positive magnitude still has seven digits left of the point once multiplied by 10³³⁰. -/
def leadingPlace (units : Nat) : Int :=
  ((Nat.toDigits 10 (units * 10 ^ (330 : Nat) / unitsPerOne)).length : Int) - 331

/-- A magnitude in full, with as many digits as it takes. -/
def exact (units : Nat) : Decimal := ⟨units * 5 ^ (1074 : Nat), -1074⟩

def shortest (bits : Nat) : Decimal :=
  let units := magnitude bits
  let place := leadingPlace units
  ((List.range 17).findSome? fun (below : Nat) =>
    ((neighbours units (place - below)).map trim).find? fun d => d.nearest == bits).getD
      (exact units).trim

/-! ## Positional text -/

/-- A decimal in positional notation: no exponent, and a point only before a fraction. -/
def positional (d : Decimal) : List Char :=
  match d.exponent with
  | .ofNat k => d.digits ++ List.replicate k '0'
  | .negSucc k =>
    let padded := List.replicate (k + 2 - d.digits.length) '0' ++ d.digits
    let whole := padded.length - (k + 1)
    padded.take whole ++ '.' :: padded.drop whole

/-- How many digits stand left of the point, at most zero for a leading fraction. -/
def wholeSize (d : Decimal) : Int := d.digits.length + d.exponent

end Decimal

end MiniLisp.Number
