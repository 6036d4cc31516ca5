import MiniLisp.Number.Decimal
/-!
# Number text

In code a number is written positionally with its shortest digits, and a whole
number of at most `wholeDigits` digits keeps a final `.0`.  Shown as a value it has
no `.0`.  Both texts are read back by `read?`, which takes the notation of number
literals: an optional minus sign, digits, and optionally a point and more digits.
-/
namespace MiniLisp.Number

/-- Longer whole numbers are written in code without a fraction. -/
def wholeDigits : Int := 16

/-! ## Writing -/

def decimal (x : Float) : Decimal := Decimal.shortest (magnitudeBits x)

def withSign (x : Float) (magnitude : List Char) : List Char :=
  if isNegative x then '-' :: magnitude else magnitude

/-- The text of a number shown as a value. -/
def shown (x : Float) : List Char :=
  if isNaN x then ['n', 'a', 'n']
  else if isFinite x then withSign x (decimal x).positional
  else withSign x ['i', 'n', 'f']

/-- Whether a number is written in code with a final `.0`. -/
def hasPoint (x : Float) : Bool :=
  isFinite x && 0 ≤ (decimal x).exponent && (decimal x).wholeSize ≤ wholeDigits

/-- The text of a number in code. -/
def code (x : Float) : List Char := if hasPoint x then shown x ++ ['.', '0'] else shown x

/-! ## Reading -/

/-- The decimal with the given digits before and after the point. -/
def Decimal.ofDigits (whole fraction : List Char) : Decimal :=
  ⟨Nat.ofDigitChars 10 (whole ++ fraction) 0, -(fraction.length : Int)⟩

/-- An unsigned number literal as a decimal. -/
def Decimal.read? (text : List Char) : Option Decimal :=
  let whole := text.takeWhile Char.isDigit
  if whole.isEmpty then none
  else match text.dropWhile Char.isDigit with
    | [] => some (.ofDigits whole [])
    | '.' :: fraction =>
      if !fraction.isEmpty && fraction.all Char.isDigit then some (.ofDigits whole fraction) else none
    | _ => none

/-- The number that a literal stands for, infinite if it is out of range. -/
def read? : List Char → Option Float
  | '-' :: text => (Decimal.read? text).map fun d => ofBits true d.nearest
  | text => (Decimal.read? text).map fun d => ofBits false d.nearest

end MiniLisp.Number
