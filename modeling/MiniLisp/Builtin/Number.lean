import MiniLisp.Arguments.Basic
import MiniLisp.Operator
/-!
# Arithmetic and comparison

Arithmetic takes one or more numbers and folds from the left; with one number it answers
that number.  Comparison takes two.  All follow IEEE 754: dividing by zero gives an
infinity or NaN, and NaN compares false with everything.
-/
namespace MiniLisp.Operator

open ValueReading (one rest read)

def folded (op : Operator) (f : Float → Float → Float) (args : List Value) : Except Error Value :=
  read op.spelling args do
    let first ← one .number
    let others ← rest .number
    return .number (others.foldl f first)

def compared (op : Operator) (f : Float → Float → Bool) (args : List Value) : Except Error Value :=
  read op.spelling args do
    let a ← one .number
    let b ← one .number
    return .bool (f a b)

def apply (op : Operator) (args : List Value) : Except Error Value :=
  match op with
  | .add => op.folded (· + ·) args
  | .sub => op.folded (· - ·) args
  | .mul => op.folded (· * ·) args
  | .div => op.folded (· / ·) args
  | .eq => op.compared (· == ·) args
  | .lt => op.compared (fun a b => decide (a < b)) args
  | .gt => op.compared (fun a b => decide (b < a)) args
  | .le => op.compared (fun a b => decide (a ≤ b)) args
  | .ge => op.compared (fun a b => decide (b ≤ a)) args

end MiniLisp.Operator
