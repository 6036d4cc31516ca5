/-!
# Ranges of code points

A property of characters is a list of closed ranges in increasing order.  Looking
a code point up stops at the first range that ends at or after it.
-/
namespace MiniLisp.Text

abbrev Ranges := List (Nat × Nat)

namespace Ranges

/-- The first code point of the range that holds `n`. -/
def start? : Ranges → Nat → Option Nat
  | [], _ => none
  | (first, last) :: rest, n =>
    if last < n then start? rest n else if first ≤ n then some first else none

def contains (ranges : Ranges) (n : Nat) : Bool := (ranges.start? n).isSome

end Ranges

end MiniLisp.Text
