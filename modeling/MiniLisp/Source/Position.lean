/-!
# Position — a place in a named source

Rows and columns count from 1.  The character after a line feed starts a new row.
-/
namespace MiniLisp

structure Position where
  source : String := "<string>"
  row : Nat := 1
  col : Nat := 1
  deriving DecidableEq, Repr, Inhabited

namespace Position

def text (p : Position) : String :=
  p.source ++ ":" ++ toString p.row ++ ":" ++ toString p.col

end Position

end MiniLisp
