/-!
# Operators

An operator is written in place of a function name, and is resolved when it is parsed:
a run of operator characters that spells none of these is an error.
-/
namespace MiniLisp

inductive Operator where
  | add
  | sub
  | mul
  | div
  | eq
  | lt
  | gt
  | le
  | ge
  deriving DecidableEq, Repr

namespace Operator

def spelling : Operator → String
  | .add => "+"
  | .sub => "-"
  | .mul => "*"
  | .div => "/"
  | .eq => "=="
  | .lt => "<"
  | .gt => ">"
  | .le => "<="
  | .ge => ">="

def all : List Operator := [.add, .sub, .mul, .div, .eq, .lt, .gt, .le, .ge]

def ofSpelling? (text : String) : Option Operator := all.find? fun op => op.spelling == text

end Operator

end MiniLisp
