import MiniLisp.Expr.Basic
import MiniLisp.Number.Text
/-!
# Code — the source text of an expression

Expressions are written on one line, the parts of a form separated by single spaces.
A string is written between quotes as it is, since the language has no escapes, and
an `if` with both its branches.
-/
namespace MiniLisp.Expr

/-- Texts with single spaces between them. -/
def spaced (texts : List (List Char)) : List Char := [' '].intercalate texts

mutual

def chars : Expr → List Char
  | .ident name _ => name.toList
  | .number x _ => Number.code x
  | .string text _ => '"' :: text.toList ++ ['"']
  | .bool true _ => ['t', 'r', 'u', 'e']
  | .bool false _ => ['f', 'a', 'l', 's', 'e']
  | .nil _ => ['n', 'i', 'l']
  | .operator op _ => op.spelling.toList
  | .call [] _ => ['(', ')']
  | .call (head :: args) _ => '(' :: chars head ++ following args ++ [')']
  | .cond test yes no _ =>
    ['(', 'i', 'f', ' '] ++ chars test ++ ' ' :: chars yes ++ ' ' :: chars no ++ [')']
  | .fn params body _ =>
    ['(', 'f', 'n', ' ', '('] ++ spaced (params.map String.toList) ++ ')' :: following body ++ [')']
  | .define name _ value _ =>
    ['(', 'l', 'e', 't', ' '] ++ name.toList ++ ' ' :: chars value ++ [')']

/-- Expressions with a space in front of each. -/
def following : List Expr → List Char
  | [] => []
  | e :: es => ' ' :: chars e ++ following es

end

def code (e : Expr) : String := String.ofList e.chars

end MiniLisp.Expr
