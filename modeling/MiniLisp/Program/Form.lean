import MiniLisp.Error.Basic
import MiniLisp.Expr.Basic
/-!
# Form — a parenthesis that is still open

While a program is read, the forms that are open make a stack.  A form takes its shape from
what follows its parenthesis: the words `if`, `fn` and `let` open the special forms, anything
else makes it a call.  Closing a form turns its parts into one expression, or fails if there
are too few or too many of them.
-/
namespace MiniLisp

inductive Form.Shape where
  /-- Nothing has followed the parenthesis yet. -/
  | undecided
  | call
  | cond (head : Token)
  | define (head : Token)
  /-- After `fn`, in front of its parameters. -/
  | fnHead
  | fnParams (params : List String)
  | fnBody (params : List String)
  deriving DecidableEq, Repr

structure Form where
  /-- The position of the parenthesis. -/
  start : Position
  shape : Form.Shape
  /-- The parts read so far, the last one first. -/
  parts : List Expr

namespace Form

def opened (start : Position) : Form := ⟨start, .undecided, []⟩

/-- A form that is followed by an expression is a call unless it is already something else. -/
def settle (f : Form) : Form :=
  match f.shape with
  | .undecided => { f with shape := .call }
  | _ => f

def add (f : Form) (e : Expr) : Form := { f.settle with parts := e :: f.parts }

/-- The parts of an `if`: a condition and up to two branches, nil where one is missing. -/
def closeCond (start : Position) (head : Token) : List Expr → Except Error Expr
  | [] => .error (.parse .noCondition head)
  | [test] => .ok (.cond test (.nil start) (.nil start) start)
  | [test, yes] => .ok (.cond test yes (.nil start) start)
  | [test, yes, no] => .ok (.cond test yes no start)
  | _ => .error (.parse .tooManyBranches head)

/-- The parts of a `let`: an identifier and an expression. -/
def closeDefine (start : Position) (head : Token) : List Expr → Except Error Expr
  | [.ident name namePos, value] => .ok (.define name namePos value start)
  | [_, _] => .error (.parse .letTarget head)
  | parts => .error (.parse (.letCount parts.length) head)

/-- The expression of a form that is closed here.  A `fn` without parameters cannot be. -/
def close (f : Form) : Except Error Expr :=
  match f.shape with
  | .undecided | .call | .fnHead | .fnParams _ => .ok (.call f.parts.reverse f.start)
  | .cond head => closeCond f.start head f.parts.reverse
  | .define head => closeDefine f.start head f.parts.reverse
  | .fnBody params => .ok (.fn params f.parts.reverse f.start)

/-- The error of a form that is still open where the input ends.  Parts that could not be
closed are reported as such. -/
def unfinished (f : Form) (endPos : Position) : Error :=
  match f.shape with
  | .undecided => .unexpectedEnd .atHead endPos
  | .fnParams _ => .unexpectedEnd .inParams endPos
  | .fnHead => .unexpectedEnd .inForm endPos
  | .call | .cond _ | .define _ | .fnBody _ =>
    match f.close with
    | .error e => e
    | .ok _ => .unexpectedEnd .inForm endPos

/-- The shape that a word gives to the form that it opens. -/
def shapeOfWord? (t : Token) : Option Shape :=
  if t.kind = .ident then
    match t.text with
    | "if" => some (.cond t)
    | "let" => some (.define t)
    | "fn" => some .fnHead
    | _ => none
  else none

end Form

end MiniLisp
