import MiniLisp.Program.Form
import MiniLisp.Token.Reader
/-!
# Program — parsing

A program is parsed in one pass over its tokens, with the open forms on a stack.  The first
error ends the pass.  Three rules decide which error that is.

* A token that is wrong where it stands is reported before anything behind it is read.
* An unknown operator, a number out of range and a wrong parameter are noticed only
  after the next token has been read, so a forbidden character right behind them comes first.
* No more than `limit` forms may be open at once.
-/
namespace MiniLisp

/-- What has been read of a program: its finished expressions, the last one first, and
its open forms, the innermost first. -/
structure Program where
  finished : List Expr
  forms : List Form

namespace Program

def empty : Program := ⟨[], []⟩

/-! ## Expressions of one token -/

def word (t : Token) : Expr :=
  match t.text with
  | "nil" => .nil t.pos
  | "true" => .bool true t.pos
  | "false" => .bool false t.pos
  | name => .ident name t.pos

def operator (t : Token) : Except Error Expr :=
  match Operator.ofSpelling? t.text with
  | some op => .ok (.operator op t.pos)
  | none => .error (.parse .unknownOperator t)

def number (t : Token) : Except Error Expr :=
  match Number.read? t.text.toList with
  | some x => if Number.isFinite x then .ok (.number x t.pos) else .error (.parse .numberOutOfRange t)
  | none => .error (.parse .numberOutOfRange t)

/-- The text of a string literal, without its quotes. -/
def unquoted (text : String) : String := String.ofList (text.toList.drop 1).dropLast

/-- Reports the forbidden character behind a token, if there is one, before its own error. -/
def noticedLate (behind : Option Forbidden) : Except Error α → Except Error α
  | .ok a => .ok a
  | .error e => .error ((behind.map Error.forbidden).getD e)

/-! ## One token -/

/-- A program with one more expression, in its innermost form if one is open. -/
def add (p : Program) (e : Expr) : Program :=
  match p.forms with
  | [] => { p with finished := e :: p.finished }
  | f :: fs => { p with forms := f.add e :: fs }

def openForm (limit : Nat) (p : Program) (t : Token) : Except Error Program :=
  if p.forms.length < limit then
    let outer := match p.forms with
      | [] => []
      | f :: fs => f.settle :: fs
    .ok { p with forms := .opened t.pos :: outer }
  else .error (.nestedTooDeeply t.pos.source)

def closeForm (p : Program) (t : Token) : Except Error Program :=
  match p.forms with
  | [] => .error (.parse .strayClose t)
  | f :: fs => f.close.map fun e => add { p with forms := fs } e

/-- A token where an expression may stand. -/
def item (limit : Nat) (behind : Option Forbidden) (p : Program) (t : Token) : Except Error Program :=
  match t.kind with
  | .openParen => p.openForm limit t
  | .closeParen => p.closeForm t
  | .ident => .ok (p.add (word t))
  | .operator => noticedLate behind ((operator t).map p.add)
  | .number => noticedLate behind ((number t).map p.add)
  | .string => .ok (p.add (.string (unquoted t.text) t.pos))
  | .invalid => .error (.parse .invalidToken t)

/-- A token among the parameters of the form `f`. -/
def param (behind : Option Forbidden) (f : Form) (params : List String) (t : Token) :
    Except Error Form :=
  match t.kind with
  | .ident => .ok { f with shape := .fnParams (params ++ [t.text]) }
  | .closeParen => .ok { f with shape := .fnBody params }
  | _ => noticedLate behind (.error (.parse .paramNotIdent t))

def step (limit : Nat) (behind : Option Forbidden) (p : Program) (t : Token) : Except Error Program :=
  match p.forms with
  | [] => p.item limit behind t
  | f :: fs =>
    match f.shape with
    | .fnHead =>
      if t.kind = .openParen then .ok { p with forms := { f with shape := .fnParams [] } :: fs }
      else .error (.parse .noParams t)
    | .fnParams params => (param behind f params t).map fun f => { p with forms := f :: fs }
    | .undecided =>
      match Form.shapeOfWord? t with
      | some shape => .ok { p with forms := { f with shape := shape } :: fs }
      | none => p.item limit behind t
    | .call | .cond _ | .define _ | .fnBody _ => p.item limit behind t

/-! ## All tokens -/

def finish (p : Program) : Ending → Except Error (List Expr)
  | .refused cause => .error (.forbidden cause)
  | .ended pos =>
    match p.forms with
    | [] => .ok p.finished.reverse
    | f :: _ => .error (f.unfinished pos)

/-- Only the last token has the ending right behind it. -/
def steps (limit : Nat) (ending : Ending) : Program → List Token → Except Error (List Expr)
  | p, [] => p.finish ending
  | p, t :: ts => do
    let behind := if ts.isEmpty then ending.refusal? else none
    steps limit ending (← p.step limit behind t) ts

/-- The expressions of a source text, with at most `limit` forms open at once. -/
def parse (limit : Nat) (source : String) (text : String) : Except Error (List Expr) :=
  let (tokens, ending) := (TokenReader.ofText source text.toList).drain
  steps limit ending empty tokens

end Program

end MiniLisp
