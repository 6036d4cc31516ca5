import MiniLisp.Error.Diagnostic
import MiniLisp.Source.Scanner
import MiniLisp.Number.Text
import MiniLisp.Value.Kind
/-!
# Error — what can go wrong, by cause

Parsing, evaluation and argument reading fail with an `Error`, which says why.  The wording
is in one place, `Error.diagnostic`.
-/
namespace MiniLisp

/-- Why a token cannot stand where it does.  Problems of a whole form are reported at
the word that opens it. -/
inductive ParseProblem where
  | strayClose
  | invalidToken
  | unknownOperator
  | numberOutOfRange
  | noParams
  | paramNotIdent
  | noCondition
  | tooManyBranches
  | letCount (parts : Nat)
  | letTarget
  deriving DecidableEq, Repr

/-- Where the input ended too early. -/
inductive Unfinished where
  | atHead
  | inParams
  | inForm
  deriving DecidableEq, Repr

/-- Why an argument does not fit. -/
inductive ArgumentProblem where
  | missing (expected : String)
  | mismatch (expected : String) (actual : Kind)
  | surplus
  | noLength (actual : Kind)
  | oddCount (count : Nat)
  | keyNotString (actual : Kind)
  deriving DecidableEq, Repr

inductive Error where
  | forbidden (cause : Forbidden)
  | parse (problem : ParseProblem) (token : Token)
  | unexpectedEnd (place : Unfinished) (pos : Position)
  | nestedTooDeeply (source : String)
  | type (expected actual : Kind) (pos : Option Position)
  | undefinedFunction (name : String) (pos : Position)
  | argumentCount (expected actual : Nat) (pos : Position)
  | readOnly (name : String)
  | indexNotFinite (x : Float)
  | indexOutOfBounds (index : Int) (length : Nat)
  | recursionTooDeep (pos : Position)
  | argument (fn : String) (index : Nat) (problem : ArgumentProblem)
  deriving DecidableEq

/-! ## Wording -/

def ParseProblem.message (token : Token) : ParseProblem → String
  | .strayClose => "unexpected close paren"
  | .invalidToken => "invalid token"
  | .unknownOperator => "unrecognized operator"
  | .numberOutOfRange => "could not parse number (" ++ token.text ++ ") - value out of range"
  | .noParams => "expected open paren"
  | .paramNotIdent => "args can only contain idents"
  | .noCondition => "if statement must have condition"
  | .tooManyBranches => "if statement can have no more than 3 expressions"
  | .letCount parts => "let expects 2 arguments, got " ++ toString parts
  | .letTarget => "let expects an ident as first argument"

def Unfinished.message : Unfinished → String
  | .atHead => "parse ended inside of call"
  | .inParams => "file ended in function args"
  | .inForm => "unexpected end of input"

namespace ArgumentProblem

def message : ArgumentProblem → String
  | .missing _ => "not enough arguments"
  | .mismatch expected actual => "expected '" ++ expected ++ "', got '" ++ actual.name ++ "'"
  | .surplus => "unprocessed arguments remaining at end of mapping"
  | .noLength actual => "cannot get length of '" ++ actual.name ++ "'"
  | .oddCount count => "map expects an even number of arguments; got " ++ toString count
  | .keyNotString actual => "map expects string keys, got '" ++ actual.name ++ "'"

def expected? : ArgumentProblem → Option String
  | .missing expected => some expected
  | .mismatch expected _ => some expected
  | .noLength _ => some "list, string or map"
  | .keyNotString _ => some Kind.string.name
  | .surplus | .oddCount _ => none

def actual? : ArgumentProblem → Option String
  | .mismatch _ actual | .noLength actual | .keyNotString actual => some actual.name
  | .missing _ | .surplus | .oddCount _ => none

end ArgumentProblem

namespace Error

def diagnostic : Error → Diagnostic
  | .forbidden cause => .forbiddenCharacter cause.char (some cause.pos)
  | .parse problem token => .parse (problem.message token) (some token) (some token.pos)
  | .unexpectedEnd place pos => .unexpectedEnd place.message (some pos)
  | .nestedTooDeeply source => .parse "expressions nested too deeply" none (some ⟨source, 1, 1⟩)
  | .type expected actual pos => .type expected.name actual.name pos
  | .undefinedFunction name pos =>
    .eval ("undefined identifier '" ++ name ++ "' cannot be used as function") (some pos)
  | .argumentCount expected actual pos =>
    .eval ("expected " ++ toString expected ++ " arguments in call; got " ++ toString actual) (some pos)
  | .readOnly name => .eval ("cannot bind '" ++ name ++ "' in a read-only environment") none
  | .indexNotFinite x =>
    .eval ("listGet index " ++ String.ofList (Number.shown x) ++ " out of bounds") none
  | .indexOutOfBounds index length =>
    .eval ("listGet index " ++ toString index ++ " out of bounds for list of length " ++
      toString length) none
  | .recursionTooDeep pos => .eval "maximum recursion depth exceeded" (some pos)
  | .argument fn index problem =>
    .argument fn index problem.message problem.expected? problem.actual?

def message (e : Error) : String := e.diagnostic.message

end Error

end MiniLisp
