import MiniLisp.Source.Position
import MiniLisp.Text.Quoted
/-!
# Token — a classified piece of source text
-/
namespace MiniLisp

inductive Token.Kind where
  | openParen
  | closeParen
  | ident
  | operator
  | number
  | string
  | invalid
  deriving DecidableEq, Repr

structure Token where
  kind : Token.Kind
  text : String
  pos : Position
  deriving DecidableEq, Repr

namespace Token

namespace Kind

def label : Kind → String
  | .openParen => "OPEN_PAREN"
  | .closeParen => "CLOSE_PAREN"
  | .ident => "IDENT"
  | .operator => "OPERATOR"
  | .number => "NUMBER"
  | .string => "STRING"
  | .invalid => "INVALID"

def all : List Kind := [.openParen, .closeParen, .ident, .operator, .number, .string, .invalid]

def ofLabel? (label : String) : Option Kind := all.find? fun k => k.label == label

end Kind

/-- A token as one word: its kind with its quoted text in parentheses. -/
def described (t : Token) : String := t.kind.label ++ "(" ++ Text.quoted t.text ++ ")"

end Token

end MiniLisp
