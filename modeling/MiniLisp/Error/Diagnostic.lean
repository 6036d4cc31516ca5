import MiniLisp.Token.Basic
/-!
# Diagnostic — how an error is reported

A diagnostic has one of six classes, each with its own data, and one line of text.
-/
namespace MiniLisp

inductive Diagnostic where
  | forbiddenCharacter (char : Char) (pos : Option Position)
  | parse (msg : String) (token : Option Token) (pos : Option Position)
  | unexpectedEnd (msg : String) (pos : Option Position)
  | type (expected actual : String) (pos : Option Position)
  | eval (msg : String) (pos : Option Position)
  | argument (fn : String) (index : Int) (msg : String) (expected actual : Option String)
  deriving DecidableEq, Repr

namespace Diagnostic

/-- A parse diagnostic without a position of its own has that of its token. -/
def parseAt (msg : String) (token : Option Token) (pos : Option Position) : Diagnostic :=
  .parse msg token (pos <|> token.map Token.pos)

def pos? : Diagnostic → Option Position
  | .forbiddenCharacter _ p | .parse _ _ p | .unexpectedEnd _ p | .type _ _ p | .eval _ p => p
  | .argument .. => none

/-- A position in parentheses at the end of a line. -/
def place : Option Position → String
  | none => ""
  | some p => " (" ++ p.text ++ ")"

def ofToken : Option Token → String
  | none => ""
  | some t => " for token `" ++ t.text ++ "`"

def hexadecimal (n : Nat) : String := "0x" ++ String.ofList (Nat.toDigits 16 n)

def message : Diagnostic → String
  | .forbiddenCharacter c p =>
    "Forbidden character " ++ hexadecimal c.toNat ++ " found in scan of " ++
      (p.map Position.text).getD "None"
  | .parse msg token p => "Parse error " ++ msg ++ ofToken token ++ place p
  | .unexpectedEnd msg p => "Parse error " ++ msg ++ place p
  | .type expected actual p =>
    "Type error: expected '" ++ expected ++ "', got '" ++ actual ++ "'" ++ place p
  | .eval msg p => "Eval error: " ++ msg ++ place p
  | .argument fn index msg _ _ =>
    "Argument error in '" ++ fn ++ "' at arg " ++ toString index ++ ": " ++ msg

end Diagnostic

end MiniLisp
