import MiniLisp.Text.Blank
import MiniLisp.Text.Letter
import MiniLisp.Text.Digit
import MiniLisp.Token.Basic
/-!
# Lexeme — the next token of a text

Between tokens stand gaps: blanks, and comments from `;` to the end of the row.  At
the start of a token its first character decides the class, and the token is the
longest run of that class.  A run is valid only if a **boundary** follows it, a blank,
a parenthesis or the end; otherwise the character that follows is taken in and the whole
is invalid.  Nothing is read after an invalid token.
-/
namespace MiniLisp

/-! ## Gaps -/

mutual

/-- How many characters of blanks and comments stand in front of a text. -/
def gapSize : List Char → Nat
  | [] => 0
  | c :: cs => if Text.isBlank c then gapSize cs + 1 else if c = ';' then commentSize cs + 1 else 0

/-- The same inside a comment. -/
def commentSize : List Char → Nat
  | [] => 0
  | c :: cs => if c = '\n' then gapSize cs + 1 else commentSize cs + 1

end

/-! ## Classes of characters -/

def isOperatorChar (c : Char) : Bool :=
  ['-', '+', '/', '*', '&', '^', '%', '!', '|', '<', '>', '='].contains c

def isIdentChar (c : Char) : Bool := Text.isLetter c || Text.isDigit c

def isBoundary (c : Char) : Bool := Text.isBlank c || c = '(' || c = ')'

/-! ## One token -/

structure Lexeme where
  kind : Token.Kind
  text : List Char
  deriving DecidableEq, Repr

namespace Lexeme

/-- A run in front of `rest`: valid if it ends at a boundary. -/
def bounded (kind : Token.Kind) (run rest : List Char) : Lexeme :=
  match rest with
  | [] => ⟨kind, run⟩
  | c :: _ => if isBoundary c then ⟨kind, run⟩ else ⟨.invalid, run ++ [c]⟩

/-- The rest of a string after its opening quote.  There are no escapes, and a string
does not continue on the next row. -/
def quoted (cs : List Char) : Lexeme :=
  let body := cs.takeWhile fun c => c ≠ '"' && c ≠ '\n'
  match cs.dropWhile fun c => c ≠ '"' && c ≠ '\n' with
  | '"' :: rest => bounded .string ('"' :: body ++ ['"']) rest
  | _ => ⟨.invalid, '"' :: body⟩

def startsWithDigit : List Char → Bool
  | [] => false
  | c :: _ => c.isDigit

/-- A number after its sign: digits, and at most one point, which a digit must follow. -/
def number (sign cs : List Char) : Lexeme :=
  let whole := sign ++ cs.takeWhile Char.isDigit
  match cs.dropWhile Char.isDigit with
  | '.' :: after =>
    if startsWithDigit after then
      let run := whole ++ '.' :: after.takeWhile Char.isDigit
      match after.dropWhile Char.isDigit with
      | '.' :: _ => ⟨.invalid, run ++ ['.']⟩
      | rest => bounded .number run rest
    else ⟨.invalid, whole ++ ['.']⟩
  | rest => bounded .number whole rest

/-- The token that starts with `c`, where no gap is left in front of it.  A minus sign
belongs to the number whose digits follow it. -/
def read (c : Char) (cs : List Char) : Lexeme :=
  if c = '(' then ⟨.openParen, [c]⟩
  else if c = ')' then ⟨.closeParen, [c]⟩
  else if c = '"' then quoted cs
  else if c = '-' && startsWithDigit cs then number [c] cs
  else if isOperatorChar c then
    bounded .operator (c :: cs.takeWhile isOperatorChar) (cs.dropWhile isOperatorChar)
  else if c.isDigit then number [] (c :: cs)
  else if Text.isLetter c then
    bounded .ident (c :: cs.takeWhile isIdentChar) (cs.dropWhile isIdentChar)
  else ⟨.invalid, [c]⟩

/-! ## A token is never empty -/

theorem bounded_text_ne_nil {kind : Token.Kind} {run rest : List Char} (h : run ≠ []) :
    (bounded kind run rest).text ≠ [] := by
  unfold bounded
  split
  · exact h
  · split
    · exact h
    · simp

theorem number_text_ne_nil {sign cs : List Char} (h : sign ++ cs.takeWhile Char.isDigit ≠ []) :
    (number sign cs).text ≠ [] := by
  unfold number
  dsimp only
  split
  · split
    · split
      · simp
      · exact bounded_text_ne_nil (by simp)
    · simp
  · exact bounded_text_ne_nil h

theorem read_text_ne_nil (c : Char) (cs : List Char) : (read c cs).text ≠ [] := by
  unfold read
  split
  · simp
  split
  · simp
  split
  · unfold quoted
    dsimp only
    split
    · exact bounded_text_ne_nil (by simp)
    · simp
  split
  · exact number_text_ne_nil (by simp)
  split
  · exact bounded_text_ne_nil (by simp)
  split
  · rename_i h
    exact number_text_ne_nil (by simp [h])
  split
  · exact bounded_text_ne_nil (by simp)
  · simp

end Lexeme

end MiniLisp
