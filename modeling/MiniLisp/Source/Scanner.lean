import MiniLisp.Source.Position
/-!
# Scanner — a source read one character at a time

A scanner stands in front of its text, on one of its characters, or behind it, and knows
its position; in front of the text that is row 1, column 0.  The position follows the
character that is being left: leaving a line feed starts a new row.

A NUL may not appear in a source.  An advance that meets one fails, and from then on the
scanner is done, as it is behind the last character: further advances change nothing.
The text is cut at the first NUL when the scanner is made, so what lies behind it
cannot influence anything.
-/
namespace MiniLisp

def isForbidden (c : Char) : Bool := c == '\x00'

/-- A character that may not appear in a source, and where it stood. -/
structure Forbidden where
  char : Char
  pos : Position
  deriving DecidableEq, Repr

/-- Where a scanner stands in its text. -/
inductive Scanner.Place where
  | front
  | on (c : Char)
  | exhausted
  | refused (cause : Forbidden)
  deriving DecidableEq, Repr

structure Scanner where
  source : String
  row : Nat
  col : Nat
  place : Scanner.Place
  /-- The permitted characters that are left to read. -/
  rest : List Char
  /-- The forbidden character behind them, if the text has one. -/
  obstacle : Option Char
  deriving DecidableEq, Repr

namespace Scanner

def ofText (source : String) (text : List Char) : Scanner where
  source := source
  row := 1
  col := 0
  place := .front
  rest := text.takeWhile fun c => !isForbidden c
  obstacle := (text.dropWhile fun c => !isForbidden c).head?

/-! ## What a scanner shows -/

def pos (s : Scanner) : Position := ⟨s.source, s.row, s.col⟩

def current (s : Scanner) : Option Char :=
  match s.place with
  | .on c => some c
  | _ => none

def exhausted (s : Scanner) : Bool := s.place == .exhausted

/-- The failure that ended the reading. -/
def refusal? (s : Scanner) : Option Forbidden :=
  match s.place with
  | .refused cause => some cause
  | _ => none

def done (s : Scanner) : Bool :=
  match s.place with
  | .front | .on _ => false
  | .exhausted | .refused _ => true

def started (s : Scanner) : Bool := s.place != .front

/-! ## Advancing -/

/-- The scanner at the position of the next character. -/
def moved (s : Scanner) : Scanner :=
  if s.place = .on '\n' then { s with row := s.row + 1, col := 1 } else { s with col := s.col + 1 }

def advance (s : Scanner) : Scanner :=
  if s.done then s
  else match s.rest, s.obstacle with
    | c :: rest, _ => { s.moved with place := .on c, rest := rest }
    | [], none => { s with place := .exhausted }
    | [], some c => { s.moved with place := .refused ⟨c, s.moved.pos⟩ }

/-- The failure of the next advance: a NUL is refused once, and only recorded afterwards. -/
def failure? (s : Scanner) : Option Forbidden :=
  if s.done then none else s.advance.refusal?

def advanceBy : Nat → Scanner → Scanner
  | 0, s => s
  | n + 1, s => advanceBy n s.advance

/-- The scanner on its first character. -/
def begin (s : Scanner) : Scanner := if s.started then s else s.advance

/-- The permitted characters from the current one on. -/
def pending (s : Scanner) : List Char :=
  match s.place with
  | .on c => c :: s.rest
  | _ => []

/-! ## What is left to read shrinks -/

/-- How many characters have not been left behind. -/
def left (s : Scanner) : Nat :=
  match s.place with
  | .on _ => s.rest.length + 1
  | _ => s.rest.length

theorem rest_moved (s : Scanner) : s.moved.rest = s.rest := by
  unfold moved; split <;> rfl

theorem left_le (s : Scanner) : s.rest.length ≤ s.left := by
  unfold left; split <;> omega

theorem left_advance_le (s : Scanner) : s.advance.left ≤ s.left := by
  have h := left_le s
  unfold advance
  split
  · exact Nat.le_refl _
  · split <;> simp_all [left, rest_moved]

theorem left_advance_lt {s : Scanner} {c : Char} (h : s.place = .on c) : s.advance.left < s.left := by
  have hl : s.left = s.rest.length + 1 := by simp [left, h]
  unfold advance
  rw [if_neg (by simp [done, h])]
  split <;> rw [hl] <;> simp_all [left, rest_moved]

theorem left_advanceBy_le : ∀ (n : Nat) (s : Scanner), (s.advanceBy n).left ≤ s.left
  | 0, _ => Nat.le_refl _
  | n + 1, s => Nat.le_trans (left_advanceBy_le n s.advance) (left_advance_le s)

theorem left_begin_le (s : Scanner) : s.begin.left ≤ s.left := by
  unfold begin
  split
  · exact Nat.le_refl _
  · exact left_advance_le s

end Scanner

end MiniLisp
