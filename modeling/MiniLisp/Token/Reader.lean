import MiniLisp.Source.Scanner
import MiniLisp.Token.Lexeme
/-!
# TokenReader — the tokens of a source, one by one

A reader delivers the tokens of its source in order.  It **halts** at the end and after
an invalid token.  If the scanner meets a forbidden character while a token is read, that
read fails and the token is lost; afterwards the reader is done.

Beside `next` there is a cursor, `token`: `advance` reads the next token into it.  `drain`
reads all the tokens that are left, and says how they end.
-/
namespace MiniLisp

structure TokenReader where
  scanner : Scanner
  halted : Bool
  token : Option Token
  deriving Repr

/-- How the tokens of a source end: at the position of its last character, or at a
forbidden one. -/
inductive Ending where
  | ended (pos : Position)
  | refused (cause : Forbidden)
  deriving DecidableEq, Repr

namespace Ending

def refusal? : Ending → Option Forbidden
  | .ended _ => none
  | .refused cause => some cause

end Ending

namespace TokenReader

def ofScanner (s : Scanner) : TokenReader := ⟨s, false, none⟩

def ofText (source : String) (text : List Char) : TokenReader := ofScanner (Scanner.ofText source text)

/-- No further token will be delivered. -/
def done (r : TokenReader) : Bool := r.halted || r.scanner.done

def pos (r : TokenReader) : Position := r.scanner.pos

/-- The scanner in front of the next token. -/
def atToken (r : TokenReader) : Scanner :=
  r.scanner.begin.advanceBy (gapSize r.scanner.begin.pending)

def next (r : TokenReader) : Except Forbidden (Option Token) × TokenReader :=
  if r.done then (.ok none, { r with halted := true })
  else
    let s := r.atToken
    match s.current with
    | none =>
      match s.refusal? with
      | some cause => (.error cause, { r with scanner := s })
      | none => (.ok none, { r with scanner := s, halted := true })
    | some c =>
      let lexeme := Lexeme.read c s.rest
      let after := s.advanceBy lexeme.text.length
      match after.refusal? with
      | some cause => (.error cause, { r with scanner := after })
      | none =>
        (.ok (some ⟨lexeme.kind, String.ofList lexeme.text, s.pos⟩),
          { r with scanner := after, halted := lexeme.kind == .invalid })

/-- Reads the next token into the cursor; a read that fails leaves the cursor alone. -/
def advance (r : TokenReader) : Except Forbidden (Option Token) × TokenReader :=
  match r.next with
  | (.ok token, r) => (.ok token, { r with token := token })
  | (.error cause, r) => (.error cause, r)

/-! ## All the tokens -/

/-- What is left to read, and the end. -/
def left (r : TokenReader) : Nat := if r.halted then 0 else r.scanner.left + 1

theorem left_next_lt {r r' : TokenReader} {t : Token} (h : r.next = (.ok (some t), r')) :
    r'.left < r.left := by
  unfold next at h
  split at h
  · simp at h
  · rename_i hd
    have hh : r.halted = false := by
      cases hr : r.halted <;> simp_all [done]
    dsimp only at h
    split at h
    · split at h <;> simp at h
    · rename_i c hc
      split at h
      · simp at h
      · have hp : r.atToken.place = .on c := by
          unfold Scanner.current at hc
          split at hc <;> simp_all
        have hlt : (r.atToken.advanceBy (Lexeme.read c r.atToken.rest).text.length).left <
            r.atToken.left := by
          cases hl : (Lexeme.read c r.atToken.rest).text with
          | nil => exact absurd hl (Lexeme.read_text_ne_nil c _)
          | cons d ds =>
            exact Nat.lt_of_le_of_lt (Scanner.left_advanceBy_le ds.length _)
              (Scanner.left_advance_lt hp)
        have hle : r.atToken.left ≤ r.scanner.left :=
          Nat.le_trans (Scanner.left_advanceBy_le _ _) (Scanner.left_begin_le _)
        simp only [Prod.mk.injEq] at h
        obtain ⟨-, rfl⟩ := h
        simp only [left, hh]
        split
        · simp
        · simp; omega

/-- The tokens that are left, in order, and how they end. -/
def drain (r : TokenReader) : List Token × Ending :=
  match h : r.next with
  | (.error cause, _) => ([], .refused cause)
  | (.ok none, r') => ([], .ended r'.pos)
  | (.ok (some t), r') =>
    have := left_next_lt h
    let (ts, ending) := drain r'
    (t :: ts, ending)
  termination_by r.left

end TokenReader

end MiniLisp
