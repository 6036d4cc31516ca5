import MiniLisp.Proofs.Expr.Printing
import MiniLisp.Proofs.Number.Floating
/-!
# Numeral — a number written as a program

A text that is a word is the one token of its source (`TokenReader.drain_word`), and if it is a literal of a finite
number, it is a program of that number, whatever may be nested (`Program.parse_literal`).  Both texts of a finite
number are such literals, because they denote what its usual text denotes (`Number.numeral_exact`).
-/
namespace MiniLisp

variable {source : String} {w : List Char}

/-- **A word alone is one token**, and then its source ends. -/
theorem TokenReader.drain_word {kind : Token.Kind} (source : String) (h : Word kind w) :
    ∃ pos, (ofText source w).drain = ([⟨kind, String.ofList w, ⟨source, 1, 1⟩⟩], .ended pos) := by
  have hs : Spelled source [] w [⟨kind, String.ofList w, .behind source []⟩] := .word h
  have hl : Lexing source [] w [⟨kind, String.ofList w, .behind source []⟩] := by
    simpa using hs.lexing atBoundary_nil (.last (.gap .nil))
  obtain ⟨pos, hd, -⟩ := drain_ofText hs.no_nul hl
  exact ⟨pos, hd⟩

/-- **A literal alone is a program of one number.** -/
theorem Program.parse_literal {x : Float} (limit : Nat) (source : String) (hw : Word .number w)
    (hread : Number.read? w = some x) (hx : Number.isFinite x = true) :
    Program.parse limit source (String.ofList w) = .ok [.number x ⟨source, 1, 1⟩] := by
  obtain ⟨pos, hd⟩ := TokenReader.drain_word source hw
  have hatom : Atom ⟨.number, String.ofList w, ⟨source, 1, 1⟩⟩ (.number x ⟨source, 1, 1⟩) :=
    .number (by rwa [String.toList_ofList]) hx
  have hfits : ∀ q ∈ [Phrase.atom _ _], q.Fits limit :=
    List.forall_mem_singleton.2 ⟨.atom hatom, Nat.zero_le limit⟩
  refine Program.parse_of_phrases ?_ hfits ?_
  · rw [String.toList_ofList]
    exact hw.not_mem (by decide)
  · rw [String.toList_ofList, hd]
    rfl

namespace Number

/-- **The text of a finite number is exact, positional, and a program of the number.**  In code stands the decimal
that the usual text denotes, written out without an exponent, and what is shown is the same without a final `.0`.
Either text denotes the same sign and the same value as the usual text, also for the two zeros.  It is one number
token, and since texts that denote the same are read as the same number, it is parsed to the number itself. -/
theorem numeral_exact {x : Float} (h : isFinite x = true) (limit : Nat) (source : String) :
    (∃ d, signed? (floating x) = some (isNegative x, d) ∧ code x = withSign x d.positional) ∧
    shown x = stripped (code x) ∧
    denoted? (floating x) = some (isNegative x, (decimal x).value) ∧ float? (floating x) = some x ∧
    ∀ text ∈ [code x, shown x], Word .number text ∧ 'e' ∉ text ∧ denoted? text = denoted? (floating x) ∧
      (∃ pos, (TokenReader.ofText source text).drain =
        ([⟨.number, String.ofList text, ⟨source, 1, 1⟩⟩], .ended pos)) ∧
      Program.parse limit source (String.ofList text) = .ok [.number x ⟨source, 1, 1⟩] := by
  refine ⟨exists_signed_floating h, shown_eq_stripped x, denoted?_floating x, float?_floating h, fun text ht => ?_⟩
  obtain ⟨hword, hdenoted⟩ := literal_of_mem h ht
  have hread : read? text = some x := by
    rw [read?_eq_float? hword.no_exponent, float?_congr hdenoted, float?_floating h]
  exact ⟨hword, hword.no_exponent, hdenoted, TokenReader.drain_word source hword,
    Program.parse_literal limit source hword hread h⟩

/-- Ten to the sixteenth is the least power of ten above 1 whose usual text has an exponent. -/
theorem numeral_exact_ten_pow_sixteen : isFinite (ofBits false 0x4341C37937E08000) = true ∧
    floating (ofBits false 0x4341C37937E08000) = ['1', 'e', '+', '1', '6'] ∧
    code (ofBits false 0x4341C37937E08000) = '1' :: List.replicate 16 '0' ∧
    Program.parse 0 "a" (String.ofList ('1' :: List.replicate 16 '0')) =
      .ok [.number (ofBits false 0x4341C37937E08000) ⟨"a", 1, 1⟩] := by
  have h : isFinite (ofBits false 0x4341C37937E08000) = true := by decide
  have hcode : code (ofBits false 0x4341C37937E08000) = '1' :: List.replicate 16 '0' := by decide +kernel
  obtain ⟨-, -, -, -, htexts⟩ := numeral_exact h 0 "a"
  obtain ⟨-, -, -, -, hparse⟩ := htexts _ List.mem_cons_self
  exact ⟨h, by decide +kernel, hcode, hcode ▸ hparse⟩

end Number

end MiniLisp
