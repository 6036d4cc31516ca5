import MiniLisp.Proofs.Program.Derive
import MiniLisp.Proofs.Program.Failure
import MiniLisp.Proofs.Program.Limit
import MiniLisp.Proofs.Program.Twin
/-!
# Places — where the errors of parsing point

A parse error names a token of its source, and stands where the token does.  An unexpected end stands at the last
character of the source, which has no invalid token then, and more parentheses that open than close: phrases are
balanced, and of every open form there is a parenthesis too many (`Program.parse_error_places`).
-/
namespace MiniLisp

open Phrase (Grammatical tokensAll)

/-! ## Parentheses -/

/-- What a token adds to the parentheses that are open. -/
def Token.Kind.opening : Token.Kind → Int
  | .openParen => 1
  | .closeParen => -1
  | .ident | .operator | .number | .string | .invalid => 0

namespace Token

/-- How many more parentheses open than close. -/
def surplus : List Token → Int
  | [] => 0
  | t :: ts => t.kind.opening + surplus ts

@[simp] theorem surplus_nil : surplus [] = 0 := rfl

@[simp] theorem surplus_cons (t : Token) (ts : List Token) : surplus (t :: ts) = t.kind.opening + surplus ts := rfl

@[simp] theorem surplus_append : ∀ ts us : List Token, surplus (ts ++ us) = surplus ts + surplus us
  | [], us => (Int.zero_add _).symm
  | t :: ts, us => by rw [List.cons_append, surplus_cons, surplus_cons, surplus_append ts us, Int.add_assoc]

theorem surplus_of_idents {ts : List Token} (h : ∀ t ∈ ts, t.kind = .ident) : surplus ts = 0 := by
  induction ts with
  | nil => rfl
  | cons t ts ih =>
    obtain ⟨ht, hts⟩ := List.forall_mem_cons.1 h
    rw [surplus_cons, ht, ih hts]
    rfl

/-- How many tokens are of a kind. -/
def count (kind : Kind) (ts : List Token) : Nat := ts.countP fun t => t.kind = kind

theorem surplus_eq (ts : List Token) : surplus ts = count .openParen ts - count .closeParen ts := by
  induction ts with
  | nil => rfl
  | cons t ts ih =>
    unfold count at ih ⊢
    rw [surplus_cons, ih, List.countP_cons, List.countP_cons]
    cases t.kind <;> simp [Kind.opening] <;> omega

end Token

open Token (surplus surplus_nil surplus_cons surplus_append surplus_of_idents)

/-- Phrases that are balanced are balanced together. -/
theorem Phrase.surplus_tokensAll : ∀ {ps : List Phrase}, (∀ p ∈ ps, surplus p.tokens = 0) → surplus (tokensAll ps) = 0
  | [], _ => rfl
  | p :: ps, h => by
    obtain ⟨hp, hps⟩ := List.forall_mem_cons.1 h
    rw [tokensAll, surplus_append, hp, surplus_tokensAll hps, Int.add_zero]

theorem surplus_parens {opening closing : Token} (ho : opening.kind = .openParen) (hc : closing.kind = .closeParen)
    {ts : List Token} (hts : surplus ts = 0) : surplus (opening :: (ts ++ [closing])) = 0 := by
  rw [surplus_cons, surplus_append, surplus_cons, ho, hc, hts]
  rfl

theorem Token.IsWord.opening {t : Token} {text : String} (h : t.IsWord text) : t.kind.opening = 0 := by
  rw [h.1]
  rfl

/-- **A phrase closes as many parentheses as it opens.** -/
theorem Phrase.Grammatical.surplus_tokens {p : Phrase} (h : Grammatical p) : surplus p.tokens = 0 := by
  induction h with
  | @atom t e ha =>
    obtain ⟨hopen, hclose⟩ := ha.not_paren
    rw [tokens, surplus_cons, surplus_nil]
    cases hkind : t.kind with
    | openParen => exact absurd hkind hopen
    | closeParen => exact absurd hkind hclose
    | _ => rfl
  | call ho hc _ _ ih => exact surplus_parens ho hc (surplus_tokensAll ih)
  | @cond opening word closing parts ho hw hc _ _ _ ih =>
    have hinner : surplus (word :: tokensAll parts) = 0 := by
      rw [surplus_cons, hw.opening, surplus_tokensAll ih]
      rfl
    exact surplus_parens ho hc hinner
  | @fn opening word paramsOpening paramsClosing closing params body ho hw hpo hparams hpc hc _ ih =>
    have hbody := surplus_tokensAll ih
    have hinner : surplus (word :: (paramsOpening :: (params ++ [paramsClosing])) ++ tokensAll body) = 0 := by
      rw [List.cons_append, surplus_cons, surplus_append, hw.opening,
        surplus_parens hpo hpc (surplus_of_idents hparams), hbody]
      rfl
    have hall := surplus_parens ho hc hinner
    rw [tokens]
    simpa using hall
  | @define opening word name closing value ho hw hn hc _ ih =>
    have hinner : surplus (word :: name :: value.tokens) = 0 := by
      rw [surplus_cons, surplus_cons, hw.opening, hn.1, ih]
      rfl
    exact surplus_parens ho hc hinner

theorem Phrase.surplus_of_fits {n : Nat} {ps : List Phrase} (h : ∀ p ∈ ps, p.Fits n) : surplus (tokensAll ps) = 0 :=
  surplus_tokensAll fun p hp => (h p hp).grammatical.surplus_tokens

open Phrase (surplus_of_fits)

/-- **An open form has opened more parentheses than it has closed.** -/
theorem Form.Read.surplus_pos {n : Nat} {f : Form} {us : List Token} (h : f.Read n us) : 0 < surplus us := by
  have hopening : Token.Kind.openParen.opening = 1 := rfl
  have hclosing : Token.Kind.closeParen.opening = -1 := rfl
  cases h with
  | opened ho => simp [ho, hopening]
  | call ho _ _ hitems => simp [ho, hopening, surplus_of_fits hitems]
  | cond ho hw hparts => simp [ho, hopening, hw.opening, surplus_of_fits hparts]
  | define ho hw hparts => simp [ho, hopening, hw.opening, surplus_of_fits hparts]
  | fnHead ho hw => simp [ho, hopening, hw.opening]
  | fnParams ho hw hpo hparams => simp [ho, hpo, hopening, hw.opening, surplus_of_idents hparams]
  | fnBody ho hw hpo hparams hpc hbody =>
    simp [ho, hpo, hpc, hopening, hclosing, hw.opening, surplus_of_idents hparams, surplus_of_fits hbody]

namespace Program

variable {limit : Nat} {ending : Ending} {p : Program} {ts : List Token}

/-- **Of every form that is open there is a parenthesis too many.** -/
theorem Read.length_forms_le (h : Read limit p ts) : (p.forms.length : Int) ≤ surplus ts := by
  induction h with
  | top hqs => exact Int.le_of_eq (surplus_of_fits hqs).symm
  | @inside p ts us f _ _ _ hf ih =>
    have hpos := hf.surplus_pos
    rw [surplus_append, List.length_cons, length_settled]
    omega

/-- **Where the input ends too early**, all its tokens have been taken, and one more parenthesis is open. -/
theorem Read.of_unexpectedEnd {place : Unfinished} {pos : Position} {us : List Token} (h : Read limit p ts)
    (hquoted : ∀ u ∈ us, u.Quoted) (hs : steps limit ending p us = .error (.unexpectedEnd place pos)) :
    (∀ t ∈ us, t.kind ≠ .invalid) ∧ 0 < surplus (ts ++ us) := by
  induction us generalizing p ts with
  | nil =>
    have hforms := h.length_forms_le
    obtain ⟨finished, forms⟩ := p
    rw [List.append_nil]
    cases ending with
    | refused cause => cases hs
    | ended pos' =>
      cases forms with
      | nil => cases hs
      | cons f fs =>
        rw [List.length_cons] at hforms
        exact ⟨nofun, by omega⟩
  | cons t us ih =>
    obtain ⟨ht, hus⟩ := List.forall_mem_cons.1 hquoted
    have hlate := step_late limit (if us.isEmpty then ending.refusal? else none) p t
    rw [steps] at hs
    generalize hstep : p.step limit (if us.isEmpty then ending.refusal? else none) t = x at hs hlate
    generalize p.step limit none t = y at hlate
    cases hlate with
    | ok p' =>
      obtain ⟨hvalid, hpos⟩ := ih (h.step ht hstep) hus hs
      rw [List.append_assoc] at hpos
      exact ⟨List.forall_mem_cons.2 ⟨kind_ne_invalid_of_step hstep, hvalid⟩, hpos⟩
    | error he =>
      cases Except.error.inj hs
      cases he
    | forbidden _ _ => cases hs

/-! ## Errors -/

variable {source text : String} {e : Error}

/-- Errors of parsing name tokens of their source: they are made of these tokens, side by side with themselves. -/
theorem twin_of_parse (h : parse limit source text = .error e) :
    ∃ e', e.Twin (fun t u => t = u ∧ t ∈ (TokenReader.ofText source text.toList).drain.1)
      (TokenReader.ofText source text.toList).drain.2 (TokenReader.ofText source text.toList).drain.2 e' := by
  unfold parse at h
  generalize (TokenReader.ofText source text.toList).drain = drained at h ⊢
  obtain ⟨tokens, ending⟩ := drained
  dsimp only at h ⊢
  have hends : ending.Twin ending := by
    cases ending with
    | ended pos => exact .ended pos pos
    | refused cause => exact .refused cause
  have halike : ∀ t u : Token, t = u ∧ t ∈ tokens → t.Alike u := by
    rintro t _ ⟨rfl, -⟩
    exact ⟨rfl, rfl⟩
  have htokens : List.Forall₂ (fun t u => t = u ∧ t ∈ tokens) tokens tokens :=
    List.forall₂_same.2 fun t ht => ⟨rfl, ht⟩
  have hboth := steps_twin limit halike hends htokens empty_twin
  rw [h] at hboth
  cases hboth with
  | error he => exact ⟨_, he⟩

theorem parse_unexpectedEnd {place : Unfinished} {pos : Position}
    (h : parse limit source text = .error (.unexpectedEnd place pos)) :
    '\x00' ∉ text.toList ∧ (∀ t ∈ (TokenReader.ofText source text.toList).drain.1, t.kind ≠ .invalid) ∧
    Token.count .closeParen (TokenReader.ofText source text.toList).drain.1 <
      Token.count .openParen (TokenReader.ofText source text.toList).drain.1 ∧
    ∃ before c, text.toList = before ++ [c] ∧ pos = .behind source before := by
  have hread : Read limit empty (tokensAll []) := @Read.top limit [] nofun
  obtain ⟨hvalid, hpos⟩ := hread.of_unexpectedEnd quoted_of_mem_drain h
  rw [tokensAll, List.nil_append] at hpos
  have hend : (TokenReader.ofText source text.toList).drain.2 = .ended pos := by
    obtain ⟨_, htwin⟩ := twin_of_parse h
    cases htwin with
    | unexpectedEnd hending _ => exact hending
  have hnul := TokenReader.nul_notMem_of_drain hvalid hend
  have hcount : Token.count .closeParen (TokenReader.ofText source text.toList).drain.1 <
      Token.count .openParen (TokenReader.ofText source text.toList).drain.1 := by
    rw [Token.surplus_eq] at hpos
    omega
  refine ⟨hnul, hvalid, hcount, ?_⟩
  obtain ⟨tokens, hl⟩ := exists_lexing source [] text.toList
  obtain ⟨last, hdrain, hlast⟩ := TokenReader.drain_ofText hnul hl
  rw [hdrain] at hvalid hend
  obtain rfl := Ending.ended.inj hend
  rcases List.eq_nil_or_concat' text.toList with hempty | ⟨before, c, htext⟩
  · have hnothing : Lexing source [] text.toList [] := by
      rw [hempty]
      exact .last (.gap .nil)
    obtain ⟨_, hnone, -⟩ := TokenReader.drain_ofText hnul hnothing
    rw [hnone] at hpos
    exact absurd hpos (Int.lt_irrefl 0)
  · rw [hlast hvalid, htext, Position.last_concat]
    exact ⟨before, c, rfl, rfl⟩

/-- **Every error of parsing points at the right place.**  An unexpected end stands at the last character of the source,
whatever that is; then the source has no NUL and no invalid token, and more parentheses open than close.  A parse error
names one of the tokens of the source and stands where this token does, unless the forms of the source nest too
deeply. -/
theorem parse_error_places (h : parse limit source text = .error e) :
    (∀ msg pos, e.diagnostic = .unexpectedEnd msg pos →
      (∃ before c, text.toList = before ++ [c] ∧ pos = some (.behind source before)) ∧ '\x00' ∉ text.toList ∧
      (∀ t ∈ (TokenReader.ofText source text.toList).drain.1, t.kind ≠ .invalid) ∧
      Token.count .closeParen (TokenReader.ofText source text.toList).drain.1 <
        Token.count .openParen (TokenReader.ofText source text.toList).drain.1) ∧
    (∀ msg token pos, e.diagnostic = .parse msg token pos → e = .nestedTooDeeply source ∨
      ∃ t ∈ (TokenReader.ofText source text.toList).drain.1, token = some t ∧ pos = some t.pos) := by
  obtain ⟨_, htwin⟩ := twin_of_parse h
  cases htwin with
  | @parse problem t _ ht =>
    refine ⟨nofun, ?_⟩
    rintro msg token pos ⟨⟩
    exact .inr ⟨t, ht.2, rfl, rfl⟩
  | @nestedTooDeeply t _ ht =>
    refine ⟨nofun, ?_⟩
    rintro msg token pos -
    exact .inl (congrArg _ (TokenReader.source_of_mem_drain ht.2))
  | unexpectedEnd _ _ =>
    refine ⟨?_, nofun⟩
    rintro msg pos ⟨⟩
    obtain ⟨hnul, hvalid, hcount, before, c, htext, rfl⟩ := parse_unexpectedEnd h
    exact ⟨⟨before, c, htext, rfl⟩, hnul, hvalid, hcount⟩
  | forbidden _ _ => exact ⟨nofun, nofun⟩

/-- An `if` that is open at the end of a source, which is a comment. -/
theorem parse_error_places_comment : parse 1 "a" "(if nil ;)\n" = .error (.unexpectedEnd .inForm ⟨"a", 1, 11⟩) ∧
    (∃ before c, "(if nil ;)\n".toList = before ++ [c] ∧ some ⟨"a", 1, 11⟩ = some (Position.behind "a" before)) ∧
    '\x00' ∉ "(if nil ;)\n".toList ∧
    (∀ t ∈ (TokenReader.ofText "a" "(if nil ;)\n".toList).drain.1, t.kind ≠ .invalid) ∧
    Token.count .closeParen (TokenReader.ofText "a" "(if nil ;)\n".toList).drain.1 <
      Token.count .openParen (TokenReader.ofText "a" "(if nil ;)\n".toList).drain.1 := by
  have hparse : parse 1 "a" "(if nil ;)\n" = .error (.unexpectedEnd .inForm ⟨"a", 1, 11⟩) := by
    have hdrain : (TokenReader.ofText "a" "(if nil ;)\n".toList).drain =
        ([⟨.openParen, "(", ⟨"a", 1, 1⟩⟩, ⟨.ident, "if", ⟨"a", 1, 2⟩⟩, ⟨.ident, "nil", ⟨"a", 1, 5⟩⟩],
          .ended ⟨"a", 1, 11⟩) := by decide +kernel
    rw [parse, hdrain]
    rfl
  exact ⟨hparse, (parse_error_places hparse).1 _ _ rfl⟩

end Program

end MiniLisp
