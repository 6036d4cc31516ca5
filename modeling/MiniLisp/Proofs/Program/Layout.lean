import MiniLisp.Proofs.Program.Limit
import MiniLisp.Proofs.Program.Twin
import MiniLisp.Proofs.Token.Layout
/-!
# Layout — programs that are laid out anew

A program is parsed to the same expressions however its tokens are laid out, or it fails with the same message about
the same token (`Program.parse_laidOut`).
-/
namespace MiniLisp

/-- **Diagnostics of one class, with one message**, about tokens at the same place of two sequences, or about none. -/
inductive Diagnostic.Twin (tokens tokens' : List Token) : Diagnostic → Diagnostic → Prop
  | token {msg : String} {t u : Token} : (t, u) ∈ tokens.zip tokens' →
      Twin tokens tokens' (.parse msg (some t) (some t.pos)) (.parse msg (some u) (some u.pos))
  | source {msg : String} {pos : Option Position} : Twin tokens tokens' (.parse msg none pos) (.parse msg none pos)
  | unexpectedEnd {msg : String} {pos pos' : Option Position} :
      Twin tokens tokens' (.unexpectedEnd msg pos) (.unexpectedEnd msg pos')

variable {source text text' : String} {tokens tokens' : List Token}

/-- Tokens of the same kinds and texts are alike one by one. -/
theorem Token.forall₂_alike (h : tokens'.map Token.erase = tokens.map Token.erase) :
    List.Forall₂ (fun t u => (t, u) ∈ tokens.zip tokens' ∧ t.Alike u) tokens tokens' := by
  have herase : List.Forall₂ (fun t u => t.erase = u.erase) tokens tokens' := by
    have heq : List.Forall₂ (· = ·) (tokens.map Token.erase) (tokens'.map Token.erase) := by
      rw [h]
      exact List.forall₂_same.2 fun _ _ => rfl
    exact List.forall₂_map_left_iff.1 (List.forall₂_map_right_iff.1 heq)
  obtain ⟨hlength, hzip⟩ := List.forall₂_iff_zip.1 herase
  refine List.forall₂_iff_zip.2 ⟨hlength, fun {t u} hmem => ?_⟩
  obtain ⟨hkind, htext⟩ := Token.erase_eq_iff.1 (hzip hmem)
  exact ⟨hmem, hkind, htext⟩

theorem ParseProblem.message_congr {t u : Token} (h : t.Alike u) (problem : ParseProblem) :
    problem.message t = problem.message u := by
  unfold message
  rw [h.text]

/-- Errors about tokens at the same place are worded alike. -/
theorem Error.Twin.diagnostic {ending ending' : Ending} {e e' : Error} {pos : Position}
    (h : e.Twin (fun t u => (t, u) ∈ tokens.zip tokens' ∧ t.Alike u) ending ending' e')
    (hending : ending = .ended pos) (hsource : ∀ t ∈ tokens, t.pos.source = source)
    (hsource' : ∀ t ∈ tokens', t.pos.source = source) : e.diagnostic.Twin tokens tokens' e'.diagnostic := by
  cases h with
  | @parse problem t u htu =>
    rw [Error.diagnostic, Error.diagnostic, problem.message_congr htu.2]
    exact .token htu.1
  | @nestedTooDeeply t u htu =>
    obtain ⟨ht, hu⟩ := List.of_mem_zip htu.1
    rw [hsource t ht, hsource' u hu]
    exact .source
  | unexpectedEnd _ _ => exact .unexpectedEnd
  | forbidden hcause _ =>
    rw [hending] at hcause
    cases hcause

/-- **Layout does not matter.**  If a source has no NUL and no invalid token, then the same tokens with other separators
are read again, and parsed to the same expressions, positions aside; or parsing fails on both texts, with diagnostics of
one class and with one message, about tokens at the same place. -/
theorem Program.parse_laidOut (h : '\x00' ∉ text.toList)
    (hvalid : ∀ t ∈ (TokenReader.ofText source text.toList).drain.1, t.kind ≠ .invalid)
    (hlaid : LaidOut (TokenReader.ofText source text.toList).drain.1 text'.toList) (h' : '\x00' ∉ text'.toList) :
    (TokenReader.ofText source text'.toList).drain.1.map Token.erase =
      (TokenReader.ofText source text.toList).drain.1.map Token.erase ∧
    (∃ pos, (TokenReader.ofText source text'.toList).drain.2 = .ended pos) ∧
    ∀ limit : Nat, Both (fun es es' => es'.map Expr.erase = es.map Expr.erase)
      (fun e e' => e.diagnostic.Twin (TokenReader.ofText source text.toList).drain.1
        (TokenReader.ofText source text'.toList).drain.1 e'.diagnostic)
      (parse limit source text) (parse limit source text') := by
  obtain ⟨herase, pos, pos', hending, hending'⟩ := TokenReader.drain_laidOut h hvalid hlaid h'
  have hsource : ∀ t ∈ (TokenReader.ofText source text.toList).drain.1, t.pos.source = source :=
    fun t => TokenReader.source_of_mem_drain
  have hsource' : ∀ t ∈ (TokenReader.ofText source text'.toList).drain.1, t.pos.source = source :=
    fun t => TokenReader.source_of_mem_drain
  refine ⟨herase, ⟨pos', hending'⟩, fun limit => ?_⟩
  have hends : Ending.Twin (TokenReader.ofText source text.toList).drain.2
      (TokenReader.ofText source text'.toList).drain.2 := by
    rw [hending, hending']
    exact .ended pos pos'
  have hboth := steps_twin limit (fun t u htu => htu.2) hends (Token.forall₂_alike herase) empty_twin
  exact hboth.imp (fun _ _ hes => (Expr.map_erase_of_like hes).symm) fun _ _ he =>
    he.diagnostic hending hsource hsource'

/-- A comment behind `let`, which is reported in another column then, since no name follows it. -/
theorem Program.parse_laidOut_comment :
    ('\x00' ∉ "(let nil x)".toList ∧
      (∀ t ∈ (TokenReader.ofText "a" "(let nil x)".toList).drain.1, t.kind ≠ .invalid) ∧
      LaidOut (TokenReader.ofText "a" "(let nil x)".toList).drain.1 "( let\t;)\nnil x)\n".toList ∧
      '\x00' ∉ "( let\t;)\nnil x)\n".toList) ∧
    ∃ e, parse 1 "a" "( let\t;)\nnil x)\n" = .error e ∧ ∃ t, (⟨.ident, "let", ⟨"a", 1, 2⟩⟩, t) ∈
      (TokenReader.ofText "a" "(let nil x)".toList).drain.1.zip
        (TokenReader.ofText "a" "( let\t;)\nnil x)\n".toList).drain.1 ∧
      e.diagnostic = .parse "let expects an ident as first argument" (some t) (some t.pos) := by
  have hdrain : (TokenReader.ofText "a" "(let nil x)".toList).drain =
      ([⟨.openParen, "(", ⟨"a", 1, 1⟩⟩, ⟨.ident, "let", ⟨"a", 1, 2⟩⟩, ⟨.ident, "nil", ⟨"a", 1, 6⟩⟩,
        ⟨.ident, "x", ⟨"a", 1, 10⟩⟩, ⟨.closeParen, ")", ⟨"a", 1, 11⟩⟩], .ended ⟨"a", 1, 11⟩) := by decide +kernel
  have h : '\x00' ∉ "(let nil x)".toList := by decide
  have h' : '\x00' ∉ "( let\t;)\nnil x)\n".toList := by decide
  have hvalid : ∀ t ∈ (TokenReader.ofText "a" "(let nil x)".toList).drain.1, t.kind ≠ .invalid := by
    rw [hdrain]
    decide
  have hlaid : LaidOut (TokenReader.ofText "a" "(let nil x)".toList).drain.1 "( let\t;)\nnil x)\n".toList := by
    rw [hdrain]
    have hblank : Separator [' '] := .blank (by decide) .nil
    have hcomment : Separator ['\t', ';', ')', '\n'] := .blank (by decide) (@Gap.comment [')'] [] (by decide) .nil)
    have hfeed : Separator ['\n'] := .blank (by decide) .nil
    exact @LaidOut.tokens _ [] _ .nil (.cons hblank nofun (.cons hcomment nofun (.cons hblank nofun
      (.cons .none (fun _ => .inr (.inr rfl)) (.last hfeed)))))
  refine ⟨⟨h, hvalid, hlaid, h'⟩, ?_⟩
  have hboth := (parse_laidOut h hvalid hlaid h').2.2 1
  have hparse : parse 1 "a" "(let nil x)" = .error (.parse .letTarget ⟨.ident, "let", ⟨"a", 1, 2⟩⟩) := by
    rw [parse, hdrain]
    rfl
  rw [hparse] at hboth
  generalize hagain : parse 1 "a" "( let\t;)\nnil x)\n" = x at hboth
  cases hboth with
  | @error _ e he =>
    refine ⟨e, rfl, ?_⟩
    generalize hd : e.diagnostic = d at he
    cases he with
    | token hmem => exact ⟨_, hmem, rfl⟩

end MiniLisp
