import MiniLisp.Proofs.Token.Below
/-!
# Layout — the same tokens with other separators

A token that is not invalid is read wherever its text stands in front of a boundary, and a parenthesis wherever it
stands (`Lexeme.Starts.again`).  So tokens that are laid out anew, with blanks and comments between them where two of
them would merge, are read again, at other positions (`TokenReader.drain_laidOut`).
-/
namespace MiniLisp

open Lexeme (Starts)

namespace Token

/-- A token with its position forgotten: its kind and its text. -/
def erase (t : Token) : Token := t.mapPos fun _ => {}

theorem erase_eq_iff {t u : Token} : t.erase = u.erase ↔ t.kind = u.kind ∧ t.text = u.text := by
  unfold erase mapPos
  rw [Token.mk.injEq]
  exact ⟨fun ⟨hkind, htext, _⟩ => ⟨hkind, htext⟩, fun ⟨hkind, htext⟩ => ⟨hkind, htext, rfl⟩⟩

theorem erase_spelled (t : Token) (pos : Position) :
    erase ⟨t.kind, String.ofList t.text.toList, pos⟩ = t.erase :=
  erase_eq_iff.2 ⟨rfl, String.ofList_toList⟩

def IsParen (t : Token) : Prop := t.kind = .openParen ∨ t.kind = .closeParen

/-- Some text starts with this token. -/
def Readable (t : Token) : Prop := ∃ rest, Starts (t.text.toList ++ rest) ⟨t.kind, t.text.toList⟩

end Token

/-! ## Layouts -/

/-- What may stand behind a token: nothing, or a blank and then a gap. -/
inductive Separator : List Char → Prop
  | none : Separator []
  | blank {c : Char} {gap : List Char} : Text.isBlank c = true → Gap gap → Separator (c :: gap)

/-- **Texts of tokens one after another**, each in front of its separator, which is empty at most behind the last token
and where one of its neighbours is a parenthesis. -/
inductive LaidFrom : List Token → List Char → Prop
  | last {t : Token} {separator : List Char} : Separator separator → LaidFrom [t] (t.text.toList ++ separator)
  | cons {t u : Token} {tokens : List Token} {separator rest : List Char} : Separator separator →
      (separator = [] → t.IsParen ∨ u.IsParen) → LaidFrom (u :: tokens) rest →
      LaidFrom (t :: u :: tokens) (t.text.toList ++ (separator ++ rest))

/-- **Texts in which these tokens are laid out**, behind any gap. -/
inductive LaidOut : List Token → List Char → Prop
  | gap {gap : List Char} : Gap gap → LaidOut [] gap
  | tokens {tokens : List Token} {gap text : List Char} : Gap gap → LaidFrom tokens text → LaidOut tokens (gap ++ text)

theorem Separator.gap {separator : List Char} (h : Separator separator) : Gap separator := by
  cases h with
  | none => exact .nil
  | blank hc hg => exact .blank hc hg

theorem isBoundary_of_isBlank {c : Char} (h : Text.isBlank c = true) : isBoundary c = true := by
  rw [isBoundary, h, Bool.true_or, Bool.true_or]

/-! ## Reading a token again -/

/-- **A token is read again in front of any boundary**, and a parenthesis in front of anything. -/
theorem Lexeme.Starts.again {kind : Token.Kind} {text rest : List Char} (h : Starts (text ++ rest) ⟨kind, text⟩)
    (hvalid : kind ≠ .invalid) {rest' : List Char}
    (hrest : (kind = .openParen ∨ kind = .closeParen) ∨ AtBoundary rest') : Starts (text ++ rest') ⟨kind, text⟩ := by
  generalize hcs : text ++ rest = cs at h
  generalize hl : Lexeme.mk kind text = l at h
  cases h with
  | openParen cs =>
    obtain ⟨rfl, rfl⟩ := Lexeme.mk.inj hl
    exact .openParen _
  | closeParen cs =>
    obtain ⟨rfl, rfl⟩ := Lexeme.mk.inj hl
    exact .closeParen _
  | @string body _ hq hn _ =>
    obtain ⟨rfl, rfl⟩ := Lexeme.mk.inj hl
    rcases hrest with (hkind | hkind) | hb
    · cases hkind
    · cases hkind
    · rw [List.cons_append, List.cons_append, List.append_assoc]
      exact .string hq hn hb
  | @word kind' cs hw =>
    obtain ⟨rfl, htext⟩ := Lexeme.mk.inj hl
    rw [← htext] at hw ⊢
    have hb : AtBoundary rest' := by
      rcases hrest with (hkind | hkind) | hb
      · subst hkind
        cases hw
      · subst hkind
        cases hw
      · exact hb
    have hrun : run (text ++ rest') = text := run_append hw.not_boundary hb
    have hstarts : Starts (text ++ rest') ⟨kind, run (text ++ rest')⟩ := .word (hrun.symm ▸ hw)
    rwa [hrun] at hstarts
  | gluedString | openString | noWord => exact absurd (Lexeme.mk.inj hl).1 hvalid

variable {source : String} {before rest text gap : List Char} {tokens : List Token} {t u : Token}

/-- The tokens of a text are readable. -/
theorem Lexing.readable (h : Lexing source before rest tokens) : ∀ t ∈ tokens, t.Readable := by
  intro t ht
  obtain ⟨cs, rest', htext, hs, -⟩ := h.starts t ht
  refine ⟨rest', ?_⟩
  rwa [htext, String.toList_ofList]

/-- The text of a parenthesis is a boundary. -/
theorem Token.Readable.atBoundary (h : t.Readable) (hparen : t.IsParen) (rest : List Char) :
    AtBoundary (t.text.toList ++ rest) := by
  obtain ⟨rest', hs⟩ := h
  generalize hcs : t.text.toList ++ rest' = cs at hs
  generalize hl : Lexeme.mk t.kind t.text.toList = l at hs
  cases hs with
  | openParen cs =>
    rw [(Lexeme.mk.inj hl).2]
    exact atBoundary_cons.2 (by decide)
  | closeParen cs =>
    rw [(Lexeme.mk.inj hl).2]
    exact atBoundary_cons.2 (by decide)
  | @word kind _ hw =>
    obtain ⟨rfl, -⟩ := Lexeme.mk.inj hl
    rcases hparen with hkind | hkind <;> rw [hkind] at hw <;> cases hw
  | string | gluedString | openString | noWord =>
    rcases hparen with hkind | hkind <;> rw [hkind] at hl <;> cases (Lexeme.mk.inj hl).1

/-! ## Reading a layout -/

theorem LaidFrom.exists_head (h : LaidFrom (t :: tokens) text) : ∃ rest, text = t.text.toList ++ rest := by
  cases h with
  | last _ => exact ⟨_, rfl⟩
  | cons _ _ _ => exact ⟨_, rfl⟩

/-- Behind a token that is laid out there is a boundary, or the token is a parenthesis. -/
theorem atBoundary_separator {separator : List Char} (hs : Separator separator)
    (hempty : separator = [] → t.IsParen ∨ AtBoundary rest) : t.IsParen ∨ AtBoundary (separator ++ rest) := by
  cases hs with
  | none => exact hempty rfl
  | blank hc _ => exact .inr (atBoundary_cons.2 (isBoundary_of_isBlank hc))

/-- **Tokens that are laid out are lexed again.** -/
theorem LaidFrom.lexing (h : LaidFrom tokens text) (hread : ∀ t ∈ tokens, t.Readable)
    (hvalid : ∀ t ∈ tokens, t.kind ≠ .invalid) (hg : Gap gap) (before : List Char) :
    ∃ tokens', Lexing source before (gap ++ text) tokens' ∧ tokens'.map Token.erase = tokens.map Token.erase := by
  induction h generalizing gap before with
  | @last t separator hsep =>
    obtain ⟨rest, hs⟩ := hread t List.mem_cons_self
    have hk := hvalid t List.mem_cons_self
    have hb : t.IsParen ∨ AtBoundary separator := by
      have hend : t.IsParen ∨ AtBoundary (separator ++ []) :=
        atBoundary_separator hsep fun _ => .inr atBoundary_nil
      rwa [List.append_nil] at hend
    refine ⟨_, .token hg (hs.again hk hb) hk (.last (.gap hsep.gap)), ?_⟩
    rw [List.map_singleton, List.map_singleton, Token.erase_spelled]
  | @cons t u tokens separator rest hsep hempty hrest ih =>
    obtain ⟨_, hs⟩ := hread t List.mem_cons_self
    have hk := hvalid t List.mem_cons_self
    have hread' := fun v hv => hread v (List.mem_cons_of_mem t hv)
    have hb : t.IsParen ∨ AtBoundary (separator ++ rest) := by
      refine atBoundary_separator hsep fun hnone => (hempty hnone).imp_right fun hparen => ?_
      obtain ⟨rest', rfl⟩ := hrest.exists_head
      exact (hread' u List.mem_cons_self).atBoundary hparen rest'
    obtain ⟨tokens', hl, herase⟩ :=
      ih hread' (fun v hv => hvalid v (List.mem_cons_of_mem t hv)) hsep.gap (before ++ gap ++ t.text.toList)
    refine ⟨_, .token hg (hs.again hk hb) hk hl, ?_⟩
    rw [List.map_cons, List.map_cons, herase, Token.erase_spelled]

/-- **Tokens that are laid out anew are read again**, to the end of the text. -/
theorem TokenReader.drain_laidOut {text' : List Char} (h : '\x00' ∉ text)
    (hvalid : ∀ t ∈ (ofText source text).drain.1, t.kind ≠ .invalid)
    (hlaid : LaidOut (ofText source text).drain.1 text') (h' : '\x00' ∉ text') :
    (ofText source text').drain.1.map Token.erase = (ofText source text).drain.1.map Token.erase ∧
    ∃ pos pos', (ofText source text).drain.2 = .ended pos ∧ (ofText source text').drain.2 = .ended pos' := by
  obtain ⟨tokens, hl⟩ := exists_lexing source [] text
  obtain ⟨pos, hd, -⟩ := drain_ofText h hl
  rw [hd] at hvalid hlaid ⊢
  have hagain : ∃ tokens', Lexing source [] text' tokens' ∧ tokens'.map Token.erase = tokens.map Token.erase := by
    cases hlaid with
    | gap hg => exact ⟨[], .last (.gap hg), rfl⟩
    | tokens hg hfrom => exact hfrom.lexing hl.readable hvalid hg []
  obtain ⟨tokens', hl', herase⟩ := hagain
  obtain ⟨pos', hd', -⟩ := drain_ofText h' hl'
  rw [hd']
  exact ⟨herase, pos, pos', rfl, rfl⟩

end MiniLisp
