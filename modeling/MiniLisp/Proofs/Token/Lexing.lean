import MiniLisp.Proofs.Source.Place
import MiniLisp.Proofs.Token.Gap
import MiniLisp.Token.Reader
/-!
# Lexing — a text as gaps and tokens

`Lexing` cuts a text into gaps and tokens without a scanner: each token is what the text starts with behind a gap, at
the position behind everything in front of it, and nothing is read behind an invalid one.  A reader that stands in
front of a text without a NUL drains exactly these tokens (`drain_of_lexing`), every text has them (`exists_lexing`),
and where a NUL ends the reading, the tokens that were read are the first of them (`drain_prefix_of_lexing`).
-/
namespace MiniLisp

open Lexeme (Starts)

/-- **The tokens of `rest`, which stands behind `before`.** -/
inductive Lexing (source : String) : List Char → List Char → List Token → Prop
  | last {before rest : List Char} : LastGap rest → Lexing source before rest []
  | invalid {before gap text rest : List Char} : Gap gap → Starts (text ++ rest) ⟨.invalid, text⟩ →
      Lexing source before (gap ++ (text ++ rest))
        [⟨.invalid, String.ofList text, .behind source (before ++ gap)⟩]
  | token {before gap text rest : List Char} {kind : Token.Kind} {tokens : List Token} : Gap gap →
      Starts (text ++ rest) ⟨kind, text⟩ → kind ≠ .invalid → Lexing source (before ++ gap ++ text) rest tokens →
      Lexing source before (gap ++ (text ++ rest))
        (⟨kind, String.ofList text, .behind source (before ++ gap)⟩ :: tokens)

/-- **Every text is lexed.** -/
theorem exists_lexing (source : String) : ∀ before rest : List Char, ∃ tokens, Lexing source before rest tokens := by
  intro before rest
  induction hn : rest.length using Nat.strong_induction_on generalizing before rest with
  | h n ih =>
    rcases exists_gap rest with h | ⟨gap, c, cs, rfl, hg, hc⟩
    · exact ⟨[], .last h⟩
    obtain ⟨kind, text, rest, he, hs⟩ := Lexeme.exists_starts cs hc
    rw [he]
    by_cases hk : kind = .invalid
    · subst hk
      exact ⟨_, .invalid hg hs⟩
    -- A token takes something away, so less is left behind it.
    · have hlt : rest.length < n := by
        have hne : text ≠ [] := hs.text.1
        have hpos : 0 < text.length := List.length_pos_iff.2 hne
        rw [← hn, he]
        simp
        omega
      obtain ⟨tokens, ht⟩ := ih _ hlt (before ++ gap ++ text) rest rfl
      exact ⟨_, .token hg hs hk ht⟩

/-! ## What the tokens of a text are -/

variable {source : String} {before rest : List Char} {tokens : List Token}

/-- Each token is the start of some end of the text. -/
theorem Lexing.starts (h : Lexing source before rest tokens) :
    ∀ t ∈ tokens, ∃ text rest', t.text = String.ofList text ∧ Starts (text ++ rest') ⟨t.kind, text⟩ ∧
      text ++ rest' <:+ rest := by
  induction h with
  | last _ => simp
  | invalid _ hs =>
    intro t ht
    obtain rfl := List.mem_singleton.1 ht
    exact ⟨_, _, rfl, hs, List.suffix_append _ _⟩
  | token _ hs _ _ ih =>
    intro t ht
    rcases List.mem_cons.1 ht with rfl | ht
    · exact ⟨_, _, rfl, hs, List.suffix_append _ _⟩
    · obtain ⟨text, rest', he, hs', hsuf⟩ := ih t ht
      refine ⟨text, rest', he, hs', hsuf.trans ?_⟩
      rw [← List.append_assoc]
      exact List.suffix_append _ _

/-- Blanks and comments in front of a text add to its first gap. -/
theorem Lexing.prepend {gap : List Char} (hg : Gap gap) (h : Lexing source (before ++ gap) rest tokens) :
    Lexing source before (gap ++ rest) tokens := by
  cases h with
  | last h => exact .last (h.prepend hg)
  | @invalid _ gap' text rest hg' hs =>
    have : Lexing source before (gap ++ gap' ++ (text ++ rest)) _ := .invalid (hg.append hg') hs
    simpa using this
  | @token _ gap' text rest kind tokens hg' hs hk ht =>
    rw [List.append_assoc before] at ht
    have : Lexing source before (gap ++ gap' ++ (text ++ rest)) _ := .token (hg.append hg') hs hk ht
    simpa using this

/-! ## The reader -/

namespace TokenReader

/-- **A reader that has `rest` in front of it**, behind `before`. -/
structure InFront (source : String) (before rest : List Char) (obstacle : Option Char) (r : TokenReader) : Prop where
  not_halted : r.halted = false
  scanner : r.scanner.begin = .standing source before rest obstacle

theorem inFront_ofText (source : String) (text : List Char) :
    InFront source [] (Scanner.permitted text) (Scanner.firstForbidden text) (ofText source text) :=
  ⟨rfl, Scanner.begin_ofText source text⟩

variable {obstacle : Option Char} {r : TokenReader} {gap : List Char}

theorem InFront.done (h : InFront source before rest obstacle r) (hrest : rest ≠ []) : r.done = false := by
  have hb : r.scanner.begin.done = false := by simp [h.scanner, Scanner.done_standing, hrest]
  have hs : r.scanner.done = false := by
    unfold Scanner.begin at hb
    split at hb
    · exact hb
    · rename_i hns
      cases hp : r.scanner.place <;> simp_all [Scanner.started, Scanner.done]
  simp [TokenReader.done, h.not_halted, hs]

theorem InFront.atToken (h : InFront source before (gap ++ rest) obstacle r)
    (hsize : gapSize (gap ++ rest) = gap.length) : r.atToken = .standing source (before ++ gap) rest obstacle := by
  rw [TokenReader.atToken, h.scanner, Scanner.pending_standing, hsize, Scanner.advanceBy_standing]

theorem InFront.atToken_last (h : InFront source before rest obstacle r) (hl : LastGap rest) :
    r.atToken = .standing source (before ++ rest) [] obstacle := by
  have h' : InFront source before (rest ++ []) obstacle r := by simpa using h
  exact h'.atToken (by simpa using gapSize_last hl)

def past (r : TokenReader) (kind : Token.Kind) (scanner : Scanner) : TokenReader :=
  { r with scanner := scanner, halted := kind == .invalid }

/-- **One read of a token**: it fails if a forbidden character stands right behind the token. -/
theorem next_starts {text : List Char} {kind : Token.Kind}
    (h : InFront source before (gap ++ (text ++ rest)) obstacle r) (hg : Gap gap) (hs : Starts (text ++ rest) ⟨kind, text⟩) :
    r.next = match (Scanner.standing source (before ++ gap ++ text) rest obstacle).refusal? with
      | some cause => (.error cause, { r with scanner := .standing source (before ++ gap ++ text) rest obstacle })
      | none => (.ok (some ⟨kind, String.ofList text, .behind source (before ++ gap)⟩),
          r.past kind (.standing source (before ++ gap ++ text) rest obstacle)) := by
  obtain ⟨c, cs, hcs, hc⟩ := hs.exists_cons
  have hsize : gapSize (gap ++ (text ++ rest)) = gap.length := by
    rw [gapSize_append hg, gapSize_start (by simpa [hcs] using hc), Nat.add_zero]
  have hstart : r.atToken = .standing source (before ++ gap) (c :: cs) obstacle := by rw [h.atToken hsize, hcs]
  have hread : Lexeme.read c cs = ⟨kind, text⟩ := (Lexeme.eq_read_of_starts (hcs ▸ hs)).symm
  have hafter : (Scanner.standing source (before ++ gap) (c :: cs) obstacle).advanceBy text.length =
      .standing source (before ++ gap ++ text) rest obstacle := by rw [← hcs, Scanner.advanceBy_standing]
  have hdone : r.done = false := h.done (by simp [hcs])
  have hcur : (Scanner.standing source (before ++ gap) (c :: cs) obstacle).current = some c := rfl
  have hrest : (Scanner.standing source (before ++ gap) (c :: cs) obstacle).rest = cs := rfl
  generalize Scanner.standing source (before ++ gap ++ text) rest obstacle = after at hafter ⊢
  cases href : after.refusal? <;>
    simp [next, past, hdone, hstart, hcur, hrest, hread, hafter, href, Scanner.pos_standing_cons]

theorem InFront.scanner_of_done (h : InFront source before rest obstacle r) (hd : r.done = true) :
    rest = [] ∧ r.scanner = .standing source before [] obstacle := by
  have hrest : rest = [] := by
    by_contra hne
    rw [h.done hne] at hd
    cases hd
  have hs : r.scanner.done = true := by simpa [TokenReader.done, h.not_halted] using hd
  have hb : r.scanner.begin = r.scanner := by
    cases hp : r.scanner.place <;> simp_all [Scanner.begin, Scanner.started, Scanner.done]
  exact ⟨hrest, by rw [← hb, h.scanner, hrest]⟩

/-- Where only a last gap is left, the reader halts behind it. -/
theorem next_last (h : InFront source before rest none r) (hl : LastGap rest) :
    ∃ r', r.next = (.ok none, r') ∧ r'.pos = .last source (before ++ rest) := by
  by_cases hd : r.done = true
  · obtain ⟨rfl, hs⟩ := h.scanner_of_done hd
    exact ⟨{ r with halted := true }, by simp [next, hd], by simp [pos, hs]⟩
  · have hcur : (Scanner.standing source (before ++ rest) [] none).current = none := rfl
    have href : (Scanner.standing source (before ++ rest) [] none).refusal? = none := rfl
    refine ⟨{ r with scanner := .standing source (before ++ rest) [] none, halted := true }, ?_, ?_⟩
    · simp [next, hd, h.atToken_last hl, hcur, href]
    · exact Scanner.pos_standing_end source (before ++ rest)

/-- Where only a last gap is left, no token is delivered, whatever stands behind it. -/
theorem next_last_ne_token (h : InFront source before rest obstacle r) (hl : LastGap rest) (t : Token) :
    (r.next).1 ≠ .ok (some t) := by
  by_cases hd : r.done = true
  · simp [next, hd]
  · have hcur : (Scanner.standing source (before ++ rest) [] obstacle).current = none := by cases obstacle <;> rfl
    simp only [next, hd, h.atToken_last hl, hcur, Bool.false_eq_true, if_false]
    split <;> simp

/-! ## Draining -/

theorem drain_some {r r' : TokenReader} {t : Token} (h : r.next = (.ok (some t), r')) :
    r.drain = (t :: r'.drain.1, r'.drain.2) := by
  rw [drain]
  split <;> rename_i h' <;> rw [h] at h' <;> cases h'
  rfl

theorem drain_none {r r' : TokenReader} (h : r.next = (.ok none, r')) : r.drain = ([], .ended r'.pos) := by
  rw [drain]
  split <;> rename_i h' <;> rw [h] at h' <;> cases h'
  rfl

theorem drain_error {r r' : TokenReader} {cause : Forbidden} (h : r.next = (.error cause, r')) :
    r.drain = ([], .refused cause) := by
  rw [drain]
  split <;> rename_i h' <;> rw [h] at h' <;> cases h'
  rfl

theorem drain_halted {r : TokenReader} (h : r.halted = true) : r.drain = ([], .ended r.pos) := by
  have hn : r.next = (.ok none, { r with halted := true }) := by simp [next, TokenReader.done, h]
  rw [drain_none hn]
  rfl

theorem drain_last (h : InFront source before rest obstacle r) (hl : LastGap rest) : r.drain.1 = [] := by
  cases hn : r.next with
  | mk answer r' =>
    match answer with
    | .error cause => rw [drain_error hn]
    | .ok none => rw [drain_none hn]
    | .ok (some t) =>
      have hne := next_last_ne_token h hl t
      rw [hn] at hne
      exact absurd rfl hne

theorem inFront_past {kind : Token.Kind} (h : kind ≠ .invalid) :
    InFront source before rest obstacle (r.past kind (.standing source before rest obstacle)) :=
  ⟨by simpa [past] using h, Scanner.begin_standing ..⟩

/-- A token is drained, and then what the reader behind it drains, if no forbidden character stands there. -/
theorem drain_starts {text : List Char} {kind : Token.Kind} (h : InFront source before (gap ++ (text ++ rest)) obstacle r)
    (hg : Gap gap) (hs : Starts (text ++ rest) ⟨kind, text⟩) :
    r.drain = match (Scanner.standing source (before ++ gap ++ text) rest obstacle).refusal? with
      | some cause => ([], .refused cause)
      | none => (⟨kind, String.ofList text, .behind source (before ++ gap)⟩ ::
            (r.past kind (.standing source (before ++ gap ++ text) rest obstacle)).drain.1,
          (r.past kind (.standing source (before ++ gap ++ text) rest obstacle)).drain.2) := by
  have hn := next_starts h hg hs
  cases href : (Scanner.standing source (before ++ gap ++ text) rest obstacle).refusal? with
  | some cause =>
    rw [href] at hn
    exact drain_error hn
  | none =>
    rw [href] at hn
    exact drain_some hn

/-- **A reader in front of a text without a NUL drains the tokens of the text**, and unless one of them is invalid it
ends at the last character. -/
theorem drain_of_lexing (hl : Lexing source before rest tokens) :
    ∀ {r : TokenReader}, InFront source before rest none r → ∃ pos, r.drain = (tokens, .ended pos) ∧
      ((∀ t ∈ tokens, t.kind ≠ .invalid) → pos = .last source (before ++ rest)) := by
  induction hl with
  | last hg =>
    intro r hr
    obtain ⟨r', hn, hp⟩ := next_last hr hg
    exact ⟨r'.pos, drain_none hn, fun _ => hp⟩
  | @invalid before gap text rest hg hs =>
    intro r hr
    refine ⟨(Scanner.standing source (before ++ gap ++ text) rest none).pos, ?_,
      fun h => (h _ (List.mem_singleton.2 rfl) rfl).elim⟩
    rw [drain_starts hr hg hs, Scanner.refusal?_standing_none, drain_halted rfl]
    rfl
  | @token before gap text rest kind tokens hg hs hk _ ih =>
    intro r hr
    obtain ⟨pos, hd, hp⟩ := ih (inFront_past (r := r) hk)
    refine ⟨pos, ?_, fun h => ?_⟩
    · rw [drain_starts hr hg hs, Scanner.refusal?_standing_none, hd]
    · rw [hp fun t ht => h t (List.mem_cons_of_mem _ ht)]
      simp

/-- **Whatever stands behind a text, the tokens that are read are the first of its tokens.** -/
theorem drain_prefix_of_lexing (hl : Lexing source before rest tokens) :
    ∀ {r : TokenReader}, InFront source before rest obstacle r → r.drain.1 <+: tokens := by
  induction hl with
  | last hg =>
    intro r hr
    exact List.prefix_nil.2 (drain_last hr hg)
  | @invalid before gap text rest hg hs =>
    intro r hr
    rw [drain_starts hr hg hs, drain_halted rfl]
    split
    · exact List.nil_prefix
    · exact List.prefix_rfl
  | @token before gap text rest kind tokens hg hs hk _ ih =>
    intro r hr
    rw [drain_starts hr hg hs]
    split
    · exact List.nil_prefix
    · exact (List.prefix_cons_inj _).2 (ih (inFront_past hk))

/-! ## The tokens of a source -/

/-- A source without a NUL is drained of the tokens that its text is cut into. -/
theorem drain_ofText {text : List Char} (h : '\x00' ∉ text) (hl : Lexing source [] text tokens) :
    ∃ pos, (ofText source text).drain = (tokens, .ended pos) ∧
      ((∀ t ∈ tokens, t.kind ≠ .invalid) → pos = .last source text) := by
  have hr := inFront_ofText source text
  rw [Scanner.permitted_eq_self h, Scanner.firstForbidden_eq_none h] at hr
  simpa using drain_of_lexing hl hr

/-- Every token that is delivered is the start of some end of the text in front of the first NUL. -/
theorem starts_of_mem_drain {text : List Char} {t : Token} (h : t ∈ (ofText source text).drain.1) :
    ∃ cs rest, t.text = String.ofList cs ∧ Starts (cs ++ rest) ⟨t.kind, cs⟩ ∧
      cs ++ rest <:+ Scanner.permitted text := by
  obtain ⟨tokens, hl⟩ := exists_lexing source [] (Scanner.permitted text)
  exact hl.starts t ((drain_prefix_of_lexing hl (inFront_ofText source text)).mem h)

/-- **A source without a NUL is read to its end, and its tokens are those that its text is cut into, and no
others.** -/
theorem drain_eq_iff_lexing (source : String) (text : List Char) (h : '\x00' ∉ text) :
    (∃ pos, (ofText source text).drain.2 = .ended pos) ∧
    (∀ tokens, (ofText source text).drain.1 = tokens ↔ Lexing source [] text tokens) ∧
    ∀ t ∈ (ofText source text).drain.1, t.text ≠ "" := by
  obtain ⟨tokens, hl⟩ := exists_lexing source [] text
  obtain ⟨pos, hd, -⟩ := drain_ofText h hl
  refine ⟨⟨pos, by rw [hd]⟩, fun tokens' => ⟨?_, fun hl' => ?_⟩, fun t ht => ?_⟩
  · rintro rfl
    rw [hd]
    exact hl
  · obtain ⟨pos', hd', -⟩ := drain_ofText h hl'
    rw [hd']
  · obtain ⟨cs, rest, he, hs, -⟩ := starts_of_mem_drain ht
    rw [he]
    intro hempty
    exact hs.text.1 (String.ofList_eq_empty_iff.1 hempty)

/-- A comment in a gap, a token in the next row, and nothing behind an invalid one. -/
theorem lexing_invalid_number :
    '\x00' ∉ ['f', ' ', ';', '(', '\n', '-', '1', '2', '.', 'x', ')'] ∧
    Lexing "a" [] ['f', ' ', ';', '(', '\n', '-', '1', '2', '.', 'x', ')']
      [⟨.ident, "f", ⟨"a", 1, 1⟩⟩, ⟨.invalid, "-12.", ⟨"a", 2, 1⟩⟩] :=
  have h : '\x00' ∉ ['f', ' ', ';', '(', '\n', '-', '1', '2', '.', 'x', ')'] := by decide
  ⟨h, ((drain_eq_iff_lexing "a" ['f', ' ', ';', '(', '\n', '-', '1', '2', '.', 'x', ')'] h).2.1 _).1
    (by decide +kernel)⟩

end TokenReader

end MiniLisp
