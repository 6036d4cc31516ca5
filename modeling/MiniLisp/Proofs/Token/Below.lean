import MiniLisp.Proofs.Token.Lexing
/-!
# Below — a text under another one

A line feed ends every token, so a text followed by a line feed keeps its tokens (`Lexing.stack`), and a text that is
put below another one keeps its own, lower by as many rows as are above it (`Lexing.lower`).  Behind an invalid token
nothing is read, so what stands below one plays no part (`Lexing.stack_invalid`).
-/
namespace MiniLisp

/-- Characters are taken no further than to one that stops it. -/
theorem takeWhile_append_stop {p : Char → Bool} {c : Char} (hc : p c = false) (cs : List Char) :
    ∀ w : List Char, (w ++ c :: cs).takeWhile p = w.takeWhile p
  | [] => by rw [List.nil_append, List.takeWhile_cons, hc, List.takeWhile_nil]; rfl
  | d :: w => by rw [List.cons_append, List.takeWhile_cons, List.takeWhile_cons, takeWhile_append_stop hc cs w]

theorem toList_stacked (s t : String) : (s ++ "\n" ++ t).toList = s.toList ++ '\n' :: t.toList := by
  simp

/-! ## Lower positions -/

namespace Position

/-- A position `n` rows further down. -/
def lower (n : Nat) (p : Position) : Position := { p with row := p.row + n }

/-- **Below a text and a line feed a position is lower by the rows of the text**, in the same column. -/
theorem behind_below (source : String) (above before : List Char) :
    behind source (above ++ '\n' :: before) = (behind source before).lower (1 + above.count '\n') := by
  have hrow : (above ++ '\n' :: before).count '\n' = before.count '\n' + (1 + above.count '\n') := by
    rw [List.count_append, List.count_cons_self]
    omega
  have hcol : (above ++ '\n' :: before).reverse.takeWhile (fun c => c ≠ '\n') =
      before.reverse.takeWhile (fun c => c ≠ '\n') := by
    rw [List.reverse_append, List.reverse_cons, List.append_assoc, List.singleton_append]
    exact takeWhile_append_stop (by simp) above.reverse before.reverse
  unfold behind lower
  rw [hrow, hcol, Nat.add_assoc]

end Position

/-- A token somewhere else. -/
def Token.mapPos (f : Position → Position) (t : Token) : Token := { t with pos := f t.pos }

/-! ## A line feed behind a token -/

theorem isBoundary_lineFeed : isBoundary '\n' = true := by decide

theorem isBlank_lineFeed : Text.isBlank '\n' = true := by decide

theorem run_stack (cs below : List Char) : run (cs ++ '\n' :: below) = run cs :=
  takeWhile_append_stop (by rw [isBoundary_lineFeed]; rfl) below cs

theorem AtBoundary.stack {cs : List Char} (h : AtBoundary cs) (below : List Char) :
    AtBoundary (cs ++ '\n' :: below) := by
  cases cs with
  | nil => exact atBoundary_cons.2 isBoundary_lineFeed
  | cons c cs => exact atBoundary_cons.2 (atBoundary_cons.1 h)

/-- **A text starts with the same token when a line feed and more follow it.** -/
theorem Lexeme.Starts.stack {cs : List Char} {l : Lexeme} (h : Starts cs l) (below : List Char) :
    Starts (cs ++ '\n' :: below) l := by
  cases h with
  | openParen cs => exact .openParen _
  | closeParen cs => exact .closeParen _
  | @string body rest hq hn hb =>
    rw [List.cons_append, List.append_assoc, List.cons_append]
    exact .string hq hn (hb.stack below)
  | gluedString rest hq hn hc =>
    rw [List.cons_append, List.append_assoc, List.cons_append, List.cons_append]
    exact .gluedString _ hq hn hc
  | @openString body rest hq hn hr =>
    rw [List.cons_append, List.append_assoc]
    refine .openString hq hn ?_
    cases rest with
    | nil => exact fun c hc => (Option.some.inj hc).symm
    | cons c rest => exact hr
  | @word kind cs hw =>
    rw [← run_stack cs below] at hw ⊢
    exact .word hw
  | @noWord c d cs w hp hw hlongest hd =>
    rw [← run_stack (c :: cs) below] at hw hlongest hd
    exact .noWord hp hw hlongest hd

theorem LastGap.stack {gap : List Char} (h : LastGap gap) : Gap (gap ++ ['\n']) := by
  have hfeed : Gap ['\n'] := .blank isBlank_lineFeed .nil
  cases h with
  | gap h => exact h.append hfeed
  | comment h hb =>
    rw [List.append_assoc]
    exact h.append (.comment hb .nil)

/-! ## Lexing -/

variable {source : String} {before rest below : List Char} {tokens : List Token}

/-- **What stands below a text is lexed by itself**, if nothing in the text is invalid. -/
theorem Lexing.stack {tokens' : List Token} (h : Lexing source before rest tokens)
    (hvalid : ∀ t ∈ tokens, t.kind ≠ .invalid) (hbelow : Lexing source (before ++ rest ++ ['\n']) below tokens') :
    Lexing source before (rest ++ '\n' :: below) (tokens ++ tokens') := by
  induction h with
  | @last before rest hlast =>
    rw [List.append_assoc] at hbelow
    have hall : Lexing source before (rest ++ ['\n'] ++ below) tokens' := hbelow.prepend hlast.stack
    rwa [List.append_assoc] at hall
  | invalid _ _ => exact absurd rfl (hvalid _ List.mem_cons_self)
  | @token before gap text rest kind tokens hg hs hk _ ih =>
    have hrest := ih (fun t ht => hvalid t (List.mem_cons_of_mem _ ht)) (by simpa using hbelow)
    have hstarts := hs.stack below
    rw [List.append_assoc] at hstarts
    rw [List.append_assoc, List.append_assoc]
    exact .token hg hstarts hk hrest

/-- **Nothing below an invalid token is read.** -/
theorem Lexing.stack_invalid (h : Lexing source before rest tokens) (hinvalid : ∃ t ∈ tokens, t.kind = .invalid)
    (below : List Char) : Lexing source before (rest ++ '\n' :: below) tokens := by
  induction h with
  | last _ =>
    obtain ⟨t, ht, -⟩ := hinvalid
    cases ht
  | @invalid before gap text rest hg hs =>
    have hstarts := hs.stack below
    rw [List.append_assoc] at hstarts
    rw [List.append_assoc, List.append_assoc]
    exact .invalid hg hstarts
  | @token before gap text rest kind tokens hg hs hk _ ih =>
    obtain ⟨t, ht, hkind⟩ := hinvalid
    have htail : ∃ t ∈ tokens, t.kind = .invalid := by
      rcases List.mem_cons.1 ht with rfl | ht
      · exact absurd hkind hk
      · exact ⟨t, ht, hkind⟩
    have hstarts := hs.stack below
    rw [List.append_assoc] at hstarts
    rw [List.append_assoc, List.append_assoc]
    exact .token hg hstarts hk (ih htail)

/-- **A text keeps its tokens when it is put below another one**, in lower rows. -/
theorem Lexing.lower (h : Lexing source before rest tokens) (above : List Char) :
    Lexing source (above ++ '\n' :: before) rest
      (tokens.map (Token.mapPos (Position.lower (1 + above.count '\n')))) := by
  induction h with
  | last hlast => exact .last hlast
  | @invalid before gap text rest hg hs =>
    rw [List.map_singleton, Token.mapPos, ← Position.behind_below]
    have hbelow : Lexing source (above ++ '\n' :: before) (gap ++ (text ++ rest)) _ := .invalid hg hs
    rwa [List.append_assoc, List.cons_append] at hbelow
  | @token before gap text rest kind tokens hg hs hk _ ih =>
    rw [List.map_cons, Token.mapPos, ← Position.behind_below]
    have hbelow : Lexing source (above ++ '\n' :: before) (gap ++ (text ++ rest)) _ :=
      .token hg hs hk (by simpa using ih)
    rwa [List.append_assoc, List.cons_append] at hbelow

end MiniLisp
