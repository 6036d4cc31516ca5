import MiniLisp.Program.Parse
import MiniLisp.Proofs.Token.Lexing
/-!
# Readable — what a source that is parsed holds

No step takes an invalid token, and a program cannot be finished at a forbidden character.  So a source that is parsed
holds neither, and its tokens are those that its text is cut into (`Program.lexing_of_parse`).  Parsing goes through
the tokens of a text that is cut in two one part after the other (`Program.steps_append`).
-/
namespace MiniLisp

/-! ## Forbidden characters -/

namespace TokenReader

variable {source : String} {before rest : List Char} {tokens : List Token} {c : Char}

/-- Where only a last gap is left, the character behind it is met. -/
theorem refused_of_last {r : TokenReader} (h : InFront source before rest (some c) r) (hr : r.scanner.refusal? = none)
    (hl : LastGap rest) : r.drain.2 = .refused ⟨c, .behind source (before ++ rest)⟩ := by
  have hdone : r.done = false := by
    by_contra hd
    rw [(h.scanner_of_done (by simpa using hd)).2] at hr
    cases hr
  have hnext : ∃ r', r.next = (.error ⟨c, .behind source (before ++ rest)⟩, r') := by
    unfold next
    rw [hdone, h.atToken_last hl]
    exact ⟨_, rfl⟩
  obtain ⟨r', hnext⟩ := hnext
  rw [drain_error hnext]

/-- A forbidden character that has been met stood behind all that was in front of it. -/
theorem refusal_standing {cause : Forbidden} (h : (Scanner.standing source before rest (some c)).refusal? = some cause) :
    cause = ⟨c, .behind source (before ++ rest)⟩ := by
  cases rest with
  | nil =>
    obtain rfl := Option.some.inj h
    rw [List.append_nil]
  | cons d rest => cases h

/-- **A forbidden character is met**, unless the reading ends at an invalid token in front of it. -/
theorem refused_of_obstacle (hl : Lexing source before rest tokens) :
    ∀ {r : TokenReader}, InFront source before rest (some c) r → r.scanner.refusal? = none →
      ((∃ pos, r.drain.2 = .ended pos) ∧ ∃ t ∈ r.drain.1, t.kind = .invalid) ∨
        r.drain.2 = .refused ⟨c, .behind source (before ++ rest)⟩ := by
  induction hl with
  | last hg => exact fun h hr => .inr (refused_of_last h hr hg)
  | @invalid before gap text rest hg hs =>
    intro r h _
    rw [drain_starts h hg hs]
    split
    · rename_i hcause
      exact .inr (by rw [refusal_standing hcause, List.append_assoc, List.append_assoc])
    · rw [drain_halted rfl]
      exact .inl ⟨⟨_, rfl⟩, _, List.mem_cons_self, rfl⟩
  | @token before gap text rest kind tokens hg hs hk _ ih =>
    intro r h _
    rw [drain_starts h hg hs]
    split
    · rename_i hcause
      exact .inr (by rw [refusal_standing hcause, List.append_assoc, List.append_assoc])
    · rename_i hr
      rcases ih (inFront_past (r := r) hk) hr with ⟨hended, t, ht, hkind⟩ | hcause
      · exact .inl ⟨hended, t, List.mem_cons_of_mem _ ht, hkind⟩
      · exact .inr (by rw [hcause, List.append_assoc, List.append_assoc])

end TokenReader

theorem Scanner.firstForbidden_eq_some {text : List Char} (h : '\x00' ∈ text) :
    ∃ c, firstForbidden text = some c := by
  cases hf : firstForbidden text with
  | some c => exact ⟨c, rfl⟩
  | none =>
    unfold firstForbidden at hf
    rw [List.head?_eq_none_iff, List.dropWhile_eq_nil_iff] at hf
    have hnul := hf _ h
    cases hnul

/-- A source that is read to its end, without an invalid token, has no NUL. -/
theorem TokenReader.nul_notMem_of_drain {source : String} {text : List Char} {pos : Position}
    (hvalid : ∀ t ∈ (ofText source text).drain.1, t.kind ≠ .invalid) (hending : (ofText source text).drain.2 = .ended pos) :
    '\x00' ∉ text := by
  intro hnul
  obtain ⟨c, hc⟩ := Scanner.firstForbidden_eq_some hnul
  have hr := inFront_ofText source text
  rw [hc] at hr
  obtain ⟨tokens, hl⟩ := exists_lexing source [] (Scanner.permitted text)
  rcases refused_of_obstacle hl hr rfl with ⟨-, t, ht, hk⟩ | hcause
  · exact hvalid t ht hk
  · rw [hcause] at hending
    cases hending

/-! ## Steps -/

namespace Program

variable {limit : Nat} {p p' : Program} {t : Token} {behind : Option Forbidden}

theorem kind_ne_invalid_of_item (h : p.item limit behind t = .ok p') : t.kind ≠ .invalid := by
  intro hk
  unfold item at h
  rw [hk] at h
  cases h

/-- No step takes an invalid token. -/
theorem kind_ne_invalid_of_step (h : p.step limit behind t = .ok p') : t.kind ≠ .invalid := by
  unfold step at h
  split at h
  · exact kind_ne_invalid_of_item h
  · split at h
    case h_1 =>
      split at h
      · rename_i hk
        rw [hk]
        decide
      · cases h
    case h_2 =>
      intro hk
      unfold param at h
      rw [hk] at h
      unfold noticedLate Except.map at h
      cases h
    case h_3 =>
      split at h
      · rename_i shape hshape
        intro hk
        unfold Form.shapeOfWord? at hshape
        rw [hk, if_neg (by decide)] at hshape
        cases hshape
      · exact kind_ne_invalid_of_item h
    all_goals exact kind_ne_invalid_of_item h

theorem steps_ok {ending : Ending} {es : List Expr} : ∀ {ts : List Token} {p : Program},
    steps limit ending p ts = .ok es → (∀ t ∈ ts, t.kind ≠ .invalid) ∧ ∃ pos, ending = .ended pos
  | [], p, h => by
    refine ⟨nofun, ?_⟩
    cases ending with
    | refused cause => cases h
    | ended pos => exact ⟨pos, rfl⟩
  | t :: ts, p, h => by
    rw [steps] at h
    cases hstep : p.step limit (if ts.isEmpty then ending.refusal? else none) t with
    | error e =>
      rw [hstep] at h
      cases h
    | ok p' =>
      rw [hstep] at h
      obtain ⟨hvalid, hending⟩ := steps_ok h
      exact ⟨List.forall_mem_cons.2 ⟨kind_ne_invalid_of_step hstep, hvalid⟩, hending⟩

/-- **Parsing goes through one part after the other**: where the first part ends, it makes of the forms that are open
what it makes of them where a text ends. -/
theorem steps_append {pos : Position} {es : List Expr} {us : List Token} : ∀ {ts : List Token} {p : Program},
    steps limit (.ended pos) p (ts ++ us) = .ok es →
    ∃ p', (∀ pos', steps limit (.ended pos') p ts = p'.finish (.ended pos')) ∧
      steps limit (.ended pos) p' us = .ok es
  | [], p, h => ⟨p, fun _ => rfl, h⟩
  | t :: ts, p, h => by
    have hbehind : ∀ (ts : List Token) (pos : Position),
        (if ts.isEmpty then (Ending.ended pos).refusal? else none) = none :=
      fun ts pos => ite_self none
    rw [List.cons_append, steps, hbehind] at h
    cases hstep : p.step limit none t with
    | error e =>
      rw [hstep] at h
      cases h
    | ok p' =>
      rw [hstep] at h
      obtain ⟨p'', hfinish, hrest⟩ := steps_append h
      refine ⟨p'', fun pos' => ?_, hrest⟩
      rw [steps, hbehind, hstep]
      exact hfinish pos'

/-! ## Parsing -/

variable {source text : String} {es : List Expr}

theorem nul_notMem_of_parse (h : parse limit source text = .ok es) : '\x00' ∉ text.toList := by
  unfold parse at h
  obtain ⟨hvalid, pos, hending⟩ := steps_ok h
  exact TokenReader.nul_notMem_of_drain hvalid hending

/-- **A source that is parsed is cut into tokens**, none of them invalid. -/
theorem lexing_of_parse (h : parse limit source text = .ok es) : ∃ tokens, Lexing source [] text.toList tokens ∧
    (∀ t ∈ tokens, t.kind ≠ .invalid) ∧
      ∃ pos, (TokenReader.ofText source text.toList).drain = (tokens, .ended pos) := by
  obtain ⟨tokens, hl⟩ := exists_lexing source [] text.toList
  obtain ⟨pos, hd, -⟩ := TokenReader.drain_ofText (nul_notMem_of_parse h) hl
  unfold parse at h
  rw [hd] at h
  exact ⟨tokens, hl, (steps_ok h).1, pos, hd⟩

end Program

end MiniLisp
