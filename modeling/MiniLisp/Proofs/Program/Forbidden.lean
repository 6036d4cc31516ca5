import MiniLisp.Proofs.Program.Failure
import MiniLisp.Proofs.Program.Readable
/-!
# Forbidden — sources with a NUL

A source is read up to its first NUL.  Its tokens are the first of those of the text in front of the NUL; then the NUL
is refused, unless the text has an invalid token before.  So a source with a NUL is never parsed.  Either the NUL is
reported, or the text in front of it has an error of its own, in a token that is read before (`Program.parse_nul`).
-/
namespace MiniLisp

/-! ## Reading -/

namespace Scanner

variable {text : List Char}

theorem cut_nul (h : '\x00' ∉ text) (rest : List Char) :
    permitted (text ++ '\x00' :: rest) = text ∧ firstForbidden (text ++ '\x00' :: rest) = some '\x00' := by
  have hnul : ∀ c ∈ ('\x00' :: rest).head?, (!isForbidden c) = false := by
    rintro _ ⟨⟩
    rfl
  obtain ⟨htake, hdrop⟩ := takeWhile_run (not_isForbidden h) hnul
  refine ⟨htake, ?_⟩
  rw [firstForbidden, hdrop]
  rfl

/-- **Nothing behind a NUL is ever looked at.** -/
theorem ofText_nul (h : '\x00' ∉ text) (source : String) (rest : List Char) :
    ofText source (text ++ '\x00' :: rest) = ⟨source, 1, 0, .front, text, some '\x00'⟩ := by
  show Scanner.mk source 1 0 .front (permitted _) (firstForbidden _) = _
  rw [(cut_nul h rest).1, (cut_nul h rest).2]

end Scanner

namespace TokenReader

variable {text : List Char}

theorem inFront_nul (h : '\x00' ∉ text) (source : String) (rest : List Char) :
    InFront source [] text (some '\x00') (ofText source (text ++ '\x00' :: rest)) := by
  have hr := inFront_ofText source (text ++ '\x00' :: rest)
  rwa [(Scanner.cut_nul h rest).1, (Scanner.cut_nul h rest).2] at hr

/-- **The tokens in front of a NUL** are the first of those of the text without it. -/
theorem drain_nul_tokens (h : '\x00' ∉ text) (source : String) (rest : List Char) :
    (ofText source (text ++ '\x00' :: rest)).drain.1 <+: (ofText source text).drain.1 := by
  obtain ⟨tokens, hl⟩ := exists_lexing source [] text
  obtain ⟨pos, hd, -⟩ := drain_ofText h hl
  rw [hd]
  exact drain_prefix_of_lexing hl (inFront_nul h source rest)

/-- **A NUL is refused where it stands**, unless there is an invalid token in front of it. -/
theorem drain_nul_end (h : '\x00' ∉ text) (source : String) (rest : List Char) :
    ((∃ pos, (ofText source (text ++ '\x00' :: rest)).drain.2 = .ended pos) ∧
      ∃ t ∈ (ofText source (text ++ '\x00' :: rest)).drain.1, t.kind = .invalid) ∨
    (ofText source (text ++ '\x00' :: rest)).drain.2 = .refused ⟨'\x00', .behind source text⟩ := by
  obtain ⟨tokens, hl⟩ := exists_lexing source [] text
  exact refused_of_obstacle hl (inFront_nul h source rest) rfl

end TokenReader

/-! ## Parsing -/

/-- A parse error, which names a token or says that forms nest too deeply.  It is no unexpected end. -/
def Error.IsParse (e : Error) : Prop := ∃ message token pos, e.diagnostic = .parse message token pos

theorem Error.OfToken.isParse {e : Error} (h : e.OfToken) : e.IsParse := by
  cases h with
  | parse problem token => exact ⟨_, _, _, rfl⟩
  | nestedTooDeeply source => exact ⟨_, _, _, rfl⟩

namespace Program

variable {limit : Nat} {source : String}

/-- **A pass over the first tokens of a text, with another ending.**  A token is refused, as in the whole text; or the
ending is a forbidden character, and reported; or all of the tokens are taken. -/
theorem steps_taken (ending : Ending) (us : List Token) : ∀ (ts : List Token) (p : Program),
    (∃ e, e.OfToken ∧ steps limit ending p ts = .error e ∧ ∀ pos, steps limit (.ended pos) p (ts ++ us) = .error e) ∨
    (∃ cause, ending = .refused cause ∧ steps limit ending p ts = .error (.forbidden cause)) ∨
    ((∃ pos, ending = .ended pos) ∧ ∀ t ∈ ts, t.kind ≠ .invalid)
  | [], p => by
    cases ending with
    | ended pos => exact .inr (.inr ⟨⟨pos, rfl⟩, nofun⟩)
    | refused cause => exact .inr (.inl ⟨cause, rfl, rfl⟩)
  | t :: ts, p => by
    have hlate := step_late limit (if ts.isEmpty then ending.refusal? else none) p t
    have hwhole : ∀ pos, steps limit (.ended pos) p (t :: ts ++ us) =
        p.step limit none t >>= fun p' => steps limit (.ended pos) p' (ts ++ us) := by
      intro pos
      rw [List.cons_append, steps]
      congr 1
      exact congrArg (p.step limit · t) (ite_self none)
    simp only [hwhole]
    rw [steps]
    generalize hstep : p.step limit (if ts.isEmpty then ending.refusal? else none) t = x at hlate
    generalize hstep' : p.step limit none t = y at hlate
    cases hlate with
    | ok p' =>
      rcases steps_taken ending us ts p' with hrest | hrest | ⟨hended, hvalid⟩
      · exact .inl hrest
      · exact .inr (.inl hrest)
      · exact .inr (.inr ⟨hended, List.forall_mem_cons.2 ⟨kind_ne_invalid_of_step hstep', hvalid⟩⟩)
    | error he => exact .inl ⟨_, he, rfl, fun _ => rfl⟩
    | @forbidden e cause he hcause =>
      refine .inr (.inl ⟨cause, ?_, rfl⟩)
      cases ending with
      | ended pos =>
        rw [Ending.refusal?, ite_self] at hcause
        cases hcause
      | refused cause' =>
        split at hcause
        · exact congrArg Ending.refused (Option.some.inj hcause)
        · cases hcause

theorem toList_nul (p q : String) : (p ++ "\x00" ++ q).toList = p.toList ++ '\x00' :: q.toList := by
  rw [String.toList_append, String.toList_append, List.append_assoc]
  rfl

/-- **The error of a source with a NUL**: the NUL, or an error of the text in front of it. -/
theorem parse_nul_error {p : String} (hp : '\x00' ∉ p.toList) (limit : Nat) (source q : String) :
    parse limit source (p ++ "\x00" ++ q) = .error (.forbidden ⟨'\x00', .behind source p.toList⟩) ∨
      ∃ e, e.IsParse ∧ parse limit source (p ++ "\x00" ++ q) = .error e ∧ parse limit source p = .error e := by
  obtain ⟨us, hus⟩ := TokenReader.drain_nul_tokens hp source q.toList
  obtain ⟨tokens, hl⟩ := exists_lexing source [] p.toList
  obtain ⟨pos, hdrain, -⟩ := TokenReader.drain_ofText hp hl
  have hend := TokenReader.drain_nul_end hp source q.toList
  unfold parse
  rw [toList_nul, hdrain]
  rw [hdrain] at hus
  generalize (TokenReader.ofText source (p.toList ++ '\x00' :: q.toList)).drain = drained at hus hend ⊢
  obtain ⟨ts, ending⟩ := drained
  dsimp only at hus hend ⊢
  rcases steps_taken ending us ts empty with ⟨e, he, hcut, hwhole⟩ | ⟨cause, rfl, hrefused⟩ | ⟨⟨pos', rfl⟩, hvalid⟩
  · exact .inr ⟨e, he.isParse, hcut, hus ▸ hwhole pos⟩
  · rcases hend with ⟨⟨pos', hended⟩, -⟩ | hnul
    · cases hended
    · obtain rfl := Ending.refused.inj hnul
      exact .inl hrefused
  · rcases hend with ⟨-, t, ht, hkind⟩ | hnul
    · exact absurd hkind (hvalid t ht)
    · cases hnul

/-- **A NUL is never missed, and hides what follows.**  Whatever stands behind the first NUL of a source makes no
difference.  The source is not parsed: the NUL is reported, where it stands; or the text in front of it is refused with
a parse error, and the source with the same one.  The tokens that are read are the first of those of the text in front
of the NUL, and then the NUL is refused, if there is no invalid token. -/
theorem parse_nul {p : String} (hp : '\x00' ∉ p.toList) (limit : Nat) (source q : String) :
    (∀ q', parse limit source (p ++ "\x00" ++ q') = parse limit source (p ++ "\x00" ++ q)) ∧
    (parse limit source (p ++ "\x00" ++ q) = .error (.forbidden ⟨'\x00', .behind source p.toList⟩) ∨
      ∃ e, e.IsParse ∧ parse limit source (p ++ "\x00" ++ q) = .error e ∧ parse limit source p = .error e) ∧
    (TokenReader.ofText source (p ++ "\x00" ++ q).toList).drain.1 <+:
      (TokenReader.ofText source p.toList).drain.1 ∧
    ((TokenReader.ofText source (p ++ "\x00" ++ q).toList).drain.2 = .refused ⟨'\x00', .behind source p.toList⟩ ∨
      ∃ t ∈ (TokenReader.ofText source (p ++ "\x00" ++ q).toList).drain.1, t.kind = .invalid) := by
  have herror := parse_nul_error hp limit source q
  refine ⟨fun q' => ?_, herror, ?_⟩
  · unfold parse TokenReader.ofText
    rw [toList_nul, toList_nul, Scanner.ofText_nul hp, Scanner.ofText_nul hp]
  · rw [toList_nul]
    exact ⟨TokenReader.drain_nul_tokens hp source q.toList,
      (TokenReader.drain_nul_end hp source q.toList).symm.imp_right And.right⟩

/-- A NUL inside of a string is reported, although the string is not even closed in front of it. -/
theorem parse_nul_string : '\x00' ∉ "(f \"a".toList ∧
    parse 1 "a" ("(f \"a" ++ "\x00" ++ "b\")") = .error (.forbidden ⟨'\x00', ⟨"a", 1, 6⟩⟩) := by
  have hp : '\x00' ∉ "(f \"a".toList := by decide
  have hempty : parse 1 "a" ("(f \"a" ++ "\x00" ++ "") = .error (.forbidden ⟨'\x00', ⟨"a", 1, 6⟩⟩) := by
    have hdrain : (TokenReader.ofText "a" ("(f \"a" ++ "\x00" ++ "").toList).drain =
        ([⟨.openParen, "(", ⟨"a", 1, 1⟩⟩, ⟨.ident, "f", ⟨"a", 1, 2⟩⟩], .refused ⟨'\x00', ⟨"a", 1, 6⟩⟩) := by
      decide +kernel
    rw [parse, hdrain]
    rfl
  exact ⟨hp, ((parse_nul hp 1 "a" "b\")").1 "").symm.trans hempty⟩

end Program

end MiniLisp
