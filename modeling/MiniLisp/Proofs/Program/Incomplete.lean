import MiniLisp.Proofs.Program.Phrase
import MiniLisp.Proofs.Program.Readable
import MiniLisp.Proofs.Token.Below
/-!
# Incomplete — texts that more text can repair

A text that a continuation on a new line completes is reported as unfinished, with three exceptions: an `if` without a
condition, and a `let` with fewer than two parts, are refused where the text ends inside of them although more could
follow (`parse_of_parse_stacked`).  Any other refusal is final, since a form that is `Hopeless` stays open and hopeless
whatever is read.
-/
namespace MiniLisp

/-! ## Forms that cannot be closed any more -/

namespace Form

/-- **A form that no further part can help**: it has too many of them, or a `let` with two has no name. -/
inductive Hopeless : Form → Prop
  | cond {start : Position} {head : Token} {parts : List Expr} : 3 < parts.length → Hopeless ⟨start, .cond head, parts⟩
  | parts {start : Position} {head : Token} {parts : List Expr} : 2 < parts.length →
      Hopeless ⟨start, .define head, parts⟩
  | target {start : Position} {head : Token} {target value : Expr} : (∀ name pos, target ≠ .ident name pos) →
      Hopeless ⟨start, .define head, [value, target]⟩

variable {f : Form}

theorem Hopeless.settle (h : f.Hopeless) : f.settle = f := by
  cases h <;> rfl

theorem Hopeless.add (h : f.Hopeless) (e : Expr) : (f.add e).Hopeless := by
  cases h with
  | cond h => exact .cond (Nat.lt_succ_of_lt h)
  | parts h => exact .parts (Nat.lt_succ_of_lt h)
  | target _ => exact .parts (Nat.lt_succ_self 2)

theorem closeDefine_of_length {start : Position} {head : Token} {es : List Expr} (h : 2 < es.length) :
    closeDefine start head es = .error (.parse (.letCount es.length) head) := by
  unfold closeDefine
  split
  · cases Nat.lt_irrefl 2 h
  · cases Nat.lt_irrefl 2 h
  · rfl

theorem Hopeless.close (h : f.Hopeless) (e : Expr) : f.close ≠ .ok e := by
  cases h with
  | @cond start head parts h =>
    show closeCond start head parts.reverse ≠ _
    rw [← List.length_reverse] at h
    match parts.reverse, h with
    | _ :: _ :: _ :: _ :: _, _ => exact nofun
  | @parts start head parts h =>
    show closeDefine start head parts.reverse ≠ _
    rw [closeDefine_of_length (by rwa [List.length_reverse])]
    exact nofun
  | @target start head target value h =>
    show closeDefine start head [target, value] ≠ _
    cases target with
    | ident name pos => exact absurd rfl (h name pos)
    | _ => exact nofun

/-- **What is said of a form that is open where the text ends.** -/
theorem unfinished_cases (f : Form) (pos : Position) :
    (∃ place, f.unfinished pos = .unexpectedEnd place pos) ∨
    (∃ head, f.unfinished pos = .parse .noCondition head) ∨
    (∃ head count, count < 2 ∧ f.unfinished pos = .parse (.letCount count) head) ∨ f.Hopeless := by
  obtain ⟨start, shape, parts⟩ := f
  cases shape with
  | cond head =>
    -- The parts are kept with the last one first.
    obtain ⟨es, rfl⟩ : ∃ es : List Expr, parts = es.reverse := ⟨parts.reverse, (List.reverse_reverse _).symm⟩
    unfold unfinished close
    simp only [List.reverse_reverse]
    match es with
    | [] => exact .inr (.inl ⟨head, rfl⟩)
    | [_] => exact .inl ⟨.inForm, rfl⟩
    | [_, _] => exact .inl ⟨.inForm, rfl⟩
    | [_, _, _] => exact .inl ⟨.inForm, rfl⟩
    | _ :: _ :: _ :: _ :: es => exact .inr (.inr (.inr (.cond (by simp))))
  | define head =>
    obtain ⟨es, rfl⟩ : ∃ es : List Expr, parts = es.reverse := ⟨parts.reverse, (List.reverse_reverse _).symm⟩
    unfold unfinished close
    simp only [List.reverse_reverse]
    match es with
    | [] => exact .inr (.inr (.inl ⟨head, 0, by decide, rfl⟩))
    | [e] =>
      have hone : closeDefine start head [e] = .error (.parse (.letCount 1) head) := by
        cases e <;> rfl
      rw [hone]
      exact .inr (.inr (.inl ⟨head, 1, by decide, rfl⟩))
    | [target, value] =>
      cases target with
      | ident name pos => exact .inl ⟨.inForm, rfl⟩
      | _ => exact .inr (.inr (.inr (.target nofun)))
    | _ :: _ :: _ :: es => exact .inr (.inr (.inr (.parts (by simp))))
  | _ => exact .inl ⟨_, rfl⟩

end Form

/-! ## Programs with such a form -/

namespace Program

variable {limit : Nat} {p p' : Program} {t : Token} {behind : Option Forbidden}

def Hopeless (p : Program) : Prop := ∃ f ∈ p.forms, f.Hopeless

theorem Hopeless.add (h : p.Hopeless) (e : Expr) : (p.add e).Hopeless := by
  obtain ⟨finished, forms⟩ := p
  obtain ⟨f, hf, hf'⟩ := h
  cases forms with
  | nil => cases hf
  | cons g fs =>
    rcases List.mem_cons.1 hf with rfl | hf
    · exact ⟨_, List.mem_cons_self, hf'.add e⟩
    · exact ⟨f, List.mem_cons_of_mem _ hf, hf'⟩

theorem Hopeless.openForm (h : p.Hopeless) (ho : p.openForm limit t = .ok p') : p'.Hopeless := by
  obtain ⟨finished, forms⟩ := p
  obtain ⟨f, hf, hf'⟩ := h
  unfold Program.openForm at ho
  split at ho
  · obtain rfl := Except.ok.inj ho
    cases forms with
    | nil => cases hf
    | cons g fs =>
      rcases List.mem_cons.1 hf with rfl | hf
      · refine ⟨f, ?_, hf'⟩
        show f ∈ Form.opened t.pos :: f.settle :: fs
        rw [hf'.settle]
        exact List.mem_cons_of_mem _ List.mem_cons_self
      · exact ⟨f, List.mem_cons_of_mem _ (List.mem_cons_of_mem _ hf), hf'⟩
  · cases ho

/-- A form that is closed was not hopeless, so a hopeless one stays. -/
theorem Hopeless.closeForm (h : p.Hopeless) (hc : p.closeForm t = .ok p') : p'.Hopeless := by
  obtain ⟨finished, forms⟩ := p
  obtain ⟨f, hf, hf'⟩ := h
  cases forms with
  | nil => cases hf
  | cons g fs =>
    unfold Program.closeForm at hc
    dsimp only at hc
    cases hclose : g.close with
    | error e =>
      rw [hclose] at hc
      cases hc
    | ok e =>
      rw [hclose] at hc
      obtain rfl := Except.ok.inj hc
      have hin : f ∈ fs := by
        rcases List.mem_cons.1 hf with rfl | hf
        · exact absurd hclose (hf'.close e)
        · exact hf
      have hrest : Hopeless ⟨finished, fs⟩ := ⟨f, hin, hf'⟩
      exact hrest.add e

theorem Hopeless.item (h : p.Hopeless) (hi : p.item limit behind t = .ok p') : p'.Hopeless := by
  by_cases hopen : t.kind = .openParen
  · unfold Program.item at hi
    rw [hopen] at hi
    exact h.openForm hi
  by_cases hclose : t.kind = .closeParen
  · unfold Program.item at hi
    rw [hclose] at hi
    exact h.closeForm hi
  obtain ⟨e, rfl, -⟩ := atom_of_item hi hopen hclose
  exact h.add e

/-- The innermost form of a program may change its shape, if it is not the hopeless one. -/
theorem Hopeless.replace {finished : List Expr} {f g : Form} {fs : List Form} (h : Hopeless ⟨finished, f :: fs⟩)
    (hf : ¬f.Hopeless) : Hopeless ⟨finished, g :: fs⟩ := by
  obtain ⟨f', hmem, hf'⟩ := h
  rcases List.mem_cons.1 hmem with rfl | hmem
  · exact absurd hf' hf
  · exact ⟨f', List.mem_cons_of_mem _ hmem, hf'⟩

theorem Hopeless.step (h : p.Hopeless) (hs : p.step limit behind t = .ok p') : p'.Hopeless := by
  obtain ⟨finished, forms⟩ := p
  cases forms with
  | nil => exact h.item hs
  | cons f fs =>
    obtain ⟨start, shape, parts⟩ := f
    cases shape with
    | fnHead =>
      unfold Program.step at hs
      dsimp only at hs
      split at hs
      · obtain rfl := Except.ok.inj hs
        exact h.replace nofun
      · cases hs
    | fnParams params =>
      unfold Program.step at hs
      dsimp only at hs
      cases hparam : param behind ⟨start, .fnParams params, parts⟩ params t with
      | error e =>
        rw [hparam] at hs
        cases hs
      | ok f' =>
        rw [hparam] at hs
        obtain rfl := Except.ok.inj hs
        exact h.replace nofun
    | undecided =>
      unfold Program.step at hs
      dsimp only at hs
      split at hs
      · obtain rfl := Except.ok.inj hs
        exact h.replace nofun
      · exact h.item hs
    | call | cond _ | define _ | fnBody _ => exact h.item hs

/-- **A hopeless form is never closed**, so the program is never finished. -/
theorem Hopeless.not_parsed (limit : Nat) (ending : Ending) (es : List Expr) : ∀ {ts : List Token} {p : Program},
    p.Hopeless → steps limit ending p ts ≠ .ok es
  | [], ⟨finished, forms⟩, h, hs => by
    obtain ⟨f, hf, -⟩ := h
    cases forms with
    | nil => cases hf
    | cons g fs => cases ending <;> cases hs
  | t :: ts, p, h, hs => by
    rw [steps] at hs
    cases hstep : p.step limit (if ts.isEmpty then ending.refusal? else none) t with
    | error e =>
      rw [hstep] at hs
      cases hs
    | ok p' =>
      rw [hstep] at hs
      exact Hopeless.not_parsed limit ending es (h.step hstep) hs

/-! ## Parsing -/

/-- **The tokens of a text are the first of those of a longer one that is parsed.** -/
theorem drain_of_parse_stacked {limit : Nat} {source s t : String} {es : List Expr}
    (h : parse limit source (s ++ "\n" ++ t) = .ok es) : ∃ ts us pos pos',
      (TokenReader.ofText source s.toList).drain = (ts, .ended pos) ∧
      (TokenReader.ofText source (s ++ "\n" ++ t).toList).drain = (ts ++ us, .ended pos') := by
  have hnul := nul_notMem_of_parse h
  obtain ⟨tokens, -, hvalid, pos', hdrain⟩ := lexing_of_parse h
  have hunique : ∀ tokens', Lexing source [] (s.toList ++ '\n' :: t.toList) tokens' → tokens' = tokens := by
    intro tokens' hl
    rw [← toList_stacked] at hl
    obtain ⟨pos'', hd, -⟩ := TokenReader.drain_ofText hnul hl
    rw [hdrain] at hd
    exact (Prod.mk.inj hd).1.symm
  obtain ⟨ts, hs⟩ := exists_lexing source [] s.toList
  obtain ⟨us, ht⟩ := exists_lexing source ([] ++ s.toList ++ ['\n']) t.toList
  rw [toList_stacked, List.mem_append, not_or] at hnul
  obtain ⟨pos, hd, -⟩ := TokenReader.drain_ofText hnul.1 hs
  -- An invalid token would stay the last one, and be in the way of the longer text too.
  by_cases hinvalid : ∃ t ∈ ts, t.kind = .invalid
  · obtain rfl := hunique ts (hs.stack_invalid hinvalid t.toList)
    obtain ⟨t, ht, hk⟩ := hinvalid
    exact absurd hk (hvalid t ht)
  · have hts : ∀ t ∈ ts, t.kind ≠ .invalid := fun t ht hk => hinvalid ⟨t, ht, hk⟩
    obtain rfl := hunique (ts ++ us) (hs.stack hts ht)
    exact ⟨ts, us, pos, pos', hd, hdrain⟩

/-- **A text that more text on a new line completes is parsed, or reported as unfinished**; but an `if` without a
condition, and a `let` with fewer than two parts, are refused as they are. -/
theorem parse_of_parse_stacked {limit : Nat} {source s t : String} {es : List Expr}
    (h : parse limit source (s ++ "\n" ++ t) = .ok es) :
    (∃ es, parse limit source s = .ok es) ∨
    (∃ place pos, parse limit source s = .error (.unexpectedEnd place pos)) ∨
    (∃ head, parse limit source s = .error (.parse .noCondition head)) ∨
    ∃ head count, count < 2 ∧ parse limit source s = .error (.parse (.letCount count) head) := by
  obtain ⟨ts, us, pos, pos', hs, hst⟩ := drain_of_parse_stacked h
  unfold parse at h
  rw [hst] at h
  obtain ⟨p, hfinish, hrest⟩ := steps_append h
  have hparse : parse limit source s = p.finish (.ended pos) := by
    unfold parse
    rw [hs]
    exact hfinish pos
  rw [hparse]
  obtain ⟨finished, forms⟩ := p
  cases forms with
  | nil => exact .inl ⟨_, rfl⟩
  | cons f fs =>
    have herror : finish ⟨finished, f :: fs⟩ (.ended pos) = .error (f.unfinished pos) := rfl
    rw [herror]
    rcases f.unfinished_cases pos with ⟨place, hf⟩ | ⟨head, hf⟩ | ⟨head, count, hcount, hf⟩ | hf
    · exact .inr (.inl ⟨place, pos, by rw [hf]⟩)
    · exact .inr (.inr (.inl ⟨head, by rw [hf]⟩))
    · exact .inr (.inr (.inr ⟨head, count, hcount, by rw [hf]⟩))
    · exact absurd hrest (Hopeless.not_parsed limit _ es ⟨f, List.mem_cons_self, hf⟩)

/-- A `let` that is cut off behind its name can be completed, and is refused all the same. -/
theorem parse_let_cut : parse 1 "a" ("(let x" ++ "\n" ++ "nil)") =
      .ok [.define "x" ⟨"a", 1, 6⟩ (.nil ⟨"a", 2, 1⟩) ⟨"a", 1, 1⟩] ∧
    ∃ head count, count < 2 ∧ parse 1 "a" "(let x" = .error (.parse (.letCount count) head) := by
  have hwhole : parse 1 "a" ("(let x" ++ "\n" ++ "nil)") =
      .ok [.define "x" ⟨"a", 1, 6⟩ (.nil ⟨"a", 2, 1⟩) ⟨"a", 1, 1⟩] := by
    have hdrain : (TokenReader.ofText "a" ("(let x" ++ "\n" ++ "nil)").toList).drain =
        ([⟨.openParen, "(", ⟨"a", 1, 1⟩⟩, ⟨.ident, "let", ⟨"a", 1, 2⟩⟩, ⟨.ident, "x", ⟨"a", 1, 6⟩⟩,
          ⟨.ident, "nil", ⟨"a", 2, 1⟩⟩, ⟨.closeParen, ")", ⟨"a", 2, 4⟩⟩], .ended ⟨"a", 2, 4⟩) := by decide +kernel
    rw [parse, hdrain]
    rfl
  have hcut : parse 1 "a" "(let x" = .error (.parse (.letCount 1) ⟨.ident, "let", ⟨"a", 1, 2⟩⟩) := by
    have hdrain : (TokenReader.ofText "a" "(let x".toList).drain = ([⟨.openParen, "(", ⟨"a", 1, 1⟩⟩,
        ⟨.ident, "let", ⟨"a", 1, 2⟩⟩, ⟨.ident, "x", ⟨"a", 1, 6⟩⟩], .ended ⟨"a", 1, 6⟩) := by decide +kernel
    rw [parse, hdrain]
    rfl
  refine ⟨hwhole, ?_⟩
  rcases parse_of_parse_stacked hwhole with ⟨es, h⟩ | ⟨place, pos, h⟩ | ⟨head, h⟩ | h
  · rw [hcut] at h
    cases h
  · rw [hcut] at h
    cases h
  · rw [hcut] at h
    cases h
  · exact h

end Program

end MiniLisp
