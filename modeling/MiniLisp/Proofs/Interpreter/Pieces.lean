import MiniLisp.Proofs.Eval.Correspondence
import MiniLisp.Proofs.Interpreter.Sequence
import MiniLisp.Proofs.Program.Lower
/-!
# Pieces — a program that is fed in two parts

Two programs that are run one after the other do what they do as one text, the second below the first: the expressions
are the same in the same order, and only the positions in the second part are different.  They surface in errors and
inside closures, and nowhere else.
-/
namespace MiniLisp

/-! ## Machines in which some code is lower -/

/-- **Nothing but positions is different**: code either stands where it stood, or `n` rows lower. -/
def Correspondence.lowered (n : Nat) : Correspondence Bool where
  frame := id
  mark := id
  place := fun
    | false => Eq
    | true => fun p q => q = p.lower n
  before := #[]
  before' := #[]
  injective := Function.injective_id

namespace Correspondence

variable {n : Nat}

/-- **Every machine corresponds to itself.** -/
theorem machines_lowered (m : Machine) : (lowered n).Machines m m := machines_moved false (fun _ => rfl) m

/-- Lower code is related to what it was. -/
theorem like_lower (es : List Expr) :
    List.Forall₂ (Expr.Like ((lowered n).place true)) es (Expr.mapPosAll (Position.lower n) es) :=
  Expr.like_mapPosAll (P := (lowered n).place true) (fun _ => rfl) es

end Correspondence

/-! ## Runs of an interpreter -/

/-- **Steps of an interpreter that end alike**, in machines that correspond. -/
inductive Correspondence.SessionEnds {ι α β : Type} (k : Correspondence ι) (Q : α → β → Prop) :
    EStateM.Result Error Machine α → EStateM.Result Error Machine β → Prop
  | ok {a : α} {b : β} {m n : Machine} : k.Machines m n → Q a b → SessionEnds k Q (.ok a m) (.ok b n)
  | error {e e' : Error} {m n : Machine} : k.Machines m n → k.Errors e e' → SessionEnds k Q (.error e m) (.error e' n)

namespace Interpreter

variable {ι : Type} {k : Correspondence ι} {i i' : Interpreter} {m n : Machine}

/-- Interpreters whose script frames correspond evaluate an expression alike. -/
theorem evalExpr_corresponds [Nonempty ι] {j : ι} {e e' : Expr} (hi : k.frame i.frame = i'.frame)
    (hlimit : i.limit = i'.limit) (hmn : k.Machines m n) (he : Expr.Like (k.place j) e e') :
    k.SessionEnds k.Values (i.evalExpr e m) (i'.evalExpr e' n) := by
  have hends := Correspondence.eval hmn he (maxDepth i.limit) i.frame
  rw [hi] at hends
  unfold evalExpr
  rw [← hlimit]
  generalize eval (maxDepth i.limit) i.frame e m = r at hends
  generalize eval (maxDepth i.limit) i'.frame e' n = r' at hends
  cases hends with
  | ok hmn hvw => exact .ok hmn hvw
  | failed hmn he => exact .error hmn he
  | exhausted hmn => exact .error hmn ⟨j, .recursionTooDeep he.pos⟩

/-- **Programs that are the same but for their positions end alike**, in interpreters whose script frames
correspond. -/
theorem evalExprs_corresponds [Nonempty ι] {j : ι} (hi : k.frame i.frame = i'.frame) (hlimit : i.limit = i'.limit) :
    ∀ {es es' : List Expr} {m n : Machine}, k.Machines m n → List.Forall₂ (Expr.Like (k.place j)) es es' →
    k.SessionEnds (List.Forall₂ k.Values) (i.evalExprs es m) (i'.evalExprs es' n)
  | [], _, _, _, hmn, .nil => .ok hmn .nil
  | e :: es, e' :: es', m, n, hmn, .cons he hes => by
    rw [evalExprs_cons, evalExprs_cons]
    have hone := evalExpr_corresponds hi hlimit hmn he
    generalize i.evalExpr e m = r at hone
    generalize i'.evalExpr e' n = r' at hone
    cases hone with
    | error hmn he => exact .error hmn he
    | @ok v w m' n' hmn hvw =>
      have hrest := evalExprs_corresponds hi hlimit hmn hes
      dsimp only
      generalize i.evalExprs es m' = r at hrest
      generalize i'.evalExprs es' n' = r' at hrest
      cases hrest with
      | error hmn he => exact .error hmn he
      | ok hmn hvws => exact .ok hmn (.cons hvw hvws)

theorem evalExprs_ends [Nonempty ι] {j : ι} (hi : k.frame i.frame = i.frame) {es es' : List Expr} {m n : Machine}
    (hmn : k.Machines m n) (hes : List.Forall₂ (Expr.Like (k.place j)) es es') :
    k.SessionEnds (List.Forall₂ k.Values) (i.evalExprs es m) (i.evalExprs es' n) :=
  evalExprs_corresponds hi rfl hmn hes

/-! ## Two parts -/

/-- **Feeding a program in pieces equals feeding it whole.**  If two programs are parsed, the second is parsed below the
first to the same expressions, in lower rows; and evaluating the whole fails where the first fails, with the same
error and in the same machine, or gives the values of the first, and then ends as the second does: with values that
are the same but for the rows in closures that the second made, or with the same error but for its row, in a machine
that has printed the same, and whose frames are the same but for such closures. -/
theorem evalAll_stacked {i : Interpreter} {source s t : String} {es es' : List Expr} (hs : i.parse source s = .ok es)
    (ht : i.parse source t = .ok es') :
    i.parse source (s ++ "\n" ++ t) = .ok (es ++ Expr.mapPosAll (Position.lower (1 + s.toList.count '\n')) es') ∧
    (∀ m e m', i.evalAll source s m = .error e m' → i.evalAll source (s ++ "\n" ++ t) m = .error e m') ∧
    ∀ m vs m₁, i.evalAll source s m = .ok vs m₁ →
      (∀ ws m₂, i.evalAll source t m₁ = .ok ws m₂ → ∃ ws' n, i.evalAll source (s ++ "\n" ++ t) m = .ok (vs ++ ws') n ∧
        List.Forall₂ (Correspondence.lowered (1 + s.toList.count '\n')).Values ws ws' ∧ n.printed = m₂.printed ∧
        (Correspondence.lowered (1 + s.toList.count '\n')).Machines m₂ n) ∧
      ∀ e m₂, i.evalAll source t m₁ = .error e m₂ → ∃ e' n, i.evalAll source (s ++ "\n" ++ t) m = .error e' n ∧
        (Correspondence.lowered (1 + s.toList.count '\n')).Errors e e' ∧ n.printed = m₂.printed ∧
        (Correspondence.lowered (1 + s.toList.count '\n')).Machines m₂ n := by
  have hparse : i.parse source (s ++ "\n" ++ t) =
      .ok (es ++ Expr.mapPosAll (Position.lower (1 + s.toList.count '\n')) es') := Program.parse_stacked hs ht
  refine ⟨hparse, fun m e m' h => ?_, fun m vs m₁ h => ?_⟩
  · rw [evalAll_of_parse hs] at h
    rw [evalAll_of_parse hparse, evalExprs_append, h]
  · rw [evalAll_of_parse hs] at h
    rw [evalAll_of_parse hparse, evalAll_of_parse ht, evalExprs_append, h]
    dsimp only
    have hends := evalExprs_ends (i := i) rfl (Correspondence.machines_lowered m₁)
      (Correspondence.like_lower (n := 1 + s.toList.count '\n') es')
    generalize i.evalExprs es' m₁ = r at hends
    generalize i.evalExprs (Expr.mapPosAll (Position.lower (1 + s.toList.count '\n')) es') m₁ = r' at hends
    constructor
    · rintro ws m₂ rfl
      cases hends with
      | ok hmn hvws => exact ⟨_, _, rfl, hvws, hmn.printed_eq, hmn⟩
    · rintro e m₂ rfl
      cases hends with
      | error hmn he => exact ⟨_, _, rfl, he, hmn.printed_eq, hmn⟩

/-- A closure that was made below is called below, and complains about its own row. -/
theorem evalAll_stacked_closure :
    (⟨1, 30⟩ : Interpreter).parse "a" "(let f ; (\n nil)" =
      .ok [.define "f" ⟨"a", 1, 6⟩ (.nil ⟨"a", 2, 2⟩) ⟨"a", 1, 1⟩] ∧
    (⟨1, 30⟩ : Interpreter).parse "a" "((fn () (f)))" =
      .ok [.call [.fn [] [.call [.ident "f" ⟨"a", 1, 10⟩] ⟨"a", 1, 9⟩] ⟨"a", 1, 2⟩] ⟨"a", 1, 1⟩] ∧
    ∃ e n, (⟨1, 30⟩ : Interpreter).evalAll "a" ("(let f ; (\n nil)" ++ "\n" ++ "((fn () (f)))")
      (Interpreter.create 30 .initial).2 = .error e n ∧
      (Correspondence.lowered 2).Errors (.type .function .nil (some ⟨"a", 1, 10⟩)) e := by
  have hs : (⟨1, 30⟩ : Interpreter).parse "a" "(let f ; (\n nil)" =
      .ok [.define "f" ⟨"a", 1, 6⟩ (.nil ⟨"a", 2, 2⟩) ⟨"a", 1, 1⟩] := by
    have hdrain : (TokenReader.ofText "a" "(let f ; (\n nil)".toList).drain =
        ([⟨.openParen, "(", ⟨"a", 1, 1⟩⟩, ⟨.ident, "let", ⟨"a", 1, 2⟩⟩, ⟨.ident, "f", ⟨"a", 1, 6⟩⟩,
          ⟨.ident, "nil", ⟨"a", 2, 2⟩⟩, ⟨.closeParen, ")", ⟨"a", 2, 5⟩⟩], .ended ⟨"a", 2, 5⟩) := by decide +kernel
    rw [parse, Program.parse, hdrain]
    rfl
  have ht : (⟨1, 30⟩ : Interpreter).parse "a" "((fn () (f)))" =
      .ok [.call [.fn [] [.call [.ident "f" ⟨"a", 1, 10⟩] ⟨"a", 1, 9⟩] ⟨"a", 1, 2⟩] ⟨"a", 1, 1⟩] := by
    have hdrain : (TokenReader.ofText "a" "((fn () (f)))".toList).drain =
        ([⟨.openParen, "(", ⟨"a", 1, 1⟩⟩, ⟨.openParen, "(", ⟨"a", 1, 2⟩⟩, ⟨.ident, "fn", ⟨"a", 1, 3⟩⟩,
          ⟨.openParen, "(", ⟨"a", 1, 6⟩⟩, ⟨.closeParen, ")", ⟨"a", 1, 7⟩⟩, ⟨.openParen, "(", ⟨"a", 1, 9⟩⟩,
          ⟨.ident, "f", ⟨"a", 1, 10⟩⟩, ⟨.closeParen, ")", ⟨"a", 1, 11⟩⟩, ⟨.closeParen, ")", ⟨"a", 1, 12⟩⟩,
          ⟨.closeParen, ")", ⟨"a", 1, 13⟩⟩], .ended ⟨"a", 1, 13⟩) := by decide +kernel
    rw [parse, Program.parse, hdrain]
    rfl
  have hrows : 1 + "(let f ; (\n nil)".toList.count '\n' = 2 := by decide
  have hstacked := (evalAll_stacked hs ht).2.2 (Interpreter.create 30 .initial).2
  rw [hrows] at hstacked
  obtain ⟨-, hfails⟩ := hstacked _ _ (evalAll_of_parse hs _)
  obtain ⟨e, n, he, herrors, -⟩ := hfails _ _ (evalAll_of_parse ht _)
  exact ⟨hs, ht, e, n, he, herrors⟩

end Interpreter

end MiniLisp
