import MiniLisp.Proofs.Eval.Unreached
import MiniLisp.Proofs.Interpreter.Sequence
/-!
# Unreached — other code where a program does not come

A spot is idle in a program if it is idle in the evaluation of each of its expressions.  A program with other code in
its idle spots, and in those of the functions that are there already, does the same (`evalExprs_edited`).
-/
namespace MiniLisp.Interpreter

open Expr (Spot)

/-- **A spot is idle in a program**: whenever its form is evaluated, by any expression of the program in the machine
that those before have left, it stops in front of the spot. -/
def Idle (i : Interpreter) (es : List Expr) (m : Machine) (s : Spot) : Prop :=
  ∀ before e after vs n, es = before ++ e :: after → i.evalExprs before m = .ok vs n →
    s.Idle (maxDepth i.limit) (.expr i.frame e) n

variable {i : Interpreter} {P : Position → Position → Prop} {U : Spot → Prop} {m n : Machine} {s : Spot} {e e' : Expr}
  {es : List Expr}

theorem Idle.head (h : i.Idle (e :: es) m s) : s.Idle (maxDepth i.limit) (.expr i.frame e) m :=
  h [] e es [] m rfl rfl

theorem Idle.tail {v : Value} (h : i.Idle (e :: es) m s) (hok : i.evalExpr e m = .ok v n) : i.Idle es n s := by
  rintro before d after vs k rfl hbefore
  refine h (e :: before) d after (v :: vs) k rfl ?_
  rw [evalExprs_cons, hok]
  dsimp only
  rw [hbefore]

theorem evalExpr_edited (hmn : Machine.Edited P U m n) (he : Expr.Edited P U e e')
    (hidle : ∀ s, U s → s.Idle (maxDepth i.limit) (.expr i.frame e) m) :
    Machine.Edited.Ends P U (Error.Alike P) (Value.Edited P U) (i.evalExpr e m) (i.evalExpr e' n) := by
  have hends := hmn.eval he hidle
  unfold evalExpr
  generalize eval (maxDepth i.limit) i.frame e m = r at hends
  generalize eval (maxDepth i.limit) i.frame e' n = r' at hends
  cases hends with
  | ok hmn hvw => exact .ok hmn hvw
  | error hmn hhalt =>
    cases hhalt with
    | failed herror => exact .error hmn herror
    | exhausted => exact .error hmn (.recursionTooDeep he.fronts.pos)

/-- **Code that is not reached does not matter.**  If a program is the same as another but for positions, and for the
code in spots that are idle whenever the first comes to their forms, however deep they are in it or in functions that
the machine holds, then both end alike: with the same values, but for the code in such spots of the bodies of closures,
or with the same error; and they have printed the same, and left the same frames. -/
theorem evalExprs_edited : ∀ {es es' : List Expr} {m n : Machine}, List.Forall₂ (Expr.Edited P U) es es' →
    Machine.Edited P U m n → (∀ s, U s → i.Idle es m s) →
    Machine.Edited.Ends P U (Error.Alike P) (List.Forall₂ (Value.Edited P U)) (i.evalExprs es m) (i.evalExprs es' n)
  | [], _, _, _, .nil, hmn, _ => .ok hmn .nil
  | e :: es, e' :: es', m, n, .cons he hes, hmn, hidle => by
    have hone := evalExpr_edited (i := i) hmn he fun s hs => (hidle s hs).head
    rw [evalExprs_cons, evalExprs_cons]
    cases hr : i.evalExpr e m with
    | error failure m' =>
      rw [hr] at hone
      generalize i.evalExpr e' n = r' at hone
      cases hone with
      | error hmn herror => exact .error hmn herror
    | ok v m' =>
      rw [hr] at hone
      generalize i.evalExpr e' n = r' at hone
      cases hone with
      | @ok _ w _ n' hmn hvw =>
        have hrest := evalExprs_edited hes hmn fun s hs => (hidle s hs).tail hr
        dsimp only
        generalize i.evalExprs es m' = r at hrest
        generalize i.evalExprs es' n' = r' at hrest
        cases hrest with
        | error hmn herror => exact .error hmn herror
        | ok hmn hvws => exact .ok hmn (.cons hvw hvws)

/-- A function whose `if` always comes out true, and a call of it with an argument that calls nil: other code in the
branch, and other arguments of nil. -/
theorem evalExprs_edited_spots :
    let p : Position := {}
    let U : Spot → Prop := fun s =>
      s = .whenFalse (.bool true p) (.ident "b" p) (.ident "b" p) p ∨ s = .arguments (.nil p) [] [.bool true p] p
    let program : Expr → List Expr → List Expr := fun no args =>
      [.define "f" p (.fn ["b"] [.cond (.bool true p) (.ident "b" p) no p] p) p,
        .call [.ident "f" p, .call (.nil p :: args) p] p]
    let (i, m) := create 10 .initial
    (∀ s, U s → i.Idle (program (.ident "b" p) [.bool true p]) m s) ∧
    Machine.Edited.Ends Eq U (Error.Alike Eq) (List.Forall₂ (Value.Edited Eq U))
      (i.evalExprs (program (.ident "b" p) [.bool true p]) m) (i.evalExprs (program (.call [] p) [.nil p, .nil p]) m) := by
  intro p U program
  have hstops : ∀ s, U s → ∀ depth F n, s.Stops depth F n := by
    rintro s (rfl | rfl) (_ | depth) F n
    · exact .whenFalse nofun
    · exact .whenFalse nofun
    · exact .callee rfl
    · exact .notFunction rfl nofun
  have hidle : ∀ s, U s → (create 10 .initial).1.Idle (program (.ident "b" p) [.bool true p]) (create 10 .initial).2 s :=
    fun s hs _ _ _ _ _ _ _ _ _ _ _ => hstops s hs _ _ _
  refine ⟨hidle, evalExprs_edited ?_ (.refl (fun _ => rfl) _) hidle⟩
  have hcond : Expr.Edited Eq U (.cond (.bool true p) (.ident "b" p) (.ident "b" p) p)
      (.cond (.bool true p) (.ident "b" p) (.call [] p) p) :=
    .cond (.bool rfl) (fun _ => .ident rfl) (fun hnot => absurd (.inl rfl) hnot) rfl
  have hcall : Expr.Edited Eq U (.call [.nil p, .bool true p] p) (.call [.nil p, .nil p, .nil p] p) :=
    @Expr.Edited.arguments Eq U _ _ [] [] _ _ _ _ (.nil rfl) .nil (.inr rfl) rfl
  exact .cons (.define (.fn (.cons hcond .nil) rfl) rfl) (.cons (.call (.cons (.ident rfl) (.cons hcall .nil)) rfl) .nil)

end MiniLisp.Interpreter
