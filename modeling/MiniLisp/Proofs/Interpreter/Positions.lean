import MiniLisp.Proofs.Expr.Inside
import MiniLisp.Proofs.Expr.Printing
import MiniLisp.Proofs.Interpreter.Pieces
/-!
# Positions — where code stands plays no part

Programs that are equal without their positions do the same.  They print the same, change the frames alike, and give
values that are the same but for the positions in closures, or errors that are the same but for the position
(`Interpreter.evalExprs_erase`).  So what is written out and read again does what it did, alone or in its place.
-/
namespace MiniLisp

/-- A diagnostic with its positions forgotten. -/
def Diagnostic.unplaced : Diagnostic → Diagnostic
  | .forbiddenCharacter c _ => .forbiddenCharacter c none
  | .parse msg token _ => .parse msg (token.map (Token.mapPos fun _ => {})) none
  | .unexpectedEnd msg _ => .unexpectedEnd msg none
  | .type expected actual _ => .type expected actual none
  | .eval msg _ => .eval msg none
  | .argument fn index msg expected actual => .argument fn index msg expected actual

/-- **Errors that are the same but for their positions** are of one class, and have the same data. -/
theorem Error.Alike.unplaced_eq {place : Position → Position → Prop} {e e' : Error} (h : Error.Alike place e e') :
    e'.diagnostic.unplaced = e.diagnostic.unplaced := by
  cases h <;> rfl

namespace Correspondence

/-- Nothing but positions is different, and these may be any. -/
def anywhere : Correspondence Unit := moved fun _ => Expr.AnyPlace

theorem like_anywhere {e e' : Expr} (h : e.erase = e'.erase) : Expr.Like (anywhere.place ()) e e' :=
  Expr.like_of_erase e e' h

theorem forall₂_like_anywhere : ∀ {es es' : List Expr}, es.map Expr.erase = es'.map Expr.erase →
    List.Forall₂ (Expr.Like (anywhere.place ())) es es'
  | [], [], _ => .nil
  | _ :: _, _ :: _, h => by
    obtain ⟨he, hes⟩ := List.cons.inj h
    exact .cons (like_anywhere he) (forall₂_like_anywhere hes)

theorem machines_anywhere (m : Machine) : anywhere.Machines m m := machines_moved () (fun _ => trivial) m

end Correspondence

namespace Interpreter

open Correspondence (anywhere)

/-- **Runs that end the same but for positions**: with values that are the same but for the positions in closures, or
with errors that are the same but for the position.  They have printed the same, and their frames bind the same names
to such values. -/
inductive SameEnds : EStateM.Result Error Machine (List Value) → EStateM.Result Error Machine (List Value) → Prop
  | ok {vs ws : List Value} {m n : Machine} : List.Forall₂ anywhere.Values vs ws → n.printed = m.printed →
      anywhere.Machines m n → SameEnds (.ok vs m) (.ok ws n)
  | error {e e' : Error} {m n : Machine} : e'.diagnostic.unplaced = e.diagnostic.unplaced → n.printed = m.printed →
      anywhere.Machines m n → SameEnds (.error e m) (.error e' n)

theorem sameEnds {es es' : List Expr} (h : es.map Expr.erase = es'.map Expr.erase) (i : Interpreter) (m : Machine) :
    SameEnds (i.evalExprs es m) (i.evalExprs es' m) := by
  have hlike := Correspondence.forall₂_like_anywhere h
  have hends := evalExprs_ends (i := i) rfl (Correspondence.machines_anywhere m) hlike
  generalize i.evalExprs es m = r at hends
  generalize i.evalExprs es' m = r' at hends
  cases hends with
  | ok hmn hvws => exact .ok hvws hmn.printed_eq hmn
  | error hmn he =>
    obtain ⟨_, halike⟩ := he
    exact .error halike.unplaced_eq hmn.printed_eq hmn

/-- **Positions never influence evaluation.**  Programs that are equal without their positions end the same but for
positions, from every machine and in every frame, and so do expressions at every depth.  In particular, every
expression inside a program that is parsed is parsed again from its own text, and ends the same if it is evaluated in
place of what it was: by itself, or inside the program. -/
theorem evalExprs_erase :
    (∀ es es' : List Expr, es.map Expr.erase = es'.map Expr.erase → ∀ (i : Interpreter) (m : Machine),
      SameEnds (i.evalExprs es m) (i.evalExprs es' m)) ∧
    (∀ e e' : Expr, e.erase = e'.erase → ∀ (depth : Nat) (F : FrameId) (m : Machine),
      anywhere.Ends anywhere.Values (eval depth F e m) (eval depth F e' m)) ∧
    ∀ (i : Interpreter) (source text : String) (es : List Expr), i.parse source text = .ok es →
      ∀ (before after : List Expr) (e : Expr) (slots : List Expr.Slot), es = before ++ e.inside slots :: after →
        ∀ source' : String, ∃ e', i.parse source' e.code = .ok [e'] ∧ e'.erase = e.erase ∧
          (∀ (j : Interpreter) (m : Machine), SameEnds (j.evalExprs [e] m) (j.evalExprs [e'] m)) ∧
          ∀ (j : Interpreter) (m : Machine),
            SameEnds (j.evalExprs es m) (j.evalExprs (before ++ e'.inside slots :: after) m) := by
  refine ⟨fun es es' h i m => sameEnds h i m, fun e e' h depth F m => ?_, fun i source text es hparse => ?_⟩
  · exact Correspondence.eval (Correspondence.machines_anywhere m) (Correspondence.like_anywhere h) depth F
  · rintro before after e slots rfl source'
    have hmem : e.inside slots ∈ before ++ e.inside slots :: after := by simp
    have hwell : e.WellFormed := Expr.wellFormed_of_inside (Program.wellFormed_of_parse hparse _ hmem)
    have hheight : e.height ≤ maxForms i.limit :=
      Nat.le_trans (Expr.height_le_inside slots) (Program.height_le_of_parse hparse _ hmem)
    obtain ⟨e', hparse', he'⟩ := Expr.parse_code source' hwell hheight
    have hinside : (e.inside slots).erase = (e'.inside slots).erase := Expr.erase_inside he'.symm slots
    refine ⟨e', hparse', he', fun j m => sameEnds (by simp [he']) j m, fun j m => sameEnds ?_ j m⟩
    rw [List.map_append, List.map_append, List.map_cons, List.map_cons, hinside]

/-- The body of a closure, read again from another source, in its place. -/
theorem evalExprs_erase_body :
    (⟨1, 30⟩ : Interpreter).parse "a" "((fn () (nil)))" =
      .ok [.call [.fn [] [.call [.nil ⟨"a", 1, 10⟩] ⟨"a", 1, 9⟩] ⟨"a", 1, 2⟩] ⟨"a", 1, 1⟩] ∧
    ∃ body, (⟨1, 30⟩ : Interpreter).parse "b" (Expr.call [.nil ⟨"a", 1, 10⟩] ⟨"a", 1, 9⟩).code = .ok [body] ∧
      ∃ e n, (⟨1, 30⟩ : Interpreter).evalExprs [.call [.fn [] [body] ⟨"a", 1, 2⟩] ⟨"a", 1, 1⟩] (create 30 .initial).2 =
        .error e n ∧ e.diagnostic.unplaced = .type "function" "nil" none := by
  have hparse : (⟨1, 30⟩ : Interpreter).parse "a" "((fn () (nil)))" =
      .ok [.call [.fn [] [.call [.nil ⟨"a", 1, 10⟩] ⟨"a", 1, 9⟩] ⟨"a", 1, 2⟩] ⟨"a", 1, 1⟩] := by
    have hdrain : (TokenReader.ofText "a" "((fn () (nil)))".toList).drain =
        ([⟨.openParen, "(", ⟨"a", 1, 1⟩⟩, ⟨.openParen, "(", ⟨"a", 1, 2⟩⟩, ⟨.ident, "fn", ⟨"a", 1, 3⟩⟩,
          ⟨.openParen, "(", ⟨"a", 1, 6⟩⟩, ⟨.closeParen, ")", ⟨"a", 1, 7⟩⟩, ⟨.openParen, "(", ⟨"a", 1, 9⟩⟩,
          ⟨.ident, "nil", ⟨"a", 1, 10⟩⟩, ⟨.closeParen, ")", ⟨"a", 1, 13⟩⟩, ⟨.closeParen, ")", ⟨"a", 1, 14⟩⟩,
          ⟨.closeParen, ")", ⟨"a", 1, 15⟩⟩], .ended ⟨"a", 1, 15⟩) := by decide +kernel
    rw [parse, Program.parse, hdrain]
    rfl
  obtain ⟨body, hbody, _, _, hinside⟩ := evalExprs_erase.2.2 ⟨1, 30⟩ "a" _ _ hparse [] [] _
    [.item [] [] ⟨"a", 1, 1⟩, .body [] [] [] ⟨"a", 1, 2⟩] rfl "b"
  have hends := hinside ⟨1, 30⟩ (create 30 .initial).2
  obtain ⟨n, hfails⟩ : ∃ n, (⟨1, 30⟩ : Interpreter).evalExprs
      [.call [.fn [] [.call [.nil ⟨"a", 1, 10⟩] ⟨"a", 1, 9⟩] ⟨"a", 1, 2⟩] ⟨"a", 1, 1⟩] (create 30 .initial).2 =
    .error (.type .function .nil (some ⟨"a", 1, 10⟩)) n := ⟨_, rfl⟩
  rw [hfails] at hends
  refine ⟨hparse, body, hbody, ?_⟩
  change SameEnds _ ((⟨1, 30⟩ : Interpreter).evalExprs [.call [.fn [] [body] ⟨"a", 1, 2⟩] ⟨"a", 1, 1⟩] _) at hends
  generalize (⟨1, 30⟩ : Interpreter).evalExprs [.call [.fn [] [body] ⟨"a", 1, 2⟩] ⟨"a", 1, 1⟩] _ = r at hends ⊢
  cases hends with
  | error herror _ _ => exact ⟨_, _, rfl, herror⟩

end Interpreter

end MiniLisp
