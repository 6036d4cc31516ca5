import MiniLisp.Proofs.Eval.Lockstep
/-!
# Edited — expressions with other code in some spots

A `Spot` is code in a form that the form may not come to: arguments of a call, or a branch of an `if`.  Two expressions
are `Edited` if they are the same but for their positions, and for the code in some spots, which may be any code.
-/
namespace MiniLisp.Expr

/-- **Code that a form may not come to.** -/
inductive Spot where
  /-- The arguments of a call behind others. -/
  | arguments (head : Expr) (before after : List Expr) (pos : Position)
  | whenTrue (test yes no : Expr) (pos : Position)
  | whenFalse (test yes no : Expr) (pos : Position)

/-- The form that a spot is in. -/
def Spot.form : Spot → Expr
  | .arguments head before after pos => .call (head :: (before ++ after)) pos
  | .whenTrue test yes no pos | .whenFalse test yes no pos => .cond test yes no pos

/-- **Expressions that are the same**, but for positions, which `P` relates, and for the code in spots of `U`. -/
inductive Edited (P : Position → Position → Prop) (U : Spot → Prop) : Expr → Expr → Prop
  | ident {name : String} {p q : Position} : P p q → Edited P U (.ident name p) (.ident name q)
  | number {x : Float} {p q : Position} : P p q → Edited P U (.number x p) (.number x q)
  | string {text : String} {p q : Position} : P p q → Edited P U (.string text p) (.string text q)
  | bool {b : Bool} {p q : Position} : P p q → Edited P U (.bool b p) (.bool b q)
  | nil {p q : Position} : P p q → Edited P U (.nil p) (.nil q)
  | operator {op : Operator} {p q : Position} : P p q → Edited P U (.operator op p) (.operator op q)
  | call {items items' : List Expr} {p q : Position} : List.Forall₂ (Edited P U) items items' → P p q →
      Edited P U (.call items p) (.call items' q)
  | arguments {head head' : Expr} {before before' after after' : List Expr} {p q : Position} :
      Edited P U head head' → List.Forall₂ (Edited P U) before before' → U (.arguments head before after p) → P p q →
      Edited P U (.call (head :: (before ++ after)) p) (.call (head' :: (before' ++ after')) q)
  | cond {test test' yes yes' no no' : Expr} {p q : Position} : Edited P U test test' →
      (¬ U (.whenTrue test yes no p) → Edited P U yes yes') →
      (¬ U (.whenFalse test yes no p) → Edited P U no no') → P p q →
      Edited P U (.cond test yes no p) (.cond test' yes' no' q)
  | fn {params : List String} {body body' : List Expr} {p q : Position} : List.Forall₂ (Edited P U) body body' →
      P p q → Edited P U (.fn params body p) (.fn params body' q)
  | define {name : String} {np nq : Position} {value value' : Expr} {p q : Position} : Edited P U value value' →
      P p q → Edited P U (.define name np value p) (.define name nq value' q)

variable {P : Position → Position → Prop} {U : Spot → Prop} {e e' : Expr}

theorem Edited.fronts (h : Edited P U e e') : e.Fronts P e' := by
  refine ⟨by cases h <;> assumption, ?_, ?_⟩
  · rintro name p rfl
    cases h
    exact ⟨_, rfl⟩
  · rintro name q rfl
    cases h
    exact ⟨_, rfl⟩

mutual

theorem Edited.refl (h : ∀ p, P p p) : ∀ e : Expr, Edited P U e e
  | .ident _ p => .ident (h p)
  | .number _ p => .number (h p)
  | .string _ p => .string (h p)
  | .bool _ p => .bool (h p)
  | .nil p => .nil (h p)
  | .operator _ p => .operator (h p)
  | .call items p => .call (forall₂_edited_refl h items) (h p)
  | .cond test yes no p => .cond (Edited.refl h test) (fun _ => Edited.refl h yes) (fun _ => Edited.refl h no) (h p)
  | .fn _ body p => .fn (forall₂_edited_refl h body) (h p)
  | .define _ _ value p => .define (Edited.refl h value) (h p)

theorem forall₂_edited_refl (h : ∀ p, P p p) (es : List Expr) : List.Forall₂ (Edited P U) es es := by
  cases es with
  | nil => exact .nil
  | cons e es => exact .cons (Edited.refl h e) (forall₂_edited_refl h es)

end

end MiniLisp.Expr
