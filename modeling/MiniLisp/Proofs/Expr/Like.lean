import Mathlib.Data.List.Forall2
import MiniLisp.Expr.Basic
/-!
# Like — expressions that differ in their positions

`Expr.Like P` relates two expressions that are the same but for their positions, and the positions by `P`.  An
expression is like itself if every position is (`Like.refl`), and like itself moved if every position is like where it
is moved to (`like_mapPos`).  Expressions that are equal without their positions are alike, if all positions are
(`like_of_erase`), and the other way round (`erase_of_like`).
-/
namespace MiniLisp.Expr

/-- **Expressions that are the same, with positions that `P` relates.** -/
inductive Like (P : Position → Position → Prop) : Expr → Expr → Prop
  | ident {name : String} {p q : Position} : P p q → Like P (.ident name p) (.ident name q)
  | number {x : Float} {p q : Position} : P p q → Like P (.number x p) (.number x q)
  | string {text : String} {p q : Position} : P p q → Like P (.string text p) (.string text q)
  | bool {b : Bool} {p q : Position} : P p q → Like P (.bool b p) (.bool b q)
  | nil {p q : Position} : P p q → Like P (.nil p) (.nil q)
  | operator {op : Operator} {p q : Position} : P p q → Like P (.operator op p) (.operator op q)
  | call {items items' : List Expr} {p q : Position} : List.Forall₂ (Like P) items items' → P p q →
      Like P (.call items p) (.call items' q)
  | cond {test test' yes yes' no no' : Expr} {p q : Position} : Like P test test' → Like P yes yes' → Like P no no' →
      P p q → Like P (.cond test yes no p) (.cond test' yes' no' q)
  | fn {params : List String} {body body' : List Expr} {p q : Position} : List.Forall₂ (Like P) body body' → P p q →
      Like P (.fn params body p) (.fn params body' q)
  | define {name : String} {np nq : Position} {value value' : Expr} {p q : Position} : P np nq → Like P value value' →
      P p q → Like P (.define name np value p) (.define name nq value' q)

variable {P : Position → Position → Prop} {f : Position → Position} {e e' : Expr}

theorem Like.pos (h : Like P e e') : P e.pos e'.pos := by
  cases h <;> assumption

/-! ## Moved expressions -/

mutual

theorem like_mapPos (h : ∀ p, P p (f p)) : ∀ e : Expr, Like P e (e.mapPos f)
  | .ident _ p => .ident (h p)
  | .number _ p => .number (h p)
  | .string _ p => .string (h p)
  | .bool _ p => .bool (h p)
  | .nil p => .nil (h p)
  | .operator _ p => .operator (h p)
  | .call items p => .call (like_mapPosAll h items) (h p)
  | .cond test yes no p => .cond (like_mapPos h test) (like_mapPos h yes) (like_mapPos h no) (h p)
  | .fn _ body p => .fn (like_mapPosAll h body) (h p)
  | .define _ namePos value p => .define (h namePos) (like_mapPos h value) (h p)

theorem like_mapPosAll (h : ∀ p, P p (f p)) (es : List Expr) : List.Forall₂ (Like P) es (mapPosAll f es) := by
  cases es with
  | nil => exact .nil
  | cons e es => exact .cons (like_mapPos h e) (like_mapPosAll h es)

end

/-! ## The same expression -/

mutual

theorem mapPos_id : ∀ e : Expr, e.mapPos id = e
  | .ident _ _ | .number _ _ | .string _ _ | .bool _ _ | .nil _ | .operator _ _ => rfl
  | .call items _ => by rw [mapPos, mapPosAll_id items, id]
  | .cond test yes no _ => by rw [mapPos, mapPos_id test, mapPos_id yes, mapPos_id no, id]
  | .fn _ body _ => by rw [mapPos, mapPosAll_id body, id]
  | .define _ _ value _ => by rw [mapPos, mapPos_id value, id, id]

theorem mapPosAll_id (es : List Expr) : mapPosAll id es = es := by
  cases es with
  | nil => rfl
  | cons e es => rw [mapPosAll, mapPos_id e, mapPosAll_id es]

end

theorem Like.refl (h : ∀ p, P p p) (e : Expr) : Like P e e := by
  have hmoved := like_mapPos (f := id) h e
  rwa [mapPos_id] at hmoved

theorem forall₂_like_refl (h : ∀ p, P p p) (es : List Expr) : List.Forall₂ (Like P) es es :=
  List.forall₂_same.2 fun e _ => Like.refl h e

/-! ## Forgotten positions -/

/-- Any two positions. -/
abbrev AnyPlace : Position → Position → Prop := fun _ _ => True

mutual

theorem like_of_erase : ∀ (e e' : Expr), e.erase = e'.erase → Like AnyPlace e e'
  | .ident _ _, e', h => by
    cases e' with
    | ident _ _ =>
      obtain ⟨rfl, -⟩ := Expr.ident.inj h
      exact .ident trivial
    | _ => cases h
  | .number _ _, e', h => by
    cases e' with
    | number _ _ =>
      obtain ⟨rfl, -⟩ := Expr.number.inj h
      exact .number trivial
    | _ => cases h
  | .string _ _, e', h => by
    cases e' with
    | string _ _ =>
      obtain ⟨rfl, -⟩ := Expr.string.inj h
      exact .string trivial
    | _ => cases h
  | .bool _ _, e', h => by
    cases e' with
    | bool _ _ =>
      obtain ⟨rfl, -⟩ := Expr.bool.inj h
      exact .bool trivial
    | _ => cases h
  | .nil _, e', h => by
    cases e' with
    | nil _ => exact .nil trivial
    | _ => cases h
  | .operator _ _, e', h => by
    cases e' with
    | operator _ _ =>
      obtain ⟨rfl, -⟩ := Expr.operator.inj h
      exact .operator trivial
    | _ => cases h
  | .call items _, e', h => by
    cases e' with
    | call items' _ => exact .call (like_of_eraseAll items items' (Expr.call.inj h).1) trivial
    | _ => cases h
  | .cond test yes no _, e', h => by
    cases e' with
    | cond test' yes' no' _ =>
      obtain ⟨htest, hyes, hno, -⟩ := Expr.cond.inj h
      exact .cond (like_of_erase test test' htest) (like_of_erase yes yes' hyes) (like_of_erase no no' hno) trivial
    | _ => cases h
  | .fn _ body _, e', h => by
    cases e' with
    | fn _ body' _ =>
      obtain ⟨rfl, hbody, -⟩ := Expr.fn.inj h
      exact .fn (like_of_eraseAll body body' hbody) trivial
    | _ => cases h
  | .define _ _ value _, e', h => by
    cases e' with
    | define _ _ value' _ =>
      obtain ⟨rfl, -, hvalue, -⟩ := Expr.define.inj h
      exact .define trivial (like_of_erase value value' hvalue) trivial
    | _ => cases h

theorem like_of_eraseAll : ∀ (es es' : List Expr), mapPosAll (fun _ => {}) es = mapPosAll (fun _ => {}) es' →
    List.Forall₂ (Like AnyPlace) es es'
  | [], [], _ => .nil
  | e :: es, e' :: es', h => by
    obtain ⟨he, hes⟩ := List.cons.inj h
    exact .cons (like_of_erase e e' he) (like_of_eraseAll es es' hes)

end

mutual

theorem erase_of_like : ∀ (e e' : Expr), Like P e e' → e.erase = e'.erase
  | .ident _ _, _, .ident _ | .number _ _, _, .number _ | .string _ _, _, .string _ | .bool _ _, _, .bool _
  | .nil _, _, .nil _ | .operator _ _, _, .operator _ => rfl
  | .call items _, _, .call hitems _ => congrArg (Expr.call · _) (erase_of_likeAll items _ hitems)
  | .cond test yes no _, _, .cond htest hyes hno _ => by
    have htest := erase_of_like test _ htest
    have hyes := erase_of_like yes _ hyes
    have hno := erase_of_like no _ hno
    unfold erase at htest hyes hno ⊢
    rw [mapPos, mapPos, htest, hyes, hno]
  | .fn _ body _, _, .fn hbody _ => congrArg (Expr.fn _ · _) (erase_of_likeAll body _ hbody)
  | .define _ _ value _, _, .define _ hvalue _ => congrArg (Expr.define _ _ · _) (erase_of_like value _ hvalue)

theorem erase_of_likeAll : ∀ (es es' : List Expr), List.Forall₂ (Like P) es es' →
    mapPosAll (fun _ => {}) es = mapPosAll (fun _ => {}) es'
  | [], _, .nil => rfl
  | e :: es, _, .cons he hes => congrArg₂ List.cons (erase_of_like e _ he) (erase_of_likeAll es _ hes)

end

theorem map_erase_of_like {es es' : List Expr} (h : List.Forall₂ (Like P) es es') : es.map erase = es'.map erase := by
  induction h with
  | nil => rfl
  | cons he _ ih => rw [List.map_cons, List.map_cons, erase_of_like _ _ he, ih]

end MiniLisp.Expr
