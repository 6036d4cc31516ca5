import MiniLisp.Arguments.Basic
import MiniLisp.Proofs.Value.Agree
/-!
# Agree — arguments that differ in their functions

A read asks for the kind of a value and takes it apart, and both go alike for values that agree.  So every sequence of
reads answers alike on arguments that agree: with results that are related, or with one and the same error
(`ValueReading.read_agree`).
-/
namespace MiniLisp

/-- The errors that a built-in makes of its arguments.  They have no position. -/
inductive Error.OfArguments : Error → Prop
  | argument (fn : String) (index : Nat) (problem : ArgumentProblem) : OfArguments (.argument fn index problem)
  | indexNotFinite (x : Float) : OfArguments (.indexNotFinite x)
  | indexOutOfBounds (index : Int) (length : Nat) : OfArguments (.indexOutOfBounds index length)
  | type (expected actual : Kind) : OfArguments (.type expected actual none)

/-- **Related results, or one error.** -/
inductive Answers {α β : Type} (Q : α → β → Prop) : Except Error α → Except Error β → Prop
  | ok {a : α} {b : β} : Q a b → Answers Q (.ok a) (.ok b)
  | error {e : Error} : e.OfArguments → Answers Q (.error e) (.error e)

theorem Answers.bind {α β γ δ : Type} {Q : α → β → Prop} {Q' : γ → δ → Prop} {x : Except Error α} {y : Except Error β}
    {f : α → Except Error γ} {g : β → Except Error δ} (h : Answers Q x y)
    (hfg : ∀ a b, Q a b → Answers Q' (f a) (g b)) : Answers Q' (x >>= f) (y >>= g) := by
  cases h with
  | ok hab => exact hfg _ _ hab
  | error he => exact .error he

/-- Arguments of one function, at one index. -/
structure Arguments.Agree (T : String → Prop) (R : Function → Function → Prop) (s t : Arguments Value) : Prop where
  fn_eq : s.fn = t.fn
  index_eq : s.index = t.index
  pending : List.Forall₂ (Value.Agree T R) s.pending t.pending

variable {T : String → Prop} {R : Function → Function → Prop} {α β γ δ : Type}

/-! ## What a read asks of a value -/

/-- Values that agree are seen alike. -/
def Expected.Sees (T : String → Prop) (R : Function → Function → Prop) (expected : Expected α)
    (Q : α → α → Prop) : Prop :=
  ∀ v w, Value.Agree T R v w → Option.Rel Q (expected.view v) (expected.view w)

namespace Expected

theorem any_sees : any.Sees T R (Value.Agree T R) := fun _ _ h => .some h

theorem number_sees : number.Sees T R Eq := by
  rintro _ _ (x | _ | _ | _ | _ | _ | _ | _)
  · exact .some rfl
  all_goals exact .none

theorem string_sees : string.Sees T R fun a b => a = b ∧ T a := by
  rintro _ _ (_ | htext | _ | _ | _ | _ | _ | _)
  · exact .none
  · exact .some ⟨rfl, htext⟩
  all_goals exact .none

theorem bool_sees : bool.Sees T R Eq := by
  rintro _ _ (_ | _ | b | _ | _ | _ | _ | _)
  case bool => exact .some rfl
  all_goals exact .none

theorem pair_sees : pair.Sees T R fun a b => Value.Agree T R a.1 b.1 ∧ Value.Agree T R a.2 b.2 := by
  rintro _ _ (_ | _ | _ | _ | ⟨hleft, hright⟩ | _ | _ | _)
  case pair => exact .some ⟨hleft, hright⟩
  all_goals exact .none

theorem list_sees : list.Sees T R (List.Forall₂ (Value.Agree T R)) := by
  rintro _ _ (_ | _ | _ | _ | _ | hitems | _ | _)
  case list => exact .some hitems
  all_goals exact .none

theorem map_sees : map.Sees T R (List.Forall₂ (EntryAgree T (Value.Agree T R))) := by
  rintro _ _ (_ | _ | _ | _ | _ | _ | ⟨hkeys, htexts, hvalues⟩ | _)
  case map => exact .some (Entries.agree_iff.2 ⟨hkeys, htexts, hvalues⟩)
  all_goals exact .none

theorem function_sees : function.Sees T R R := by
  rintro _ _ (_ | _ | _ | _ | _ | _ | _ | hfg)
  case function => exact .some hfg
  all_goals exact .none

end Expected

/-! ## Reads -/

namespace ValueReading

/-- Reads that answer alike, and leave arguments that agree. -/
def Agree (T : String → Prop) (R : Function → Function → Prop) (Q : α → β → Prop) (r : ValueReading α)
    (r' : ValueReading β) : Prop :=
  ∀ s t, Arguments.Agree T R s t → Answers Q (r s).1 (r' t).1 ∧ Arguments.Agree T R (r s).2 (r' t).2

variable {Q : α → β → Prop} {Q' : γ → δ → Prop} {P : α → α → Prop} {expected : Expected α} {s t : Arguments Value}

theorem bind_apply (r : ValueReading α) (f : α → ValueReading γ) (s : Arguments Value) :
    (r >>= f) s = match r s with
      | (.ok a, s') => f a s'
      | (.error e, s') => (.error e, s') := by
  show ExceptT.bindCont f (r s).1 (r s).2 = _
  cases r s with
  | mk x s' => cases x <;> rfl

theorem agree_pure {a : α} {b : β} (h : Q a b) : Agree T R Q (pure a) (pure b) := fun _ _ hst => ⟨.ok h, hst⟩

theorem Agree.bind {r : ValueReading α} {r' : ValueReading β} {f : α → ValueReading γ} {g : β → ValueReading δ}
    (h : Agree T R Q r r') (hfg : ∀ a b, Q a b → Agree T R Q' (f a) (g b)) : Agree T R Q' (r >>= f) (r' >>= g) := by
  intro s t hst
  obtain ⟨hanswer, hrest⟩ := h s t hst
  rw [bind_apply, bind_apply]
  generalize r s = x at hanswer hrest
  generalize r' t = y at hanswer hrest
  obtain ⟨x, s'⟩ := x
  obtain ⟨y, t'⟩ := y
  cases hanswer with
  | ok hab => exact hfg _ _ hab s' t' hrest
  | error he => exact ⟨.error he, hrest⟩

theorem optional_agree : Agree T R (Option.Rel (Value.Agree T R)) optional optional := by
  rintro ⟨fn, index, pending⟩ ⟨fn', index', pending'⟩ ⟨rfl, rfl, hpending⟩
  cases hpending with
  | nil => exact ⟨.ok .none, rfl, rfl, .nil⟩
  | cons hv hvs => exact ⟨.ok (.some hv), rfl, rfl, hvs⟩

/-- The error of a read says what is wrong with the argument before `back` reads. -/
theorem agree_throw (back : Nat) (problem : ArgumentProblem) :
    Agree T R Q (do let s ← get; throw (.argument s.fn (s.index - back) problem))
      (do let s ← get; throw (.argument s.fn (s.index - back) problem)) := by
  intro s t hst
  show Answers Q (.error (.argument s.fn (s.index - back) problem))
    (.error (.argument t.fn (t.index - back) problem)) ∧ _
  rw [hst.fn_eq, hst.index_eq]
  exact ⟨.error (.argument _ _ _), hst⟩

theorem one_agree (h : expected.Sees T R P) : Agree T R P (one expected) (one expected) := by
  refine optional_agree.bind fun v? w? hvw => ?_
  cases hvw with
  | none => exact agree_throw 0 _
  | @some v w hvw =>
    have hview := h v w hvw
    generalize hv : expected.view v = a? at hview
    generalize hw : expected.view w = b? at hview
    cases hview with
    | some hab =>
      simp only [hv, hw]
      exact agree_pure hab
    | none =>
      simp only [hv, hw, hvw.kind_eq]
      exact agree_throw 1 _

theorem restFrom_cons (expected : Expected α) (fn : String) (index : Nat) (v : Value) (vs : List Value) :
    Arguments.restFrom fetch expected fn index (v :: vs) = match expected.view v with
      | none => (.error (.argument fn index (.mismatch expected.label v.kind)), ⟨fn, index + 1, vs⟩)
      | some a => ((Arguments.restFrom fetch expected fn (index + 1) vs).1.map (a :: ·),
          (Arguments.restFrom fetch expected fn (index + 1) vs).2) := rfl

theorem restFrom_agree (h : expected.Sees T R P) (fn : String) {vs ws : List Value}
    (hvws : List.Forall₂ (Value.Agree T R) vs ws) : ∀ index : Nat,
    Answers (List.Forall₂ P) (Arguments.restFrom fetch expected fn index vs).1
        (Arguments.restFrom fetch expected fn index ws).1 ∧
      Arguments.Agree T R (Arguments.restFrom fetch expected fn index vs).2
        (Arguments.restFrom fetch expected fn index ws).2 := by
  induction hvws with
  | nil => exact fun index => ⟨.ok .nil, rfl, rfl, .nil⟩
  | @cons v w vs ws hvw hvws ih =>
    intro index
    rw [restFrom_cons, restFrom_cons, ← hvw.kind_eq]
    have hview := h v w hvw
    generalize expected.view v = a? at hview
    generalize expected.view w = b? at hview
    cases hview with
    | none => exact ⟨.error (.argument _ _ _), rfl, rfl, hvws⟩
    | @some a b hab =>
      obtain ⟨hanswer, hrest⟩ := ih (index + 1)
      refine ⟨?_, hrest⟩
      generalize (Arguments.restFrom fetch expected fn (index + 1) vs).1 = x at hanswer
      generalize (Arguments.restFrom fetch expected fn (index + 1) ws).1 = y at hanswer
      cases hanswer with
      | ok habs => exact .ok (.cons hab habs)
      | error he => exact .error he

theorem rest_agree (h : expected.Sees T R P) : Agree T R (List.Forall₂ P) (rest expected) (rest expected) := by
  rintro ⟨fn, index, pending⟩ ⟨fn', index', pending'⟩ ⟨rfl, rfl, hpending⟩
  exact restFrom_agree h fn hpending index

theorem complete_agree : Agree T R (fun _ _ => True) (Arguments.complete fetch) (Arguments.complete fetch) := by
  refine optional_agree.bind fun v? w? hvw => ?_
  cases hvw with
  | none => exact agree_pure trivial
  | some _ => exact agree_throw 1 _

/-- **Reads answer alike on arguments that agree.** -/
theorem read_agree {r : ValueReading α} {r' : ValueReading β} (h : Agree T R Q r r') (fn : String)
    {args args' : List Value} (hargs : List.Forall₂ (Value.Agree T R) args args') :
    Answers Q (read fn args r) (read fn args' r') := by
  have hall : Agree T R Q (do let a ← r; Arguments.complete fetch; pure a)
      (do let b ← r'; Arguments.complete fetch; pure b) :=
    h.bind fun a b hab => complete_agree.bind fun _ _ _ => agree_pure hab
  exact (hall ⟨fn, 0, args⟩ ⟨fn, 0, args'⟩ ⟨rfl, rfl, hargs⟩).1

end ValueReading

end MiniLisp
