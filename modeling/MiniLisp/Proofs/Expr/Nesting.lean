import Mathlib.Algebra.Ring.Nat
import MiniLisp.Proofs.Expr.Inside
/-!
# Nesting — how deep in functions an expression lies

An expression lies at the level `k` of another if it stands inside the bodies of `k` of its `fn` forms, one inside the
other.  None lies deeper than `fn` forms are nested (`Lies.le_nesting`).
-/
namespace MiniLisp.Expr

/-- How many bodies of functions a slot is. -/
def Slot.bodies : Slot → Nat
  | .body .. => 1
  | .item .. | .condTest .. | .condYes .. | .condNo .. | .value .. => 0

/-- **`e` lies in `e₀`, inside the bodies of `level` nested `fn` forms.** -/
def Lies (level : Nat) (e₀ e : Expr) : Prop :=
  ∃ slots : List Slot, e.inside slots = e₀ ∧ (slots.map Slot.bodies).sum = level

mutual

/-- How deep `fn` forms are nested. -/
def nesting : Expr → Nat
  | .fn _ body _ => nestingAll body + 1
  | .call items _ => nestingAll items
  | .cond test yes no _ => max (nesting test) (max (nesting yes) (nesting no))
  | .define _ _ value _ => nesting value
  | .ident _ _ | .number _ _ | .string _ _ | .bool _ _ | .nil _ | .operator _ _ => 0

def nestingAll : List Expr → Nat
  | [] => 0
  | e :: es => max (nesting e) (nestingAll es)

end

variable {level : Nat} {e₀ e : Expr}

theorem nesting_le_nestingAll {es : List Expr} : e ∈ es → e.nesting ≤ nestingAll es := by
  induction es with
  | nil => exact nofun
  | cons d ds ih =>
    rintro (_ | ⟨_, he⟩)
    · exact Nat.le_max_left _ _
    · exact Nat.le_trans (ih he) (Nat.le_max_right _ _)

theorem Slot.bodies_add_nesting_le (s : Slot) : s.bodies + e.nesting ≤ (s.fill e).nesting := by
  have hpart : ∀ before after : List Expr, e.nesting ≤ nestingAll (before ++ e :: after) := fun before after =>
    nesting_le_nestingAll (by simp)
  cases s with
  | item before after pos => exact Nat.le_trans (Nat.le_of_eq (Nat.zero_add _)) (hpart before after)
  | body params before after pos =>
    have hle := hpart before after
    simp only [fill, bodies, nesting]
    omega
  | condTest | condYes | condNo | value => simp only [fill, bodies, nesting]; omega

theorem inside_concat (slots : List Slot) (s : Slot) : e.inside (slots ++ [s]) = (s.fill e).inside slots := by
  rw [inside, List.foldr_append]
  rfl

namespace Lies

theorem refl (e : Expr) : Lies 0 e e := ⟨[], rfl, rfl⟩

/-- What fills a slot of an expression lies as deep as it, or in one more body. -/
theorem fill {s : Slot} (h : Lies level e₀ (s.fill e)) : Lies (level + s.bodies) e₀ e := by
  obtain ⟨slots, rfl, rfl⟩ := h
  exact ⟨slots ++ [s], inside_concat slots s, by simp⟩

/-- **No expression lies deeper than `fn` forms are nested.** -/
theorem le_nesting (h : Lies level e₀ e) : level + e.nesting ≤ e₀.nesting := by
  obtain ⟨slots, rfl, rfl⟩ := h
  induction slots with
  | nil => exact Nat.le_of_eq (Nat.zero_add _)
  | cons s slots ih =>
    have hle := s.bodies_add_nesting_le (e := e.inside slots)
    rw [List.map_cons, List.sum_cons]
    exact Nat.le_trans (by omega) hle

/-! ## Parts -/

variable {pos : Position}

theorem item {items : List Expr} (h : Lies level e₀ (.call items pos)) (he : e ∈ items) : Lies level e₀ e := by
  obtain ⟨before, after, rfl⟩ := List.append_of_mem he
  exact fill (s := .item before after pos) h

theorem body {params : List String} {body : List Expr} (h : Lies level e₀ (.fn params body pos)) (he : e ∈ body) :
    Lies (level + 1) e₀ e := by
  obtain ⟨before, after, rfl⟩ := List.append_of_mem he
  exact fill (s := .body params before after pos) h

theorem test {test yes no : Expr} (h : Lies level e₀ (.cond test yes no pos)) : Lies level e₀ test :=
  fill (s := .condTest yes no pos) h

theorem yes {test yes no : Expr} (h : Lies level e₀ (.cond test yes no pos)) : Lies level e₀ yes :=
  fill (s := .condYes test no pos) h

theorem no {test yes no : Expr} (h : Lies level e₀ (.cond test yes no pos)) : Lies level e₀ no :=
  fill (s := .condNo test yes pos) h

theorem value {name : String} {namePos : Position} {value : Expr} (h : Lies level e₀ (.define name namePos value pos)) :
    Lies level e₀ value := fill (s := .value name namePos pos) h

end Lies

end MiniLisp.Expr
