import MiniLisp.Proofs.Expr.WellFormed
/-!
# Inside — an expression in its place

A `Slot` is a form with one of its parts taken out, and an expression stands inside others where it fills slots one
after another.  What is inside a well-formed expression is well-formed and no higher (`wellFormed_of_inside`,
`height_le_inside`), and what differs in positions only leaves a difference in positions only (`erase_inside`).
-/
namespace MiniLisp.Expr

/-- A form with one part taken out. -/
inductive Slot where
  | item (before after : List Expr) (pos : Position)
  | condTest (yes no : Expr) (pos : Position)
  | condYes (test no : Expr) (pos : Position)
  | condNo (test yes : Expr) (pos : Position)
  | body (params : List String) (before after : List Expr) (pos : Position)
  | value (name : String) (namePos pos : Position)

namespace Slot

def fill (e : Expr) : Slot → Expr
  | .item before after pos => .call (before ++ e :: after) pos
  | .condTest yes no pos => .cond e yes no pos
  | .condYes test no pos => .cond test e no pos
  | .condNo test yes pos => .cond test yes e pos
  | .body params before after pos => .fn params (before ++ e :: after) pos
  | .value name namePos pos => .define name namePos e pos

variable {e e' : Expr}

theorem wellFormed_of_fill {s : Slot} (h : (s.fill e).WellFormed) : e.WellFormed := by
  cases s with
  | item before after pos =>
    cases h with
    | call _ hitems => exact hitems e (by simp)
  | condTest yes no pos =>
    cases h with
    | cond htest _ _ => exact htest
  | condYes test no pos =>
    cases h with
    | cond _ hyes _ => exact hyes
  | condNo test yes pos =>
    cases h with
    | cond _ _ hno => exact hno
  | body params before after pos =>
    cases h with
    | fn _ hbody => exact hbody e (by simp)
  | value name namePos pos =>
    cases h with
    | define _ hvalue => exact hvalue

theorem height_lt_fill (s : Slot) : e.height < (s.fill e).height := by
  have hpart : ∀ before after : List Expr, e.height < heightAll (before ++ e :: after) + 1 := fun before after =>
    Nat.lt_succ_of_le (heightAll_le.1 (Nat.le_refl _) e (by simp))
  cases s with
  | item before after pos => exact hpart before after
  | body params before after pos => exact hpart before after
  | condTest | condYes | condNo | value => simp only [fill, height]; omega

theorem erase_fill {s : Slot} (h : e.erase = e'.erase) : (s.fill e).erase = (s.fill e').erase := by
  unfold erase at h ⊢
  cases s with
  | item | body => simp only [fill, mapPos, mapPosAll_eq, List.map_append, List.map_cons, h]
  | condTest | condYes | condNo | value => simp only [fill, mapPos, h]

end Slot

/-- An expression inside slots, the innermost last. -/
def inside (e : Expr) (slots : List Slot) : Expr := slots.foldr (fun s e => s.fill e) e

variable {e e' : Expr}

theorem wellFormed_of_inside : ∀ {slots : List Slot}, (e.inside slots).WellFormed → e.WellFormed
  | [], h => h
  | _ :: _, h => wellFormed_of_inside (Slot.wellFormed_of_fill h)

theorem height_le_inside : ∀ slots : List Slot, e.height ≤ (e.inside slots).height
  | [] => Nat.le_refl _
  | s :: slots => Nat.le_trans (height_le_inside slots) (Nat.le_of_lt s.height_lt_fill)

theorem erase_inside (h : e.erase = e'.erase) : ∀ slots : List Slot, (e.inside slots).erase = (e'.inside slots).erase
  | [] => h
  | _ :: slots => Slot.erase_fill (erase_inside h slots)

end MiniLisp.Expr
