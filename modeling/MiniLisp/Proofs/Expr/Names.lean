import MiniLisp.Expr.Basic
/-!
# Names — what an expression mentions

The names in an expression are its identifiers, the parameters of its `fn` forms and the names of its `let` forms, at
whatever depth.
-/
namespace MiniLisp.Expr

mutual

/-- Identifiers, parameters and names of `let` forms. -/
def names : Expr → List String
  | .ident name _ => [name]
  | .call items _ => namesAll items
  | .cond test yes no _ => names test ++ (names yes ++ names no)
  | .fn params body _ => params ++ namesAll body
  | .define name _ value _ => name :: names value
  | .number _ _ | .string _ _ | .bool _ _ | .nil _ | .operator _ _ => []

def namesAll : List Expr → List String
  | [] => []
  | e :: es => names e ++ namesAll es

end

/-- **An expression does not mention a name.** -/
def Omits (name : String) (e : Expr) : Prop := name ∉ e.names

instance (name : String) (e : Expr) : Decidable (e.Omits name) := inferInstanceAs (Decidable (name ∉ e.names))

variable {name other : String} {pos namePos : Position} {value : Expr}

theorem Omits.ne_ident (h : (Expr.ident other pos).Omits name) : name ≠ other := List.ne_of_not_mem_cons h

theorem Omits.ne_define (h : (Expr.define other namePos value pos).Omits name) : name ≠ other :=
  List.ne_of_not_mem_cons h

theorem omits_all : ∀ {es : List Expr}, name ∉ namesAll es ↔ ∀ e ∈ es, e.Omits name
  | [] => iff_of_true nofun nofun
  | e :: es => by rw [namesAll, List.mem_append, not_or, omits_all, List.forall_mem_cons, Omits]

end MiniLisp.Expr
