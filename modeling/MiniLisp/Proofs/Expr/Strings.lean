import MiniLisp.Proofs.Expr.WellFormed
import MiniLisp.Proofs.Text.Line
/-!
# Strings — the string literals of an expression

The literals of an expression are those of all its parts, the bodies of its `fn` forms included.  What can be written
has literals of one line only (`oneLine_of_parse`).
-/
namespace MiniLisp

namespace Expr

mutual

/-- The texts of the string literals. -/
def strings : Expr → List String
  | .string text _ => [text]
  | .call items _ => stringsAll items
  | .cond test yes no _ => strings test ++ (strings yes ++ strings no)
  | .fn _ body _ => stringsAll body
  | .define _ _ value _ => strings value
  | .ident _ _ | .number _ _ | .bool _ _ | .nil _ | .operator _ _ => []

def stringsAll : List Expr → List String
  | [] => []
  | e :: es => strings e ++ stringsAll es

end

/-- All literals are of one line. -/
def OneLine (e : Expr) : Prop := ∀ text ∈ e.strings, Text.OneLine text

theorem oneLine_all : ∀ {es : List Expr}, (∀ text ∈ stringsAll es, Text.OneLine text) ↔ ∀ e ∈ es, e.OneLine
  | [] => by simp [stringsAll]
  | e :: es => by rw [stringsAll, List.forall_mem_append, oneLine_all, List.forall_mem_cons, OneLine]

theorem oneLine_cond {test yes no : Expr} {pos : Position} :
    (Expr.cond test yes no pos).OneLine ↔ test.OneLine ∧ yes.OneLine ∧ no.OneLine := by
  simp only [OneLine, strings, List.forall_mem_append]

/-- **What can be written has literals of one line.** -/
theorem WellFormed.oneLine {e : Expr} (h : e.WellFormed) : e.OneLine := by
  induction h with
  | string hq hn hz => exact List.forall_mem_singleton.2 ⟨hq, hn, hz⟩
  | call _ _ ih => exact oneLine_all.2 ih
  | cond _ _ _ iht ihy ihn => exact oneLine_cond.2 ⟨iht, ihy, ihn⟩
  | fn _ _ ih => exact oneLine_all.2 ih
  | define _ _ ih => exact ih
  | ident _ | number _ | bool | nil | operator => exact nofun

end Expr

theorem Program.oneLine_of_parse {limit : Nat} {source text : String} {es : List Expr}
    (h : Program.parse limit source text = .ok es) : ∀ e ∈ es, e.OneLine :=
  fun e he => (wellFormed_of_parse h e he).oneLine

end MiniLisp
