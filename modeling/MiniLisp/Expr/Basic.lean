import MiniLisp.Source.Position
import MiniLisp.Operator
/-!
# Expr — the expressions of the language

Literals, calls, and the three special forms `if`, `fn` and `let`.  Every expression
carries the position of its first token.  Equality leaves the positions out
(`Expr.same`) and compares numbers as numbers: 0 equals -0, and NaN nothing.
-/
namespace MiniLisp

inductive Expr where
  | ident (name : String) (pos : Position)
  | number (x : Float) (pos : Position)
  | string (text : String) (pos : Position)
  | bool (b : Bool) (pos : Position)
  | nil (pos : Position)
  | operator (op : Operator) (pos : Position)
  | call (items : List Expr) (pos : Position)
  | cond (test yes no : Expr) (pos : Position)
  | fn (params : List String) (body : List Expr) (pos : Position)
  | define (name : String) (namePos : Position) (value : Expr) (pos : Position)

namespace Expr

instance : Inhabited Expr := ⟨.nil {}⟩

def pos : Expr → Position
  | .ident _ p | .number _ p | .string _ p | .bool _ p | .nil p | .operator _ p | .call _ p
  | .cond _ _ _ p | .fn _ _ p | .define _ _ _ p => p

/-! ## Moving -/

mutual

/-- An expression with every position changed by `f`. -/
def mapPos (f : Position → Position) : Expr → Expr
  | .ident name p => .ident name (f p)
  | .number x p => .number x (f p)
  | .string text p => .string text (f p)
  | .bool b p => .bool b (f p)
  | .nil p => .nil (f p)
  | .operator op p => .operator op (f p)
  | .call items p => .call (mapPosAll f items) (f p)
  | .cond test yes no p => .cond (mapPos f test) (mapPos f yes) (mapPos f no) (f p)
  | .fn params body p => .fn params (mapPosAll f body) (f p)
  | .define name namePos value p => .define name (f namePos) (mapPos f value) (f p)

def mapPosAll (f : Position → Position) : List Expr → List Expr
  | [] => []
  | e :: es => mapPos f e :: mapPosAll f es

end

/-- An expression with its positions forgotten. -/
def erase (e : Expr) : Expr := e.mapPos fun _ => {}

/-! ## Equality -/

mutual

/-- Equality of expressions, positions aside. -/
def same : Expr → Expr → Bool
  | .ident a _, .ident b _ => a == b
  | .number x _, .number y _ => x == y
  | .string a _, .string b _ => a == b
  | .bool a _, .bool b _ => a == b
  | .nil _, .nil _ => true
  | .operator a _, .operator b _ => a == b
  | .call as _, .call bs _ => sameAll as bs
  | .cond a₁ a₂ a₃ _, .cond b₁ b₂ b₃ _ => same a₁ b₁ && same a₂ b₂ && same a₃ b₃
  | .fn ps as _, .fn qs bs _ => ps == qs && sameAll as bs
  | .define a _ x _, .define b _ y _ => a == b && same x y
  | _, _ => false

def sameAll : List Expr → List Expr → Bool
  | [], [] => true
  | a :: as, b :: bs => same a b && sameAll as bs
  | _, _ => false

end

end Expr

end MiniLisp
