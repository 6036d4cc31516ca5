import MiniLisp.Builtin.Basic
import MiniLisp.Expr.Basic
import MiniLisp.Value.Entries
import MiniLisp.Value.Kind
/-!
# Value — what expressions evaluate to

Values are data and functions.  A closure holds the frame that it was created in by its
number, so a value contains no frames, and equality of functions is identity: every
closure, and every operator that is evaluated, is a new function with its own mark.
-/
namespace MiniLisp

/-- A frame is known by its place in the store. -/
abbrev FrameId := Nat

structure Closure where
  mark : Nat
  frame : FrameId
  params : List String
  body : List Expr
  /-- The position of the `fn` form. -/
  pos : Position

inductive Function where
  | builtin (b : Builtin)
  | operator (op : Operator) (mark : Nat)
  | closure (c : Closure)

inductive Value where
  | number (x : Float)
  | string (text : String)
  | bool (b : Bool)
  | nil
  | pair (left right : Value)
  | list (items : List Value)
  | map (entries : List (String × Value))
  | function (f : Function)

namespace Function

/-- The name that a function shows; a closure has none. -/
def name : Function → String
  | .builtin b => b.name
  | .operator op _ => op.spelling
  | .closure _ => ""

/-- Whether two functions are one. -/
def same : Function → Function → Bool
  | .builtin a, .builtin b => a == b
  | .operator _ m, .operator _ n => m == n
  | .closure c, .closure d => c.mark == d.mark
  | _, _ => false

end Function

namespace Value

instance : Inhabited Value := ⟨.nil⟩

def kind : Value → Kind
  | .number _ => .number
  | .string _ => .string
  | .bool _ => .bool
  | .nil => .nil
  | .pair .. => .pair
  | .list _ => .list
  | .map _ => .map
  | .function _ => .function

/-! ## A value of one kind -/

def number? : Value → Option Float
  | .number x => some x
  | _ => none

def string? : Value → Option String
  | .string text => some text
  | _ => none

def bool? : Value → Option Bool
  | .bool b => some b
  | _ => none

def pair? : Value → Option (Value × Value)
  | .pair left right => some (left, right)
  | _ => none

def list? : Value → Option (List Value)
  | .list items => some items
  | _ => none

def map? : Value → Option (Entries Value)
  | .map entries => some entries
  | _ => none

def function? : Value → Option Function
  | .function f => some f
  | _ => none

/-! ## Equality -/

mutual

/-- Structural equality.  Numbers are compared as numbers, maps without regard to order,
functions by identity. -/
def same : Value → Value → Bool
  | .number x, .number y => x == y
  | .string a, .string b => a == b
  | .bool a, .bool b => a == b
  | .nil, .nil => true
  | .pair a b, .pair c d => same a c && same b d
  | .list as, .list bs => sameAll as bs
  | .map es, .map fs => es.length == fs.length && sameEntries es fs
  | .function f, .function g => f.same g
  | _, _ => false

def sameAll : List Value → List Value → Bool
  | [], [] => true
  | a :: as, b :: bs => same a b && sameAll as bs
  | _, _ => false

/-- Whether every entry has an equal one under its key among `others`. -/
def sameEntries : List (String × Value) → Entries Value → Bool
  | [], _ => true
  | (key, v) :: rest, others =>
    (match others.get? key with
      | some w => same v w
      | none => false) && sameEntries rest others

end

end Value

end MiniLisp
