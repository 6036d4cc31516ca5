import MiniLisp.Arguments.Basic
import MiniLisp.Number.Binary
/-!
# Built-ins on data

These built-ins compute a value from their arguments alone: booleans, strings, pairs, lists
and maps.
-/
namespace MiniLisp.Builtin

open ValueReading (one optional rest read)

/-! ## Booleans -/

def conjunction (args : List Value) : Except Error Value :=
  read and.name args do
    let first ← one .bool
    let others ← rest .bool
    return .bool ((first :: others).all id)

def disjunction (args : List Value) : Except Error Value :=
  read or.name args do
    let first ← one .bool
    let others ← rest .bool
    return .bool ((first :: others).any id)

def negation (args : List Value) : Except Error Value :=
  read not.name args do
    let b ← one .bool
    return .bool !b

/-! ## Strings and pairs -/

def concatenation (args : List Value) : Except Error Value :=
  read concat.name args do
    let texts ← rest .string
    return .string ("".intercalate texts)

def stringEquality (args : List Value) : Except Error Value :=
  read strEq.name args do
    let a ← one .string
    let b ← one .string
    return .bool (a == b)

/-- A slot that is not given is nil. -/
def pairOf (args : List Value) : Except Error Value :=
  read cons.name args do
    let left ← optional
    let right ← optional
    return .pair (left.getD .nil) (right.getD .nil)

def leftOf (args : List Value) : Except Error Value :=
  read car.name args do
    let (left, _) ← one .pair
    return left

def rightOf (args : List Value) : Except Error Value :=
  read cdr.name args do
    let (_, right) ← one .pair
    return right

/-! ## Lists -/

/-- The element at an index, which is rounded down to an integer. -/
def elementAt (items : List Value) (x : Float) : Except Error Value :=
  if Number.isFinite x then
    match Number.floor x with
    | .ofNat i =>
      match items[i]? with
      | some v => .ok v
      | none => .error (.indexOutOfBounds i items.length)
    | .negSucc i => .error (.indexOutOfBounds (.negSucc i) items.length)
  else .error (.indexNotFinite x)

def element (args : List Value) : Except Error Value := do
  let (items, x) ← read listGet.name args do
    let items ← one .list
    let x ← one .number
    return (items, x)
  elementAt items x

/-- The length of a list or a map, or of a string in characters. -/
def length (args : List Value) : Except Error Value := do
  match ← read len.name args (one .any) with
  | .list items => .ok (.number (Number.ofNat items.length))
  | .map entries => .ok (.number (Number.ofNat entries.length))
  | .string text => .ok (.number (Number.ofNat text.length))
  | v => .error (.argument len.name 0 (.noLength v.kind))

/-! ## Maps -/

/-- Entries from alternating keys and values, the first at position `index`. -/
def entriesOf (index : Nat) (entries : Entries Value) : List Value → Except Error (Entries Value)
  | .string key :: v :: rest => entriesOf (index + 2) (entries.insert key v) rest
  | key :: _ :: _ => .error (.argument map.name index (.keyNotString key.kind))
  | _ => .ok entries

def mapOf (args : List Value) : Except Error Value :=
  if args.length % 2 = 0 then return .map (← entriesOf 0 [] args)
  else .error (.argument map.name (args.length - 1) (.oddCount args.length))

/-- The value under a key, or nil. -/
def valueUnder (args : List Value) : Except Error Value :=
  read mapGet.name args do
    let entries ← one .map
    let key ← one .string
    return (entries.get? key).getD .nil

def keysOf (args : List Value) : Except Error Value :=
  read mapKeys.name args do
    let entries ← one .map
    return .list (entries.keys.map .string)

def valuesOf (args : List Value) : Except Error Value :=
  read mapValues.name args do
    let entries ← one .map
    return .list entries.values

end MiniLisp.Builtin
