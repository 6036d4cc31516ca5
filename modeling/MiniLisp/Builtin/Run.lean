import MiniLisp.Builtin.Data
import MiniLisp.Machine
import MiniLisp.Value.Inspect
/-!
# Running a built-in

The higher-order built-ins call a function once for each element, in order, and stop at
the first call that fails.  They do not know what a call is: it is given to them.
-/
namespace MiniLisp.Builtin

open ValueReading (one rest read)

/-- The verdict of a filter: true keeps, false and nil drop. -/
def verdict : Value → Except Error Bool
  | .nil => .ok false
  | .bool b => .ok b
  | v => .error (.type .bool v.kind none)

/-! ## Walking through elements -/

/-- The elements for which a call answers true. -/
def filterItems (call : α → EvalM Value) : List α → EvalM (List α)
  | [] => pure []
  | a :: rest => do
    let keep ← EvalM.ofExcept (verdict (← call a))
    let kept ← filterItems call rest
    pure (if keep then a :: kept else kept)

/-- The answers of a call, element by element. -/
def mapItems (call : α → EvalM β) : List α → EvalM (List β)
  | [] => pure []
  | a :: rest => do
    let b ← call a
    let bs ← mapItems call rest
    pure (b :: bs)

/-- The last answer of a call that is given the answer before it. -/
def foldItems (call : Value → α → EvalM Value) : Value → List α → EvalM Value
  | acc, [] => pure acc
  | acc, a :: rest => do foldItems call (← call acc a) rest

/-! ## The higher-order built-ins -/

variable (call : Function → List Value → EvalM Value)

def filterList (args : List Value) : EvalM Value := do
  let (items, f) ← EvalM.ofExcept <| read listFilter.name args do
    let items ← one .list
    let f ← one .function
    return (items, f)
  return .list (← filterItems (fun v => call f [v]) items)

def mapList (args : List Value) : EvalM Value := do
  let (items, f) ← EvalM.ofExcept <| read listMap.name args do
    let items ← one .list
    let f ← one .function
    return (items, f)
  return .list (← mapItems (fun v => call f [v]) items)

def reduceList (args : List Value) : EvalM Value := do
  let (acc, items, f) ← EvalM.ofExcept <| read listReduce.name args do
    let acc ← one .any
    let items ← one .list
    let f ← one .function
    return (acc, items, f)
  foldItems (fun acc v => call f [acc, v]) acc items

def filterEntries (args : List Value) : EvalM Value := do
  let (entries, f) ← EvalM.ofExcept <| read mapFilter.name args do
    let entries ← one .map
    let f ← one .function
    return (entries, f)
  return .map (← filterItems (fun (key, v) => call f [.string key, v]) entries)

def mapEntries (args : List Value) : EvalM Value := do
  let (entries, f) ← EvalM.ofExcept <| read mapMap.name args do
    let entries ← one .map
    let f ← one .function
    return (entries, f)
  return .map (← mapItems (fun (key, v) => return (key, ← call f [.string key, v])) entries)

def reduceEntries (args : List Value) : EvalM Value := do
  let (acc, entries, f) ← EvalM.ofExcept <| read mapReduce.name args do
    let acc ← one .any
    let entries ← one .map
    let f ← one .function
    return (acc, entries, f)
  foldItems (fun acc (key, v) => call f [acc, .string key, v]) acc entries

/-! ## All built-ins -/

/-- What `print` writes: the values with single spaces between them, on a line. -/
def line (args : List Value) : String := " ".intercalate (args.map Value.inspect) ++ "\n"

/-- Whether a depth is enough for what a built-in does itself.  `print` shows its arguments, and
each unit of depth is enough for two steps of that. -/
def fits (depth : Nat) : Builtin → List Value → Bool
  | .print, args => args.all fun v => v.height ≤ 2 * depth
  | _, _ => true

def run (b : Builtin) (args : List Value) : EvalM Value :=
  match b with
  | .concat => EvalM.ofExcept (concatenation args)
  | .cons => EvalM.ofExcept (pairOf args)
  | .car => EvalM.ofExcept (leftOf args)
  | .cdr => EvalM.ofExcept (rightOf args)
  | .and => EvalM.ofExcept (conjunction args)
  | .or => EvalM.ofExcept (disjunction args)
  | .not => EvalM.ofExcept (negation args)
  | .strEq => EvalM.ofExcept (stringEquality args)
  | .list => return .list args
  | .listGet => EvalM.ofExcept (element args)
  | .listFilter => filterList call args
  | .listMap => mapList call args
  | .listReduce => reduceList call args
  | .len => EvalM.ofExcept (length args)
  | .map => EvalM.ofExcept (mapOf args)
  | .mapGet => EvalM.ofExcept (valueUnder args)
  | .mapFilter => filterEntries call args
  | .mapMap => mapEntries call args
  | .mapReduce => reduceEntries call args
  | .mapKeys => EvalM.ofExcept (keysOf args)
  | .mapValues => EvalM.ofExcept (valuesOf args)
  | .print => do
    EvalM.print (line args)
    return .nil

end MiniLisp.Builtin
