import MiniLisp.Value.Basic
import MiniLisp.Number.Text
/-!
# Inspect — the text of a value

This is how `print` and the command line show a value.  Strings stand between quotes
as they are; a function shows its name, or none.  A value is shown from the outside to the
inside, so showing it goes as deep as the value nests.
-/
namespace MiniLisp.Value

def functionChars (name : String) : List Char :=
  if name = "" then "<func>".toList else "<func ".toList ++ name.toList ++ ['>']

mutual

def chars : Value → List Char
  | .number x => Number.shown x
  | .string text => '"' :: text.toList ++ ['"']
  | .bool true => ['t', 'r', 'u', 'e']
  | .bool false => ['f', 'a', 'l', 's', 'e']
  | .nil => ['n', 'i', 'l']
  | .pair left right => '(' :: chars left ++ [' ', '.', ' '] ++ chars right ++ [')']
  | .list [] => ['[', ']']
  | .list (v :: vs) => '[' :: chars v ++ following vs ++ [']']
  | .map [] => ['\x7b', '\x7d']
  | .map ((key, v) :: es) =>
    '\x7b' :: '"' :: key.toList ++ ['"', ':', ' '] ++ chars v ++ followingEntries es ++ ['\x7d']
  | .function f => functionChars f.name

/-- Values with a space in front of each. -/
def following : List Value → List Char
  | [] => []
  | v :: vs => ' ' :: chars v ++ following vs

/-- Entries with a comma and a space in front of each. -/
def followingEntries : List (String × Value) → List Char
  | [] => []
  | (key, v) :: es =>
    ',' :: ' ' :: '"' :: key.toList ++ ['"', ':', ' '] ++ chars v ++ followingEntries es

end

def inspect (v : Value) : String := String.ofList v.chars

mutual

/-- How many steps are open at once while a value is shown: one for each value on the way into
it, and one more for the items of a list or a map. -/
def height : Value → Nat
  | .pair left right => max (height left) (height right) + 1
  | .list items => heightAll items + 2
  | .map entries => heightEntries entries + 2
  | .number _ | .string _ | .bool _ | .nil | .function _ => 1

def heightAll : List Value → Nat
  | [] => 0
  | v :: vs => max (height v) (heightAll vs)

def heightEntries : List (String × Value) → Nat
  | [] => 0
  | (_, v) :: es => max (height v) (heightEntries es)

end

end MiniLisp.Value
