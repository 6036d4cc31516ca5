/-!
# Kind — the kinds of value, as errors name them
-/
namespace MiniLisp

inductive Kind where
  | number
  | string
  | bool
  | nil
  | pair
  | list
  | map
  | function
  deriving DecidableEq, Repr

namespace Kind

def name : Kind → String
  | .number => "number"
  | .string => "string"
  | .bool => "bool"
  | .nil => "nil"
  | .pair => "pair"
  | .list => "list"
  | .map => "map"
  | .function => "function"

def all : List Kind := [.number, .string, .bool, .nil, .pair, .list, .map, .function]

end Kind

end MiniLisp
