/-!
# Built-in functions — their names

The root frame binds every built-in to its name, in the order of `all`.
-/
namespace MiniLisp

inductive Builtin where
  | concat
  | cons
  | car
  | cdr
  | and
  | or
  | not
  | strEq
  | list
  | listGet
  | listFilter
  | listMap
  | listReduce
  | len
  | map
  | mapGet
  | mapFilter
  | mapMap
  | mapReduce
  | mapKeys
  | mapValues
  | print
  deriving DecidableEq, Repr

namespace Builtin

def name : Builtin → String
  | .concat => "concat"
  | .cons => "cons"
  | .car => "car"
  | .cdr => "cdr"
  | .and => "and"
  | .or => "or"
  | .not => "not"
  | .strEq => "strEq"
  | .list => "list"
  | .listGet => "listGet"
  | .listFilter => "listFilter"
  | .listMap => "listMap"
  | .listReduce => "listReduce"
  | .len => "len"
  | .map => "map"
  | .mapGet => "mapGet"
  | .mapFilter => "mapFilter"
  | .mapMap => "mapMap"
  | .mapReduce => "mapReduce"
  | .mapKeys => "mapKeys"
  | .mapValues => "mapValues"
  | .print => "print"

def all : List Builtin :=
  [.concat, .cons, .car, .cdr, .and, .or, .not, .strEq, .list, .listGet, .listFilter, .listMap,
   .listReduce, .len, .map, .mapGet, .mapFilter, .mapMap, .mapReduce, .mapKeys, .mapValues, .print]

def ofName? (name : String) : Option Builtin := all.find? fun b => b.name == name

end Builtin

end MiniLisp
