/-!
# Entries — an association in insertion order

Keys are looked up in a list of pairs.  Inserting a key that is already there changes its
value and keeps its place; a new key comes last.  Built by `insert` alone, the keys are
distinct.
-/
namespace MiniLisp

abbrev Entries (α : Type) := List (String × α)

namespace Entries

def get? : Entries α → String → Option α
  | [], _ => none
  | (k, v) :: rest, key => if k = key then some v else get? rest key

def insert : Entries α → String → α → Entries α
  | [], key, value => [(key, value)]
  | (k, v) :: rest, key, value =>
    if k = key then (k, value) :: rest else (k, v) :: insert rest key value

def binds (es : Entries α) (key : String) : Bool := (es.get? key).isSome

def keys (es : Entries α) : List String := es.map Prod.fst

def values (es : Entries α) : List α := es.map Prod.snd

/-- The pairs inserted one after another. -/
def ofPairs (pairs : List (String × α)) : Entries α :=
  pairs.foldl (fun es (key, value) => es.insert key value) []

/-! ## Looking up after inserting -/

@[simp] theorem get?_insert_self (key : String) (value : α) :
    ∀ es : Entries α, (es.insert key value).get? key = some value
  | [] => by simp [insert, get?]
  | (k, v) :: rest => by
    unfold insert
    split <;> simp_all [get?, get?_insert_self key value rest]

theorem get?_insert_of_ne {key other : String} (value : α) (h : key ≠ other) :
    ∀ es : Entries α, (es.insert key value).get? other = es.get? other
  | [] => by simp [insert, get?, h]
  | (k, v) :: rest => by
    unfold insert
    split
    · simp_all [get?]
    · simp only [get?, get?_insert_of_ne value h rest]

theorem keys_insert (key : String) (value : α) :
    ∀ es : Entries α, (es.insert key value).keys =
      if key ∈ es.keys then es.keys else es.keys ++ [key]
  | [] => by simp [insert, keys]
  | (k, v) :: rest => by
    have ih := keys_insert key value rest
    unfold insert
    by_cases h : k = key
    · simp [h, keys]
    · have h' : key ≠ k := fun e => h e.symm
      simp only [keys] at ih
      simp only [h, if_false, keys, List.map_cons, ih, List.mem_cons, h', false_or]
      split <;> simp_all

end Entries

end MiniLisp
