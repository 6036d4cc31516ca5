import MiniLisp.Arguments.Basic
/-!
# Mapper — reads that record their failure

A mapper performs reads one by one and keeps what they return.  The first failure is recorded,
and from then on no read fetches anything; `complete` answers with the failure, or with
the results so far.
-/
namespace MiniLisp

/-- What a mapper can be asked to read; no kind means any value. -/
inductive Read where
  | one (kind : Option Kind)
  | optional
  | rest (kind : Option Kind)
  deriving DecidableEq, Repr

inductive ReadResult where
  | one (v : Option Value)
  | all (vs : List Value)

structure Mapper (α : Type) where
  args : Arguments α
  err : Option Error
  results : List ReadResult

namespace Mapper

def ofArguments (fn : String) (args : List α) : Mapper α := ⟨⟨fn, 0, args⟩, none, []⟩

def expected : Option Kind → Expected Value
  | none => .any
  | some k => .ofKind k

variable {m : Type → Type} [Monad m] (fetch : α → m (Except Error Value))

def reading : Read → Reading m α ReadResult
  | .one kind => return .one (some (← Arguments.one fetch (expected kind)))
  | .optional => return .one (← Arguments.next? fetch)
  | .rest kind => return .all (← Arguments.rest fetch (expected kind))

/-- Performs a read, unless one has failed. -/
def attempt (s : Mapper α) (reading : Reading m α β) : m (Option β × Mapper α) :=
  match s.err with
  | some _ => pure (none, s)
  | none => do
    match ← reading s.args with
    | (.ok b, args) => pure (some b, { s with args := args })
    | (.error e, args) => pure (none, { s with args := args, err := some e })

def read (s : Mapper α) (r : Read) : m (Mapper α) := do
  match ← s.attempt (reading fetch r) with
  | (some result, s) => pure { s with results := s.results ++ [result] }
  | (none, s) => pure s

/-- The results so far, in the order of the reads, or the failure. -/
def complete (s : Mapper α) : m (Except Error (List ReadResult) × Mapper α) := do
  let (_, s) ← s.attempt (Arguments.complete fetch)
  match s.err with
  | some e => pure (.error e, s)
  | none => pure (.ok s.results, s)

end Mapper

end MiniLisp
