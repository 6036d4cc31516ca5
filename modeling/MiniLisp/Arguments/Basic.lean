import MiniLisp.Error.Basic
import MiniLisp.Value.Basic
/-!
# Arguments — reading what a function was called with

A built-in says what it takes as a sequence of reads: one argument of some kind, one that may be
missing, or all that are left.  The first argument that does not fit ends the reading
with an error that names its position, and `complete` refuses arguments that nobody read.

Arguments are **fetched** one at a time, only when a read asks for them.  Where they are values
already, fetching is free; where they are expressions, fetching evaluates them, in a monad
of its own, and can fail.
-/
namespace MiniLisp

structure Arguments (α : Type) where
  fn : String
  /-- How many arguments have been fetched. -/
  index : Nat
  pending : List α

/-- A read: its failure leaves the arguments where they were. -/
abbrev Reading (m : Type → Type) (α : Type) := ExceptT Error (StateT (Arguments α) m)

/-- What a read asks of a value: how errors call it, and how to take it apart. -/
structure Expected (β : Type) where
  label : String
  view : Value → Option β

namespace Expected

def any : Expected Value := ⟨"value", some⟩

/-- Any value of a kind. -/
def ofKind (k : Kind) : Expected Value := ⟨k.name, fun v => if v.kind = k then some v else none⟩

def number : Expected Float := ⟨Kind.number.name, Value.number?⟩

def string : Expected String := ⟨Kind.string.name, Value.string?⟩

def bool : Expected Bool := ⟨Kind.bool.name, Value.bool?⟩

def pair : Expected (Value × Value) := ⟨Kind.pair.name, Value.pair?⟩

def list : Expected (List Value) := ⟨Kind.list.name, Value.list?⟩

def map : Expected (Entries Value) := ⟨Kind.map.name, Value.map?⟩

def function : Expected Function := ⟨Kind.function.name, Value.function?⟩

end Expected

namespace Arguments

variable {m : Type → Type} [Monad m] (fetch : α → m (Except Error Value))

/-! ## Reads -/

/-- The next argument, if there is one. -/
def next? : Reading m α (Option Value) := fun s =>
  match s.pending with
  | [] => pure (.ok none, s)
  | a :: rest => do
    match ← fetch a with
    | .ok v => pure (.ok (some v), { s with index := s.index + 1, pending := rest })
    | .error e => pure (.error e, { s with pending := rest })

/-- The next argument, which must be there and as expected. -/
def one (expected : Expected β) : Reading m α β := do
  match ← next? fetch with
  | none => do
    let s ← get
    throw (.argument s.fn s.index (.missing expected.label))
  | some v =>
    match expected.view v with
    | some b => pure b
    | none => do
      let s ← get
      throw (.argument s.fn (s.index - 1) (.mismatch expected.label v.kind))

/-- All of `pending`, each as expected, from position `index` on. -/
def restFrom (expected : Expected β) (fn : String) :
    Nat → List α → m (Except Error (List β) × Arguments α)
  | index, [] => pure (.ok [], ⟨fn, index, []⟩)
  | index, a :: rest => do
    match ← fetch a with
    | .error e => pure (.error e, ⟨fn, index, rest⟩)
    | .ok v =>
      match expected.view v with
      | none =>
        pure (.error (.argument fn index (.mismatch expected.label v.kind)), ⟨fn, index + 1, rest⟩)
      | some b => do
        let (bs, s) ← restFrom expected fn (index + 1) rest
        pure (bs.map (b :: ·), s)

/-- All arguments that are left, each as expected. -/
def rest (expected : Expected β) : Reading m α (List β) := fun s =>
  restFrom fetch expected s.fn s.index s.pending

/-- The end of the arguments. -/
def complete : Reading m α Unit := do
  match ← next? fetch with
  | none => pure ()
  | some _ => do
    let s ← get
    throw (.argument s.fn (s.index - 1) .surplus)

end Arguments

/-! ## Reading values -/

/-- Reads of arguments that are values. -/
abbrev ValueReading := Reading Id Value

namespace ValueReading

/-- A value is fetched as it is. -/
def fetch (v : Value) : Id (Except Error Value) := .ok v

def one (expected : Expected β) : ValueReading β := Arguments.one fetch expected

def optional : ValueReading (Option Value) := Arguments.next? fetch

def rest (expected : Expected β) : ValueReading (List β) := Arguments.rest fetch expected

/-- What a reading makes of all the arguments of a call. -/
def read (fn : String) (args : List Value) (reading : ValueReading β) : Except Error β :=
  ((do
    let b ← reading
    Arguments.complete fetch
    pure b : ValueReading β).run.run ⟨fn, 0, args⟩).run.1

end ValueReading

end MiniLisp
