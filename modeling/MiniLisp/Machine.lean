import MiniLisp.Store.Basic
/-!
# Machine — the state of an evaluation

Evaluation changes three things: the frames, what has been printed, and the marks that
tell functions apart.  It ends with a value or with a `Halt`, and the changes made so
far stay.  Running out of depth is not an error of the language: nothing inside an
evaluation can see it.
-/
namespace MiniLisp

structure Machine where
  store : Store
  /-- What each `print` has written. -/
  printed : Array String
  /-- The mark of the next new function. -/
  nextMark : Nat

inductive Halt where
  | failed (e : Error)
  | exhausted

abbrev EvalM := EStateM Halt Machine

namespace Machine

def initial : Machine := ⟨.initial, #[], 0⟩

end Machine

namespace EvalM

def fail (e : Error) : EvalM α := throw (.failed e)

def ofExcept : Except Error α → EvalM α
  | .ok a => pure a
  | .error e => fail e

def find? (frame : FrameId) (name : String) : EvalM (Option FrameId) :=
  return (← get).store.find? frame name

def lookup (frame : FrameId) (name : String) : EvalM Value :=
  return (← get).store.lookup frame name

def define (frame : FrameId) (name : String) (v : Value) : EvalM Unit := do
  if (← get).store.readOnly frame then fail (.readOnly name)
  else modify fun m => { m with store := m.store.bind frame name v }

/-- A new frame inside another, with its first bindings. -/
def newFrame (outer : FrameId) (bindings : Entries Value) : EvalM FrameId :=
  modifyGet fun m =>
    let (id, store) := m.store.child outer bindings
    (id, { m with store := store })

def newMark : EvalM Nat :=
  modifyGet fun m => (m.nextMark, { m with nextMark := m.nextMark + 1 })

def print (text : String) : EvalM Unit :=
  modify fun m => { m with printed := m.printed.push text }

/-- Defining a name in a machine is defining it in its store. -/
theorem define_eq (frame : FrameId) (name : String) (v : Value) (m : Machine) :
    define frame name v m = match m.store.define frame name v with
      | .ok store => .ok () { m with store := store }
      | .error e => .error (.failed e) m := by
  show (if m.store.readOnly frame then fail (.readOnly name)
    else modify fun m => { m with store := m.store.bind frame name v } : EvalM Unit) m = _
  unfold Store.define
  cases m.store.readOnly frame <;> rfl

end EvalM

end MiniLisp
