import MiniLisp.Eval
import MiniLisp.Program.File
/-!
# Interpreter — programs run one after another

An interpreter has a script frame of its own inside the root frame.  What `let` binds at the top
of a program is bound there, and later programs find it.  Several interpreters share a
machine.

A recursion limit bounds how deeply forms nest and how deeply evaluation does.  Here, and only
here, an evaluation that is exhausted becomes an error of the language, at the position
of its expression.
-/
namespace MiniLisp

structure Interpreter where
  frame : FrameId
  /-- The recursion limit: what its programs may nest, in units. -/
  limit : Nat

/-- Steps of an interpreter: what they have done before they fail stays done. -/
abbrev Session := EStateM Error Machine

namespace Interpreter

def defaultLimit : Nat := 1000

/-- How many forms may be open at once.  Each takes three units of the limit. -/
def maxForms (limit : Nat) : Nat := limit / 3

/-- How many activations may be nested.  Each takes two units of the limit. -/
def maxDepth (limit : Nat) : Nat := limit / 2

/-- A new interpreter, with an empty script frame. -/
def create (limit : Nat) (m : Machine) : Interpreter × Machine :=
  let (frame, store) := m.store.child Store.root []
  (⟨frame, limit⟩, { m with store := store })

def parse (i : Interpreter) (source text : String) : Except Error (List Expr) :=
  Program.parse (maxForms i.limit) source text

def parseFile (i : Interpreter) (path : String) (file : File) : Except FileError (List Expr) :=
  Program.parseFile (maxForms i.limit) path file

/-- Evaluates an expression in the script frame. -/
def evalExpr (i : Interpreter) (e : Expr) : Session Value := fun m =>
  match eval (maxDepth i.limit) i.frame e m with
  | .ok v m => .ok v m
  | .error (.failed error) m => .error error m
  | .error .exhausted m => .error (.recursionTooDeep e.pos) m

/-- Evaluates expressions in order; the first failure ends it. -/
def evalExprs (i : Interpreter) : List Expr → Session (List Value)
  | [] => pure []
  | e :: es => do
    let v ← i.evalExpr e
    let vs ← i.evalExprs es
    pure (v :: vs)

/-- The value of every expression of a program.  Nothing is evaluated unless all of it parses. -/
def evalAll (i : Interpreter) (source text : String) : Session (List Value) := fun m =>
  match i.parse source text with
  | .ok es => i.evalExprs es m
  | .error e => .error e m

/-- The value of the last expression of a program, nil for an empty one. -/
def evalLast (i : Interpreter) (source text : String) : Session Value := do
  let vs ← i.evalAll source text
  return vs.getLastD .nil

/-- The value of every expression of a file.  Nothing is evaluated unless all of it parses. -/
def evalFile (i : Interpreter) (path : String) (file : File) : EStateM FileError Machine (List Value) := fun m =>
  match i.parseFile path file with
  | .ok es =>
    match i.evalExprs es m with
    | .ok vs m => .ok vs m
    | .error e m => .error (.program e) m
  | .error e => .error e m

/-- The source name of a prelude. -/
def preludeSource : String := "<prelude>"

/-- A new interpreter that has evaluated a prelude. -/
def createWith (limit : Nat) (prelude? : Option String) : Session Interpreter := do
  let i ← modifyGet (create limit)
  match prelude? with
  | none => return i
  | some text => do
    let _ ← i.evalAll preludeSource text
    return i

end Interpreter

end MiniLisp
