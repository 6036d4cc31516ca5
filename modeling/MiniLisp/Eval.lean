import MiniLisp.Builtin.Number
import MiniLisp.Builtin.Run
/-!
# Evaluation

`eval` evaluates an expression in a frame, and `apply` applies a function to values.  Callee and
arguments are evaluated strictly from left to right.  A closure binds its parameters in a
new frame **inside the frame that it was created in**; the frame of the caller plays no
part in it.

Each activation of `eval` or `apply` uses one unit of depth.  At depth 0 the evaluation is
exhausted, and so it is where `print` is given a value that nests deeper than what is left.
-/
namespace MiniLisp

/-! ## The parts of a call -/

/-- An unbound name in place of a function has an error of its own. -/
def checkBound (frame : FrameId) : Expr → EvalM Unit
  | .ident name pos => do
    match ← EvalM.find? frame name with
    | some _ => pure ()
    | none => EvalM.fail (.undefinedFunction name pos)
  | _ => pure ()

/-- The function that a value in place of one is; `pos` is where it stands. -/
def asFunction (pos : Option Position) (v : Value) : Except Error Function :=
  match v with
  | .function f => .ok f
  | v => .error (.type .function v.kind pos)

/-- The frame of a call, with the parameters bound to the arguments. -/
def enter (c : Closure) (args : List Value) : EvalM FrameId :=
  if args.length = c.params.length then
    EvalM.newFrame c.frame (Entries.ofPairs (c.params.zip args))
  else EvalM.fail (.argumentCount c.params.length args.length c.pos)

/-- The value of the last of some expressions, nil if there is none. -/
def lastValue (evalOne : Expr → EvalM Value) : Value → List Expr → EvalM Value
  | last, [] => pure last
  | _, e :: es => do lastValue evalOne (← evalOne e) es

/-! ## Expressions and applications -/

mutual

def eval : Nat → FrameId → Expr → EvalM Value
  | 0, _, _ => throw .exhausted
  | depth + 1, frame, e =>
    match e with
    | .number x _ => return .number x
    | .string text _ => return .string text
    | .bool b _ => return .bool b
    | .nil _ => return .nil
    | .operator op _ => return .function (.operator op (← EvalM.newMark))
    | .ident name _ => EvalM.lookup frame name
    | .call [] _ => return .nil
    | .call (head :: args) _ => do
      checkBound frame head
      let f ← EvalM.ofExcept (asFunction head.pos (← eval depth frame head))
      let values ← Builtin.mapItems (eval depth frame) args
      apply depth frame f values
    | .cond test yes no _ => do
      match ← eval depth frame test with
      | .bool true => eval depth frame yes
      | .bool false => eval depth frame no
      | v => EvalM.fail (.type .bool v.kind test.pos)
    | .fn params body pos => return .function (.closure ⟨← EvalM.newMark, frame, params, body, pos⟩)
    | .define name _ value _ => do
      let v ← eval depth frame value
      EvalM.define frame name v
      return v

/-- Applies a function that is called from the frame `caller`. -/
def apply : Nat → FrameId → Function → List Value → EvalM Value
  | 0, _, _, _ => throw .exhausted
  | depth + 1, caller, f, args =>
    match f with
    | .builtin b => if b.fits depth args then b.run (apply depth caller) args else throw .exhausted
    | .operator op _ => EvalM.ofExcept (op.apply args)
    | .closure c => do
      let frame ← enter c args
      lastValue (eval depth frame) .nil c.body

end

/-- Applies a value, which must be a function. -/
def applyValue (depth : Nat) (caller : FrameId) (head : Value) (args : List Value) : EvalM Value := do
  let f ← EvalM.ofExcept (asFunction none head)
  apply depth caller f args

/-- Fetches an argument by evaluating its expression.  An error of the language is the
answer; exhaustion is not. -/
def fetchExpr (depth : Nat) (frame : FrameId) (e : Expr) : EvalM (Except Error Value) := fun m =>
  match eval depth frame e m with
  | .ok v m => .ok (.ok v) m
  | .error (.failed error) m => .ok (.error error) m
  | .error .exhausted m => .error .exhausted m

end MiniLisp
