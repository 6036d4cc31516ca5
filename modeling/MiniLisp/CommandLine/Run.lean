import MiniLisp.CommandLine.Options
import MiniLisp.Expr.Code
import MiniLisp.Interpreter
import MiniLisp.Settings
/-!
# The command line

`CommandLine.outcome` is everything a run of the command does: its exit status and what it
writes.  A program that does not parse is not run at all.  Otherwise its expressions are
evaluated one by one, and each value is shown if that is asked for and it is not nil.
Errors and, on request, progress are logged, if the level in force admits them.
-/
namespace MiniLisp

/-- What a run of the command has done. -/
structure Outcome where
  status : Nat
  stdout : String
  /-- Nothing if the run ended before logging was set up. -/
  stderr : Option String
  deriving DecidableEq, Repr

namespace Outcome

/-- An outcome with text written in front of it. -/
def behind (stdout stderr : String) (o : Outcome) : Outcome :=
  { o with stdout := stdout ++ o.stdout, stderr := some (stderr ++ o.stderr.getD "") }

end Outcome

namespace CommandLine

def programName : String := "glisp"

def version : String := "0.1.0"

def help : String :=
  "usage: glisp [-h] [--show-vals] [--log-level LOG_LEVEL] [--version] file\n\n" ++
  "Run a glisp source file\n\n" ++
  "positional arguments:\n" ++
  "  file                  glisp source file to run\n\n" ++
  "options:\n" ++
  "  -h, --help            show this help message and exit\n" ++
  "  --show-vals           print the value of every top-level expression that is\n" ++
  "                        not nil\n" ++
  "  --log-level LOG_LEVEL\n" ++
  "                        logging level (default: $GLISP_LOG_LEVEL or WARNING)\n" ++
  "  --version             show program's version number and exit\n"

/-! ## Logging -/

def interpreterLogger : String := "Interpreter"

/-- A line of the log, if the level in force admits it. -/
def logged (inForce : LogLevel) (logger : String) (level : LogLevel) (text : String) : String :=
  if inForce.severity ≤ level.severity then logger ++ ": " ++ level.label ++ ": " ++ text ++ "\n" else ""

/-- The level that the command line names, or else that of the environment. -/
def levelInForce (env : Environment) (named : Option String) : LogLevel :=
  (named.bind fun text => LogLevel.ofText? text.toList).getD (Settings.logLevel env)

/-! ## Running a program -/

/-- What to run, and how. -/
structure Job where
  path : String
  showVals : Bool
  level : LogLevel

/-- What is shown of a value: nothing of nil. -/
def shown (showVals : Bool) (v : Value) : String :=
  match v with
  | .nil => ""
  | v => if showVals then v.inspect ++ "\n" else ""

def printedText (m : Machine) : String := "".intercalate m.printed.toList

/-- Evaluates the expressions of a program one by one. -/
def evaluate (job : Job) (i : Interpreter) : Machine → List Expr → Outcome
  | _, [] => ⟨0, "", some ""⟩
  | m, e :: es =>
    let log := logged job.level interpreterLogger .debug ("evaluating " ++ e.code)
    match i.evalExpr e { m with printed := #[] } with
    | .ok v m => (evaluate job i m es).behind (printedText m ++ shown job.showVals v) log
    | .error error m =>
      ⟨1, printedText m, some (log ++ logged job.level programName .error
        ("Execution error in '" ++ job.path ++ "': " ++ error.message))⟩

/-- Parses and evaluates a file. -/
def runFile (job : Job) (limit : Nat) (file : File) : Outcome :=
  let (i, m) := Interpreter.create limit .initial
  match i.parseFile job.path file with
  | .error error =>
    ⟨1, "", some (logged job.level programName .error
      ("Parse error in '" ++ job.path ++ "': " ++ error.message))⟩
  | .ok es =>
    let log := logged job.level interpreterLogger .debug
      ("parsed " ++ toString es.length ++ " expressions from " ++ job.path)
    (evaluate job i m es).behind "" log

def run (env : Environment) (files : String → File) (o : Options) : Outcome :=
  let level := levelInForce env o.logLevel
  let limit? := Settings.recursionLimit? env
  let log := match limit? with
    | some n => logged level interpreterLogger .debug ("setting recursion limit to " ++ toString n)
    | none => ""
  let job : Job := ⟨o.file, o.showVals || Settings.showVals env, level⟩
  (runFile job (limit?.getD Interpreter.defaultLimit) (files o.file)).behind "" log

/-- What the command does with its arguments. -/
def outcome (env : Environment) (files : String → File) (argv : List String) : Outcome :=
  match Options.request argv with
  | .run o => run env files o
  | .version => ⟨0, programName ++ " " ++ version ++ "\n", none⟩
  | .help => ⟨0, help, none⟩
  | .invalid => ⟨2, "", none⟩

end CommandLine

end MiniLisp
