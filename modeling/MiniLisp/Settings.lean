import MiniLisp.Text.Blank
import MiniLisp.Text.Digit
/-!
# Settings — what the environment decides

Three variables set whether values are shown, how much is logged, and how deep programs may
nest.  Blanks around a setting do not count, and a setting that cannot be read is ignored.
-/
namespace MiniLisp

inductive LogLevel where
  | notset
  | debug
  | info
  | warning
  | error
  | critical
  deriving DecidableEq, Repr

namespace LogLevel

def severity : LogLevel → Nat
  | .notset => 0
  | .debug => 10
  | .info => 20
  | .warning => 30
  | .error => 40
  | .critical => 50

def label : LogLevel → String
  | .notset => "NOTSET"
  | .debug => "DEBUG"
  | .info => "INFO"
  | .warning => "WARNING"
  | .error => "ERROR"
  | .critical => "CRITICAL"

/-- A level by its name in capitals.  Two levels have a second name. -/
def ofName? : String → Option LogLevel
  | "NOTSET" => some .notset
  | "DEBUG" => some .debug
  | "INFO" => some .info
  | "WARN" | "WARNING" => some .warning
  | "ERROR" => some .error
  | "CRITICAL" | "FATAL" => some .critical
  | _ => none

/-- The capital of a letter that can occur in the name of a level: the ASCII letters, and
the two others whose capitals are ASCII letters. -/
def capital (c : Char) : Char :=
  if c = '\u0131' then 'I' else if c = '\u017F' then 'S' else c.toUpper

/-- A level by its name in any case. -/
def ofText? (text : List Char) : Option LogLevel := ofName? (String.ofList (text.map capital))

end LogLevel

/-- The values of environment variables. -/
abbrev Environment := String → Option String

namespace Settings

def showValsVariable : String := "GLISP_SHOW_VALS"

def logLevelVariable : String := "GLISP_LOG_LEVEL"

def recursionLimitVariable : String := "GLISP_RECURSION_LIMIT"

/-! ## Reading one variable -/

/-- A variable without the blanks around it, if anything is left of it. -/
def trimmed? (env : Environment) (name : String) : Option (List Char) :=
  match (env name).map fun raw => Text.strip raw.toList with
  | none | some [] => none
  | some text => some text

/-- A switch: a few words turn it on, any other turns it off. -/
def flag (env : Environment) (name : String) (fallback : Bool) : Bool :=
  match trimmed? env name with
  | none => fallback
  | some text => ["1", "true", "yes", "on"].contains (String.ofList (text.map Char.toLower))

/-! ## Integers -/

/-- The values of digits, among which single underscores may stand. -/
def digitValues? : List Char → Option (List Nat)
  | [] => none
  | [c] => (Text.decimalValue? c).map ([·])
  | c :: '_' :: rest => do
    let d ← Text.decimalValue? c
    return d :: (← digitValues? rest)
  | c :: rest => do
    let d ← Text.decimalValue? c
    return d :: (← digitValues? rest)

/-- Integers with more digits than this are not read. -/
def maxDigits : Nat := 4300

def natural? (text : List Char) : Option Nat := do
  let digits ← digitValues? text
  if digits.length ≤ maxDigits then some (digits.foldl (fun n d => 10 * n + d) 0) else none

def integer? : List Char → Option Int
  | '-' :: text => (natural? text).map fun n => -(n : Int)
  | '+' :: text => (natural? text).map Int.ofNat
  | text => (natural? text).map Int.ofNat

/-- A variable that holds an integer, in decimal digits of any script. -/
def int? (env : Environment) (name : String) : Option Int :=
  (trimmed? env name).bind integer?

/-! ## The settings -/

def showVals (env : Environment) : Bool := flag env showValsVariable false

def logLevel (env : Environment) : LogLevel :=
  ((trimmed? env logLevelVariable).bind LogLevel.ofText?).getD .warning

/-- The limit that is set, if it is positive. -/
def recursionLimit? (env : Environment) : Option Nat :=
  match int? env recursionLimitVariable with
  | some (.ofNat (n + 1)) => some (n + 1)
  | _ => none

end Settings

end MiniLisp
