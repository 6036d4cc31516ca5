import MiniLisp.Text.Digit
/-!
# Options — what the command line asks for

One file is named; options may stand before and after it.  A long option may be shortened to
any beginning that no other option shares, and takes its value after `=` or as the next
argument; the last value given counts.  After `--` everything is a name.

First every argument is classified by itself (`Argument.ofText?`); then the arguments are taken in
order (`Options.take`).  A version or help request is answered as soon as it is met, so
a mistake behind it does not matter, while one in front of it does if it leaves no way on.
-/
namespace MiniLisp

inductive CommandOption where
  | help
  | showVals
  | logLevel
  | version
  deriving DecidableEq, Repr

namespace CommandOption

def longNames : List (String × CommandOption) :=
  [("--help", .help), ("--show-vals", .showVals), ("--log-level", .logLevel), ("--version", .version)]

end CommandOption

/-! ## One argument -/

/-- What an argument is, taken by itself. -/
inductive Argument where
  | name (text : String)
  /-- The mark `--`. -/
  | separator
  | option (o : CommandOption) (value : Option String)
  /-- Short options in one argument, given by what follows their dash. -/
  | short (letters : List Char)
  | unknown
  deriving DecidableEq, Repr

namespace Argument

/-- What stands before the first `=`, and what after it, if there is one. -/
def splitValue (text : List Char) : List Char × Option (List Char) :=
  (text.takeWhile (· ≠ '='), match text.dropWhile (· ≠ '=') with
    | [] => none
    | _ :: value => some value)

/-- A minus sign before digits of any script, with at most one point before the last of them. -/
def isNegativeNumber : List Char → Bool
  | '-' :: text =>
    let text := if text.getLast? = some '\n' then text.dropLast else text
    let isDecimal := fun c => (Text.decimalValue? c).isSome
    match text.dropWhile isDecimal with
    | [] => !text.isEmpty
    | '.' :: fraction => !fraction.isEmpty && fraction.all isDecimal
    | _ => false
  | _ => false

/-- An argument with two dashes: an option by its name or the beginning of it.  `none` if
several options begin so. -/
def ofLong? (text : List Char) : Option Argument :=
  let (word, value) := splitValue text
  let value := value.map String.ofList
  match CommandOption.longNames.find? (fun entry => entry.1.toList == word) with
  | some (_, o) => some (.option o value)
  | none =>
    match CommandOption.longNames.filter (fun entry => word.isPrefixOf entry.1.toList) with
    | [] => some (if text.contains ' ' then .name (String.ofList text) else .unknown)
    | [(_, o)] => some (.option o value)
    | _ => none

/-- Negative numbers, texts with spaces, a lone dash and the empty text are names. -/
def ofText? (text : String) : Option Argument :=
  match text.toList with
  | '-' :: '-' :: [] => some .separator
  | '-' :: '-' :: rest => ofLong? ('-' :: '-' :: rest)
  | '-' :: 'h' :: rest => some (.short ('h' :: rest))
  | '-' :: c :: rest =>
    if isNegativeNumber ('-' :: c :: rest) || (c :: rest).contains ' ' then some (.name text)
    else some .unknown
  | _ => some (.name text)

/-- The arguments of a command line; `none` if one is ambiguous.  Behind the separator
nothing is classified. -/
def ofTexts? : List String → Option (List Argument)
  | [] => some []
  | text :: rest =>
    match ofText? text with
    | none => none
    | some .separator => some (.separator :: rest.map .name)
    | some a => (ofTexts? rest).map (a :: ·)

end Argument

/-! ## All arguments -/

structure Options where
  file : String
  showVals : Bool
  logLevel : Option String
  deriving DecidableEq, Repr

inductive Request where
  | run (o : Options)
  | version
  | help
  | invalid
  deriving DecidableEq, Repr

/-- The options taken so far. -/
structure Options.Partial where
  file : Option String := none
  showVals : Bool := false
  logLevel : Option String := none
  /-- Whether arguments were met that nothing takes. -/
  surplus : Bool := false
  deriving DecidableEq, Repr

namespace Options

/-- Letters behind a dash.  Each must be an `h`, which asks for help; an equals sign behind
the first is passed over if letters follow it. -/
def shortRequest (letters : List Char) : Request :=
  let letters := match letters with
    | 'h' :: '=' :: c :: rest => c :: rest
    | letters => letters
  if letters.all (· == 'h') then .help else .invalid

def Partial.finish (p : Partial) : Request :=
  match p.file with
  | some file => if p.surplus then .invalid else .run ⟨file, p.showVals, p.logLevel⟩
  | none => .invalid

/-- Takes the arguments in order.  A separator directly behind the file belongs to it; one
that comes later is surplus. -/
def take : Partial → List Argument → Request
  | p, [] => p.finish
  | p, .name file :: .separator :: rest =>
    match p.file with
    | none => { p with file := some file, surplus := p.surplus || !rest.isEmpty }.finish
    | some _ => Request.invalid
  | p, .name file :: rest =>
    match p.file with
    | none => take { p with file := some file } rest
    | some _ => take { p with surplus := true } rest
  | p, .separator :: .name file :: rest =>
    match p.file with
    | none => { p with file := some file, surplus := p.surplus || !rest.isEmpty }.finish
    | some _ => .invalid
  | _, .separator :: _ => .invalid
  | p, .option .logLevel (some value) :: rest => take { p with logLevel := some value } rest
  | p, .option .logLevel none :: .name value :: rest => take { p with logLevel := some value } rest
  | _, .option .logLevel none :: _ => .invalid
  | p, .option .showVals none :: rest => take { p with showVals := true } rest
  | _, .option .version none :: _ => .version
  | _, .option .help none :: _ => .help
  | _, .option _ (some _) :: _ => .invalid
  | _, .short letters :: _ => shortRequest letters
  | p, .unknown :: rest => take { p with surplus := true } rest

/-- What a command line asks for. -/
def request (argv : List String) : Request :=
  match Argument.ofTexts? argv with
  | some arguments => take {} arguments
  | none => .invalid

end Options

end MiniLisp
