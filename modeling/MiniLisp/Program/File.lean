import MiniLisp.Program.Parse
import MiniLisp.Text.Decode
import MiniLisp.Text.Quoted
/-!
# Programs in files

A file is decoded before anything in it is parsed, except that a file which is cut off inside a
character fails only where parsing reaches the cut.  The source name of its program is
its path.
-/
namespace MiniLisp

/-- What is found under a path. -/
inductive File where
  | missing
  | directory
  | content (bytes : List UInt8)

/-- Why no program was read from a file. -/
inductive FileError where
  | missing (path : String)
  | directory (path : String)
  | undecodable (cause : Text.DecodeError)
  | program (e : Error)

namespace FileError

def reason : Text.DecodeProblem → String
  | .invalidStart => "invalid start byte"
  | .invalidContinuation => "invalid continuation byte"
  | .cutOff => "unexpected end of data"

/-- The bytes that could not be decoded, by value if there is one and by position if more. -/
def bytesText (e : Text.DecodeError) : String :=
  match e.bytes with
  | [b] => "byte 0x" ++ String.ofList (Text.hex 2 b.toNat) ++ " in position " ++ toString e.pos
  | bytes =>
    "bytes in position " ++ toString e.pos ++ "-" ++ toString (e.pos + bytes.length - 1)

def message : FileError → String
  | .missing path => "[Errno 2] No such file or directory: " ++ Text.quoted path
  | .directory path => "[Errno 21] Is a directory: " ++ Text.quoted path
  | .undecodable e => "'utf-8' codec can't decode " ++ bytesText e ++ ": " ++ reason e.problem
  | .program e => e.message

end FileError

namespace Program

/-- The text in front of a cut.  A carriage return right before it still waits for a line
feed, and is lost. -/
def beforeCut (text : List Char) : List Char :=
  if text.getLast? = some '\r' then text.dropLast else text

/-- Parses a text that is cut off inside a character.  The cut is put into the text as a
forbidden character, and is reported if that is the one that parsing meets. -/
def parseCutOff (limit : Nat) (path : String) (text : List Char) (cut : Text.DecodeError) :
    Except FileError (List Expr) :=
  match parse limit path (String.ofList (text ++ ['\x00'])) with
  | .ok es => .ok es
  | .error (.forbidden cause) =>
    if text.any isForbidden then .error (.program (.forbidden cause))
    else .error (.undecodable cut)
  | .error e => .error (.program e)

/-- The expressions of a file. -/
def parseFile (limit : Nat) (path : String) : File → Except FileError (List Expr)
  | .missing => .error (.missing path)
  | .directory => .error (.directory path)
  | .content bytes =>
    match Text.decode bytes with
    | .error e => .error (.undecodable e)
    | .ok ⟨text, none⟩ =>
      (parse limit path (String.ofList (Text.joinLineEnds text))).mapError .program
    | .ok ⟨text, some cut⟩ => parseCutOff limit path (Text.joinLineEnds (beforeCut text)) cut

end Program

end MiniLisp
