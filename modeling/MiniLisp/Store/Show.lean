import MiniLisp.Store.Basic
import MiniLisp.Value.Inspect
/-!
# The text of a frame

A frame is shown with its bindings in order, and a mark if it has frames around it, or
in short by the number of its bindings and its distance from the outermost frame.
-/
namespace MiniLisp.Store

def bindingText (binding : String × Value) : String := binding.1 ++ ": " ++ binding.2.inspect

def text (s : Store) (id : FrameId) : String :=
  "\x7b" ++ ", ".intercalate ((s.bindings id).map bindingText) ++ "\x7d" ++
    (if (s.outer id).isEmpty then "" else " -> ...")

def summary (s : Store) (id : FrameId) : String :=
  "<Environment " ++ toString (s.bindings id).length ++ " bindings, depth " ++
    toString (s.outer id).length ++ ">"

end MiniLisp.Store
