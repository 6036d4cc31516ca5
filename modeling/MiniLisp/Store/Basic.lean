import MiniLisp.Error.Basic
import MiniLisp.Value.Basic
/-!
# Store — frames of bindings

A frame binds names to values and knows the frames around it, the nearest first, so its
chain of scopes is a list and ends.  Frames are created inside frames that already exist,
and are never removed; a binding is only ever made in a frame itself, which shadows the
frames around it.  The root frame holds the built-ins and is read-only.
-/
namespace MiniLisp

structure Frame where
  bindings : Entries Value
  /-- The frames around this one, from the nearest to the outermost. -/
  outer : List FrameId
  readOnly : Bool

structure Store where
  frames : Array Frame

namespace Store

/-! ## Looking names up -/

def frame? (s : Store) (id : FrameId) : Option Frame := s.frames[id]?

def bindings (s : Store) (id : FrameId) : Entries Value :=
  match s.frame? id with
  | some f => f.bindings
  | none => []

def outer (s : Store) (id : FrameId) : List FrameId :=
  match s.frame? id with
  | some f => f.outer
  | none => []

/-- A frame and the frames around it. -/
def chain (s : Store) (id : FrameId) : List FrameId := id :: s.outer id

/-- The nearest frame on the chain that binds a name. -/
def find? (s : Store) (id : FrameId) (name : String) : Option FrameId :=
  (s.chain id).find? fun f => (s.bindings f).binds name

/-- The value of a name; nil if it is unbound. -/
def lookup (s : Store) (id : FrameId) (name : String) : Value :=
  match s.find? id name with
  | some f => ((s.bindings f).get? name).getD .nil
  | none => .nil

/-! ## Changing the store -/

/-- A new frame, which gets the next number. -/
def push (s : Store) (f : Frame) : FrameId × Store := (s.frames.size, ⟨s.frames.push f⟩)

/-- A new outermost frame. -/
def create (s : Store) (bindings : Entries Value) (readOnly : Bool) : FrameId × Store :=
  s.push ⟨bindings, [], readOnly⟩

/-- A new frame inside another. -/
def child (s : Store) (id : FrameId) (bindings : Entries Value) : FrameId × Store :=
  s.push ⟨bindings, s.chain id, false⟩

def readOnly (s : Store) (id : FrameId) : Bool :=
  match s.frame? id with
  | some f => f.readOnly
  | none => false

/-- The store with a binding in the frame itself. -/
def bind (s : Store) (id : FrameId) (name : String) (v : Value) : Store :=
  ⟨s.frames.modify id fun f => { f with bindings := f.bindings.insert name v }⟩

/-- Binds a name in a frame, unless the frame is read-only. -/
def define (s : Store) (id : FrameId) (name : String) (v : Value) : Except Error Store :=
  if s.readOnly id then .error (.readOnly name) else .ok (s.bind id name v)

/-! ## The root -/

def rootFrame : Frame where
  bindings := Builtin.all.map fun b => (b.name, .function (.builtin b))
  outer := []
  readOnly := true

def root : FrameId := 0

/-- The store with nothing but the built-ins. -/
def initial : Store := ⟨#[rootFrame]⟩

end Store

end MiniLisp
