import MiniLisp.Proofs.Store.Bound
/-!
# Added — a binding in front of the others

A store with one more binding, in front of the others of a frame, looks up every other name alike (`lookup_added`), and
goes on alike: binding another name, or creating a frame, comes to the same before and after the binding is added.
-/
namespace MiniLisp

/-- A frame with one more binding in front. -/
def Frame.added (name : String) (v : Value) (f : Frame) : Frame := { f with bindings := (name, v) :: f.bindings }

namespace Store

/-- **A store with one more binding**, in front of the others of a frame. -/
def added (S : FrameId) (name : String) (v : Value) (s : Store) : Store := ⟨s.frames.modify S (Frame.added name v)⟩

variable {s t : Store} {S F G : FrameId} {name other : String} {v w : Value} {es : Entries Value}

theorem ext_frame? (h : ∀ F, s.frame? F = t.frame? F) : s = t := congrArg Store.mk (Array.ext_getElem? h)

/-! ## Frames -/

theorem size_added : (s.added S name v).frames.size = s.frames.size := Array.size_modify

theorem frame?_added_self : (s.added S name v).frame? S = (s.frame? S).map (Frame.added name v) := by
  unfold frame? added
  rw [Array.getElem?_modify, if_pos rfl]

theorem frame?_added_of_ne (h : F ≠ S) : (s.added S name v).frame? F = s.frame? F := by
  unfold frame? added
  rw [Array.getElem?_modify, if_neg fun e => h e.symm]

/-- A frame has the frames around it, and the bindings of other names, that it had before. -/
theorem frame?_added_cases (S : FrameId) (name : String) (v : Value) (s : Store) (F : FrameId) :
    ((s.added S name v).frame? F = none ∧ s.frame? F = none) ∨
    ∃ f g, (s.added S name v).frame? F = some g ∧ s.frame? F = some f ∧ g.outer = f.outer ∧
      g.readOnly = f.readOnly ∧ ∀ other, name ≠ other → g.bindings.get? other = f.bindings.get? other := by
  by_cases h : F = S
  · subst h
    rw [frame?_added_self]
    cases s.frame? F with
    | none => exact .inl ⟨rfl, rfl⟩
    | some f => exact .inr ⟨f, f.added name v, rfl, rfl, rfl, rfl, fun _ hne => if_neg hne⟩
  · rw [frame?_added_of_ne h]
    cases s.frame? F with
    | none => exact .inl ⟨rfl, rfl⟩
    | some f => exact .inr ⟨f, f, rfl, rfl, rfl, rfl, fun _ _ => rfl⟩

theorem chain_added : (s.added S name v).chain F = s.chain F := by
  unfold Store.chain Store.outer
  rcases frame?_added_cases S name v s F with ⟨h', h⟩ | ⟨f, g, h', h, houter, -, -⟩
  · rw [h', h]
  · rw [h', h]
    exact congrArg _ houter

theorem readOnly_added : (s.added S name v).readOnly F = s.readOnly F := by
  unfold Store.readOnly
  rcases frame?_added_cases S name v s F with ⟨h', h⟩ | ⟨f, g, h', h, -, hreadOnly, -⟩
  · rw [h', h]
  · rw [h', h]
    exact hreadOnly

/-! ## Other names -/

theorem get?_added (h : name ≠ other) (F : FrameId) :
    ((s.added S name v).bindings F).get? other = (s.bindings F).get? other := by
  unfold Store.bindings
  rcases frame?_added_cases S name v s F with ⟨h', hF⟩ | ⟨f, g, h', hF, -, -, hget⟩
  · rw [h', hF]
  · rw [h', hF]
    exact hget other h

theorem find?_added (h : name ≠ other) (F : FrameId) : (s.added S name v).find? F other = s.find? F other := by
  unfold Store.find? Entries.binds
  simp only [chain_added, get?_added h]

/-- **Every other name has the value that it had.** -/
theorem lookup_added (h : name ≠ other) (F : FrameId) : (s.added S name v).lookup F other = s.lookup F other := by
  unfold Store.lookup
  simp only [find?_added h, get?_added h]

/-! ## What happens afterwards -/

theorem added_bind (h : name ≠ other) : (s.bind F other w).added S name v = (s.added S name v).bind F other w := by
  refine ext_frame? fun G => ?_
  by_cases hS : G = S <;> by_cases hF : G = F
  · subst hS hF
    rw [frame?_added_self, frame?_bind_self, frame?_bind_self, frame?_added_self, Option.map_map, Option.map_map]
    refine congrArg (Option.map · _) (funext fun f => ?_)
    show Frame.mk ((name, v) :: f.bindings.insert other w) f.outer f.readOnly =
      Frame.mk (Entries.insert ((name, v) :: f.bindings) other w) f.outer f.readOnly
    rw [Entries.insert, if_neg h]
  · subst hS
    rw [frame?_added_self, frame?_bind_of_ne hF, frame?_bind_of_ne hF, frame?_added_self]
  · subst hF
    rw [frame?_added_of_ne hS, frame?_bind_self, frame?_bind_self, frame?_added_of_ne hS]
  · rw [frame?_added_of_ne hS, frame?_bind_of_ne hF, frame?_bind_of_ne hF, frame?_added_of_ne hS]

theorem added_child (hS : S < s.frames.size) :
    (s.child F es).2.added S name v = ((s.added S name v).child F es).2 := by
  refine ext_frame? fun G => ?_
  by_cases hnew : G = s.frames.size
  · subst hnew
    have hself : ((s.added S name v).child F es).2.frame? (s.added S name v).frames.size = _ := frame?_child_self
    rw [size_added, chain_added] at hself
    rw [frame?_added_of_ne (Nat.ne_of_gt hS), frame?_child_self, hself]
  · have hnew' : G ≠ (s.added S name v).frames.size := by rwa [size_added]
    rw [frame?_child_of_ne hnew']
    by_cases hG : G = S
    · subst hG
      rw [frame?_added_self, frame?_added_self, frame?_child_of_ne hnew]
    · rw [frame?_added_of_ne hG, frame?_added_of_ne hG, frame?_child_of_ne hnew]

/-- The first binding of a new frame is in front of all others. -/
theorem bind_child : (s.child F []).2.bind s.frames.size name v = (s.child F []).2.added s.frames.size name v := by
  refine ext_frame? fun G => ?_
  by_cases hG : G = s.frames.size
  · subst hG
    rw [frame?_bind_self, frame?_added_self, frame?_child_self]
    rfl
  · rw [frame?_bind_of_ne hG, frame?_added_of_ne hG]

end Store

end MiniLisp
