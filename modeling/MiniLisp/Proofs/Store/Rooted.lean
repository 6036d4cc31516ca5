import MiniLisp.Proofs.Store.Frames
/-!
# Rooted — scopes that end in the root

A frame is `Rooted` if following the links from it ends in the root frame, which holds the built-ins as they were.  It
is `Scoped` if it is also a frame of its own that can be written.  Binding in a scoped frame and creating a frame
inside one leave the root as it is, and every scoped frame scoped.
-/
namespace MiniLisp.Store

variable {s s' : Store} {F G outer : FrameId} {es : Entries Value} {name : String} {v : Value}

/-- **Following the links ends in the root**, and the root is as it was. -/
inductive Rooted (s : Store) : FrameId → Prop
  | top : s.frame? root = some rootFrame → Rooted s root
  | link {F G : FrameId} : s.outer F = G :: s.outer G → Rooted s G → Rooted s F

/-- **A frame for evaluation**: not the root, but inside it, and open for bindings. -/
structure Scoped (s : Store) (F : FrameId) : Prop where
  ne_root : F ≠ root
  rooted : s.Rooted F
  writable : s.readOnly F = false

/-! ## Rooted frames -/

theorem lt_of_frame? {f : Frame} (h : s.frame? F = some f) : F < s.frames.size := by
  unfold frame? at h
  exact (Array.getElem?_eq_some_iff.1 h).1

theorem lt_of_outer_ne_nil (h : s.outer F ≠ []) : F < s.frames.size := by
  unfold Store.outer at h
  cases hf : s.frame? F with
  | none => rw [hf] at h; exact absurd rfl h
  | some f => exact lt_of_frame? hf

namespace Rooted

theorem lt (h : Rooted s F) : F < s.frames.size := by
  cases h with
  | top hroot => exact lt_of_frame? hroot
  | link houter _ => exact lt_of_outer_ne_nil (by rw [houter]; exact List.cons_ne_nil _ _)

theorem root_eq (h : Rooted s F) : s.frame? Store.root = some rootFrame := by
  induction h with
  | top hroot => exact hroot
  | link _ _ ih => exact ih

/-- The chain of a rooted frame ends in the root. -/
theorem getLast?_chain (h : Rooted s F) : (s.chain F).getLast? = some Store.root := by
  induction h with
  | top hroot =>
    unfold chain Store.outer
    rw [hroot]
    rfl
  | @link F G houter _ ih =>
    unfold chain at ih ⊢
    rw [houter, List.getLast?_cons_cons]
    exact ih

/-- Frames stay rooted while the root is as it was, and links stay. -/
theorem of_outer_eq (h : Rooted s F) (hroot : s'.frame? Store.root = some rootFrame)
    (houter : ∀ G < s.frames.size, s'.outer G = s.outer G) : Rooted s' F := by
  induction h with
  | top _ => exact .top hroot
  | @link F G hlink hG ih =>
    have hF : F < s.frames.size := lt_of_outer_ne_nil (by rw [hlink]; exact List.cons_ne_nil _ _)
    refine .link ?_ ih
    rw [houter F hF, houter G hG.lt, hlink]

end Rooted

/-! ## Scoped frames -/

theorem readOnly_congr (h : s'.frame? F = s.frame? F) : s'.readOnly F = s.readOnly F := by
  unfold Store.readOnly
  rw [h]

theorem readOnly_bind : (s.bind F name v).readOnly G = s.readOnly G := by
  by_cases h : G = F
  · subst h
    unfold Store.readOnly
    rw [frame?_bind_self]
    cases s.frame? G <;> rfl
  · exact readOnly_congr (frame?_bind_of_ne h)

namespace Scoped

theorem bind (h : s.Scoped G) (hF : F ≠ root) : (s.bind F name v).Scoped G where
  ne_root := h.ne_root
  rooted := h.rooted.of_outer_eq (by rw [frame?_bind_of_ne hF.symm, h.rooted.root_eq]) fun _ _ => outer_bind
  writable := by rw [readOnly_bind, h.writable]

theorem child (h : s.Scoped G) : (s.child outer es).2.Scoped G where
  ne_root := h.ne_root
  rooted := by
    have hroot : root < s.frames.size := lt_of_frame? h.rooted.root_eq
    refine h.rooted.of_outer_eq (by rw [frame?_child hroot, h.rooted.root_eq]) fun H hH => ?_
    exact outer_congr (frame?_child hH)
  writable := by rw [readOnly_congr (frame?_child h.rooted.lt), h.writable]

end Scoped

/-- **A new frame inside a rooted frame is scoped.** -/
theorem Rooted.scoped_child (h : s.Rooted F) : (s.child F es).2.Scoped s.frames.size := by
  have hroot : Store.root < s.frames.size := lt_of_frame? h.root_eq
  have hsame : ∀ G < s.frames.size, (s.child F es).2.frame? G = s.frame? G := fun G hG => frame?_child hG
  have houter : ∀ G < s.frames.size, (s.child F es).2.outer G = s.outer G := fun G hG => outer_congr (hsame G hG)
  have hF : (s.child F es).2.Rooted F := h.of_outer_eq (by rw [hsame _ hroot, h.root_eq]) houter
  refine ⟨Nat.ne_of_gt hroot, .link ?_ hF, ?_⟩
  · rw [houter F h.lt]
    unfold Store.outer
    rw [frame?_child_self]
    rfl
  · unfold Store.readOnly
    rw [frame?_child_self]

end MiniLisp.Store
