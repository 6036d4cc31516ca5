import Mathlib.Logic.Function.Basic
import MiniLisp.Proofs.Store.Frames
import MiniLisp.Proofs.Value.Agree
/-!
# Match — stores with the same frames under other numbers

`Store.Matches k V` relates two stores.  The frame `F` of the first is the frame `k F` of the second: it binds the same
names in the same order, to values that `V` relates, inside frames that are renamed the same way.  New frames keep
their order, so a new frame of the one is the new frame of the other.  Looking up, binding and creating a frame go
alike in stores that match.
-/
namespace MiniLisp

/-- Frames with one content. -/
structure Frame.Matches (k : FrameId → FrameId) (V : Value → Value → Prop) (f g : Frame) : Prop where
  bindings : List.Forall₂ (EntryAgree (fun _ => True) V) f.bindings g.bindings
  outer : g.outer = f.outer.map k
  readOnly : f.readOnly = g.readOnly

/-- **Stores with the same frames under other numbers.** -/
structure Store.Matches (k : FrameId → FrameId) (V : Value → Value → Prop) (s t : Store) : Prop where
  frame? : ∀ F, Option.Rel (Frame.Matches k V) (s.frame? F) (t.frame? (k F))
  size : ∀ j, k (s.frames.size + j) = t.frames.size + j

namespace Store

namespace Matches

variable {k : FrameId → FrameId} {V : Value → Value → Prop} {s t : Store} {es fs : Entries Value} {v w : Value}

/-- Behind the frames that are there, there is nothing on either side. -/
theorem of_lt (h : ∀ F < s.frames.size, Option.Rel (Frame.Matches k V) (s.frame? F) (t.frame? (k F)))
    (hsize : ∀ j, k (s.frames.size + j) = t.frames.size + j) : Matches k V s t where
  frame? := fun F => by
    by_cases hF : F < s.frames.size
    · exact h F hF
    · obtain ⟨j, rfl⟩ := Nat.exists_eq_add_of_le (Nat.le_of_not_lt hF)
      have hnone : s.frame? (s.frames.size + j) = none := Array.getElem?_eq_none (Nat.le_add_right _ _)
      have hnone' : t.frame? (t.frames.size + j) = none := Array.getElem?_eq_none (Nat.le_add_right _ _)
      rw [hsize, hnone, hnone']
      exact .none
  size := hsize

/-! ## Looking up -/

theorem bindings (h : Matches k V s t) (F : FrameId) :
    List.Forall₂ (EntryAgree (fun _ => True) V) (s.bindings F) (t.bindings (k F)) := by
  have hframe := h.frame? F
  unfold Store.bindings
  generalize s.frame? F = f? at hframe
  generalize t.frame? (k F) = g? at hframe
  cases hframe with
  | none => exact .nil
  | some hfg => exact hfg.bindings

theorem chain (h : Matches k V s t) (F : FrameId) : t.chain (k F) = (s.chain F).map k := by
  have hframe := h.frame? F
  unfold Store.chain Store.outer
  generalize s.frame? F = f? at hframe
  generalize t.frame? (k F) = g? at hframe
  cases hframe with
  | none => rfl
  | @some f g hfg =>
    show k F :: g.outer = (F :: f.outer).map k
    rw [List.map_cons, hfg.outer]

theorem readOnly (h : Matches k V s t) (F : FrameId) : s.readOnly F = t.readOnly (k F) := by
  have hframe := h.frame? F
  unfold Store.readOnly
  generalize s.frame? F = f? at hframe
  generalize t.frame? (k F) = g? at hframe
  cases hframe with
  | none => rfl
  | some hfg => exact hfg.readOnly

theorem find? (h : Matches k V s t) (F : FrameId) (name : String) :
    t.find? (k F) name = (s.find? F name).map k := by
  have hbinds : (fun G => (t.bindings G).binds name) ∘ k = fun G => (s.bindings G).binds name :=
    funext fun G => (Entries.agree_binds (h.bindings G) name).symm
  unfold Store.find?
  rw [h.chain, List.find?_map, hbinds]

theorem lookup (h : Matches k V s t) (hnil : V .nil .nil) (F : FrameId) (name : String) :
    V (s.lookup F name) (t.lookup (k F) name) := by
  unfold Store.lookup
  rw [h.find?]
  cases s.find? F name with
  | none => exact hnil
  | some G =>
    show V (((s.bindings G).get? name).getD .nil) (((t.bindings (k G)).get? name).getD .nil)
    have hget := Entries.agree_get? (h.bindings G) name
    generalize (s.bindings G).get? name = v? at hget
    generalize (t.bindings (k G)).get? name = w? at hget
    cases hget with
    | none => exact hnil
    | some hvw => exact hvw

/-! ## Changes -/

theorem bind (h : Matches k V s t) (hk : k.Injective) (hvw : V v w) (F : FrameId) (name : String) :
    Matches k V (s.bind F name v) (t.bind (k F) name w) where
  frame? := fun G => by
    by_cases hG : G = F
    · subst hG
      rw [frame?_bind_self, frame?_bind_self]
      have hframe := h.frame? G
      generalize s.frame? G = f? at hframe
      generalize t.frame? (k G) = g? at hframe
      cases hframe with
      | none => exact .none
      | some hfg => exact .some ⟨Entries.agree_insert hfg.bindings trivial hvw, hfg.outer, hfg.readOnly⟩
    · rw [frame?_bind_of_ne hG, frame?_bind_of_ne (hk.ne hG)]
      exact h.frame? G
  size := fun j => by rw [size_bind, size_bind, h.size]

theorem child (h : Matches k V s t) (hk : k.Injective)
    (hes : List.Forall₂ (EntryAgree (fun _ => True) V) es fs) (F : FrameId) :
    Matches k V (s.child F es).2 (t.child (k F) fs).2 where
  frame? := fun G => by
    have hnew : k s.frames.size = t.frames.size := h.size 0
    by_cases hG : G = s.frames.size
    · subst hG
      rw [hnew, frame?_child_self, frame?_child_self]
      exact .some ⟨hes, h.chain F, rfl⟩
    · have hkG : k G ≠ t.frames.size := fun e => hG (hk (e.trans hnew.symm))
      rw [frame?_child_of_ne hG, frame?_child_of_ne hkG]
      exact h.frame? G
  size := fun j => by
    rw [size_child, size_child, Nat.add_assoc, Nat.add_assoc]
    exact h.size (1 + j)

end Matches

end Store

end MiniLisp
