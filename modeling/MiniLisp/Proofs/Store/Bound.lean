import MiniLisp.Proofs.Store.Frames
import MiniLisp.Proofs.Value.Pairs
/-!
# Bound — what the frames bind

A property of all values that are bound in a store (`Everywhere`) is kept by a new binding and by a new frame, if the
new values have it; and looking up a name finds such a value, or nil.
-/
namespace MiniLisp

namespace Store

variable {P Q : Value → Prop} {s : Store} {F G outer : FrameId} {name : String} {v : Value} {es : Entries Value}

/-! ## The values of one frame -/

theorem forall_values_bind (h : ∀ w ∈ (s.bindings G).values, P w) (hv : G = F → P v) :
    ∀ w ∈ ((s.bind F name v).bindings G).values, P w := by
  by_cases hG : G = F
  · subst hG
    unfold Store.bindings at h ⊢
    rw [frame?_bind_self]
    cases hf : s.frame? G with
    | none => exact nofun
    | some f =>
      rw [hf] at h
      exact Entries.forall_values_insert h (hv rfl)
  · rwa [bindings_congr (frame?_bind_of_ne hG)]

theorem forall_values_child (h : ∀ w ∈ (s.bindings G).values, P w) (hes : G = s.frames.size → ∀ w ∈ es.values, P w) :
    ∀ w ∈ ((s.child outer es).2.bindings G).values, P w := by
  by_cases hnew : G = s.frames.size
  · subst hnew
    unfold Store.bindings
    rw [frame?_child_self]
    exact hes rfl
  · rwa [bindings_congr (frame?_child_of_ne hnew)]

/-- A name is looked up on the chain of a frame only. -/
theorem lookup_of_chain (h : ∀ G ∈ s.chain F, ∀ w ∈ (s.bindings G).values, P w) (hnil : P .nil) (name : String) :
    P (s.lookup F name) := by
  unfold Store.lookup
  cases hfind : s.find? F name with
  | none => exact hnil
  | some G =>
    show P (((s.bindings G).get? name).getD .nil)
    cases hv : (s.bindings G).get? name with
    | none => exact hnil
    | some v => exact h G (List.mem_of_find?_eq_some hfind) v (Entries.mem_values_of_get? hv)

/-! ## The values of all frames -/

/-- **Every value that is bound in a frame** has a property. -/
def Everywhere (P : Value → Prop) (s : Store) : Prop := ∀ F, ∀ v ∈ (s.bindings F).values, P v

namespace Everywhere

theorem imp (h : s.Everywhere P) (hPQ : ∀ v, P v → Q v) : s.Everywhere Q := fun F v hv => hPQ v (h F v hv)

theorem bind (h : s.Everywhere P) (hv : P v) : (s.bind F name v).Everywhere P := fun G =>
  forall_values_bind (h G) fun _ => hv

theorem child (h : s.Everywhere P) (hes : ∀ v ∈ es.values, P v) : (s.child outer es).2.Everywhere P := fun G =>
  forall_values_child (h G) fun _ => hes

theorem lookup (h : s.Everywhere P) (hnil : P .nil) (F : FrameId) (name : String) : P (s.lookup F name) :=
  lookup_of_chain (fun G _ => h G) hnil name

end Everywhere

/-- The root frame binds built-ins, and at first nothing else is bound. -/
theorem everywhere_initial (h : ∀ b, P (.function (.builtin b))) : initial.Everywhere P := by
  intro F v hv
  by_cases hF : F = root
  · subst hF
    change v ∈ (Builtin.all.map fun b => (b.name, Value.function (.builtin b))).map Prod.snd at hv
    rw [List.map_map, List.mem_map] at hv
    obtain ⟨b, -, rfl⟩ := hv
    exact h b
  · have hnone : initial.frame? F = none := Array.getElem?_eq_none (Nat.pos_of_ne_zero hF)
    unfold Store.bindings at hv
    rw [hnone] at hv
    cases hv

end Store

end MiniLisp
