import MiniLisp.Proofs.Eval.Invariant
import MiniLisp.Proofs.Eval.Stack
/-!
# Depth — more depth changes nothing

An evaluation that does not run out of depth ends the same way with more of it (`Activation.run_of_le`).  One that does is
told apart from all that fail: the error that an interpreter makes of it is none of theirs
(`Activation.ne_recursionTooDeep`).
-/
namespace MiniLisp

/-- What holds of every evaluation: it does not fail as if it had run out of depth. -/
def Invariant.everywhere : Invariant Unit where
  text := fun _ => True
  code := fun _ _ => True
  inner := id
  frame := fun _ _ _ => True
  function := fun _ _ => True
  error := fun e => ∀ pos, e ≠ .recursionTooDeep pos
  machine := fun _ => True
  later := fun _ _ => True

theorem Value.keeps_everywhere (v : Value) : v.Keeps (fun _ => True) fun _ => True :=
  ⟨fun _ _ => trivial, fun _ _ => trivial⟩

theorem Invariant.everywhere_lawful : everywhere.Lawful where
  later_refl := fun _ => trivial
  later_trans := fun _ _ => trivial
  frame_later := fun _ _ => trivial
  function_later := fun _ _ => trivial
  text_join := fun _ _ => trivial
  error := fun _ _ hdeep => hdeep
  parts := by
    intro _ e _
    cases e <;> simp [Expr.Keeps, everywhere]
  body := fun _ => ⟨(), trivial, fun _ _ => trivial⟩
  lookup := fun _ _ _ => Value.keeps_everywhere _
  readOnly := fun _ _ _ _ => nofun
  bind := fun _ _ _ _ _ => ⟨trivial, trivial⟩
  enter := fun _ _ _ => ⟨⟨trivial, trivial⟩, trivial⟩
  operator := fun _ _ => ⟨⟨trivial, trivial⟩, trivial⟩
  closure := fun _ _ _ _ => ⟨⟨trivial, trivial⟩, trivial⟩
  print := fun _ _ => ⟨trivial, trivial⟩

namespace Activation

variable {depth : Nat} {a : Activation} {m : Machine}

/-- **An evaluation that does not run out of depth ends the same way with more of it.** -/
theorem run_of_le {depth' : Nat} (hle : depth ≤ depth') (h : ∀ m', run depth a m ≠ .error .exhausted m') :
    run depth' a m = run depth a m := by
  rcases run_eq_or_cut hle a m with hsame | ⟨n, _, hcut⟩
  · exact hsame.symm
  · exact absurd hcut (h n)

/-- **No evaluation fails as if it had run out of depth.** -/
theorem ne_recursionTooDeep {e : Error} {m' : Machine} (h : run depth a m = .error (.failed e) m') (pos : Position) :
    e ≠ .recursionTooDeep pos := by
  have ha : Invariant.everywhere.activation m a := by
    cases a with
    | expr F e => exact ⟨(), trivial, trivial⟩
    | call caller f args => exact ⟨trivial, fun v _ => Value.keeps_everywhere v⟩
  have hends := (Invariant.everywhere_lawful.run trivial ha depth).1
  rw [h] at hends
  exact hends.2 pos

end Activation

end MiniLisp
