import MiniLisp.Proofs.Eval.Lockstep
import MiniLisp.Proofs.Value.Functions
/-!
# Beside — machines that differ in what they have printed

Nothing in an evaluation sees what has been printed.  So two machines that differ in nothing else are evaluated in
alike, and what they have printed stays related in everything but a call of `print` (`beside_steady`); in a call of
`print` too, if one more text on either side keeps it related (`beside_lawful`).
-/
namespace MiniLisp.Lockstep

/-- Two machines that are the same but for what they have printed, which is related. -/
def beside (R : Array String → Array String → Prop) (slack : Nat) : Lockstep Unit where
  text := fun _ => True
  place := fun _ => Eq
  code := fun _ => Eq
  inner := id
  frame := fun _ _ => Eq
  function := fun _ => Eq
  error := Eq
  machine := fun m n => ∃ printed, n = { m with printed := printed } ∧ R m.printed printed
  later := fun _ _ => True
  slack := slack

variable {R : Array String → Array String → Prop} {slack : Nat} {m : Machine}

theorem value_beside {v w : Value} : (beside R slack).value m v w ↔ v = w := by
  constructor
  · exact fun h => h.eq fun _ _ hfg => hfg
  · rintro rfl
    exact Value.agree_self v fun _ _ => rfl

theorem values_beside {vs ws : List Value} : List.Forall₂ ((beside R slack).value m) vs ws ↔ vs = ws := by
  constructor
  · exact fun h => List.forall₂_eq_eq_eq ▸ h.imp fun _ _ => value_beside.1
  · rintro rfl
    exact List.forall₂_same.2 fun _ _ => value_beside.2 rfl

theorem activations_beside (a : Activation) : (beside R slack).Activations m a a := by
  cases a with
  | expr frame e => exact .expr (i := ()) rfl rfl
  | call caller f args => exact .call caller caller rfl (values_beside.2 rfl)

theorem beside_steady : (beside R slack).Steady where
  later_refl := fun _ => trivial
  later_trans := fun _ _ => trivial
  frame_later := fun _ hF => hF
  function_later := fun _ hf => hf
  text_join := fun _ _ => trivial
  error_alike := fun he _ _ => he.eq
  error_arguments := fun _ => rfl
  code_layer := by
    rintro _ e _ rfl
    exact .refl (fun _ => trivial) (fun _ => rfl) (fun _ => rfl) (fun _ => rfl) e
  function_layer := by
    rintro _ f _ rfl
    cases f with
    | builtin b => exact .builtin b
    | operator op mark => exact .operator op mark mark
    | closure c => exact .closure () rfl rfl (List.forall₂_same.2 fun _ _ => rfl) rfl
  find? := by
    rintro _ m _ F _ name p q ⟨printed, rfl, -⟩ rfl _
    rfl
  lookup := by
    rintro _ m _ F _ name p q ⟨printed, rfl, -⟩ rfl _
    exact value_beside.2 rfl
  readOnly := by
    rintro _ m _ F _ ⟨printed, rfl, -⟩ rfl
    exact ⟨rfl, fun _ _ => rfl⟩
  bind := by
    rintro _ m _ F _ name np nq e e' p q v w ⟨printed, rfl, hR⟩ rfl _ _ hvw
    rw [value_beside.1 hvw]
    exact ⟨⟨printed, rfl, hR⟩, trivial⟩
  enter := by
    rintro _ m _ F _ es fs ⟨printed, rfl, hR⟩ rfl hes
    rw [Entries.agree_eq (fun _ _ hvw => value_beside.1 hvw) hes]
    exact ⟨⟨⟨printed, rfl, hR⟩, trivial⟩, rfl⟩
  operator := by
    rintro m _ op ⟨printed, rfl, hR⟩
    exact ⟨⟨⟨printed, rfl, hR⟩, trivial⟩, rfl⟩
  closure := by
    rintro _ m _ F _ params body body' p q ⟨printed, rfl, hR⟩ rfl _ hbody rfl
    obtain rfl : body = body' := List.forall₂_eq_eq_eq ▸ hbody
    exact ⟨⟨⟨printed, rfl, hR⟩, trivial⟩, rfl⟩

theorem beside_lawful
    (hprint : ∀ printed printed' text, R printed printed' → R (printed.push text) (printed'.push text)) :
    (beside R slack).Lawful where
  toSteady := beside_steady
  print := by
    rintro m _ args args' ⟨printed, rfl, hR⟩ _
    exact ⟨⟨printed.push (Builtin.line args), rfl, hprint _ _ _ hR⟩, trivial⟩

end MiniLisp.Lockstep
