import MiniLisp.Proofs.Eval.Beside
import MiniLisp.Proofs.Eval.FrameLaw
/-!
# Calls — how many calls of `print` are completed

A watcher counts the calls of `print` in an evaluation: it leaves an empty text among the printed ones wherever one
starts, and no call prints an empty text itself.  An evaluation prints one text for each call, however it ends
(`Activation.size_printed`): a call that starts is completed, and one that there is not depth enough for does not start.
-/
namespace MiniLisp

theorem Builtin.line_ne_empty (args : List Value) : Builtin.line args ≠ "" := by
  intro hempty
  have hnil := congrArg String.toList hempty
  rw [Builtin.line, String.toList_append] at hnil
  exact absurd (List.append_eq_nil_iff.1 hnil).2 (by decide)

namespace Activation

/-- The watcher that leaves an empty text where `print` is called. -/
def announce : Activation → EvalM Unit
  | .call _ (.builtin .print) _ => EvalM.print ""
  | _ => pure ()

/-- **How many calls of `print` an evaluation completes.** -/
def prints (depth : Nat) (a : Activation) (m : Machine) : Nat :=
  ((watched announce depth a).after { m with printed := #[] }).printed.count ""

/-- Nothing else is announced. -/
theorem announce_of_ne {a : Activation} (h : ∀ caller args, a ≠ .call caller (.builtin .print) args) (m : Machine) :
    announce a m = .ok () m := by
  unfold announce
  split
  · exact absurd rfl (h _ _)
  · rfl

/-- An announced evaluation beside one that is not: one has an empty text for each text that the other has printed
since it had `base`. -/
def announced (base : Nat) : Lockstep Unit :=
  .beside (fun printed printed' => printed'.size = base + printed.count "") 0

theorem announced_runs (base : Nat) : ∀ depth : Nat,
    (announced base).Runs (watched announce depth) (run depth)
  | 0, m, n, a, b, hmn, _ => by
    rw [run_zero]
    exact .exhausted fun _ => ⟨n, rfl, hmn, trivial⟩
  | depth + 1, m, n, a, b, hmn, hab => by
    rw [watched_succ, run_succ, ← Lockstep.beside_steady.fits_eq depth hab]
    by_cases hfits : a.fits depth = true
    swap
    · rw [if_neg hfits, if_neg hfits]
      exact .exhausted fun _ => ⟨n, rfl, hmn, trivial⟩
    rw [if_pos hfits, if_pos hfits, EvalM.bind_apply]
    by_cases ha : ∃ caller args, a = .call caller (.builtin .print) args
    · obtain ⟨caller, args, rfl⟩ := ha
      cases hab with
      | @call _ caller' _ g _ args' hfg hargs =>
        obtain rfl := hfg
        obtain rfl := Lockstep.values_beside.1 hargs
        obtain ⟨printed, rfl, hcount⟩ := hmn
        refine .ok ⟨⟨printed.push (Builtin.line args), rfl, ?_⟩, trivial⟩ (Lockstep.value_beside.2 rfl)
        show (printed.push (Builtin.line args)).size =
          base + ((m.printed.push "").push (Builtin.line args)).count ""
        rw [Array.size_push, Array.count_push_of_ne (Builtin.line_ne_empty args), Array.count_push_self, hcount,
          Nat.add_assoc]
    · have hother : ∀ caller args, a ≠ .call caller (.builtin .print) args := fun caller args ha' =>
        ha ⟨caller, args, ha'⟩
      rw [announce_of_ne hother]
      exact Lockstep.beside_steady.outcome_step (announced_runs base depth) hmn hab hother

/-- **An evaluation prints one text for each completed call of `print`**, however it ends. -/
theorem size_printed (depth : Nat) (a : Activation) (m : Machine) :
    ((run depth a).after m).printed.size = m.printed.size + prints depth a m := by
  have hout := announced_runs m.printed.size depth { m with printed := #[] } m a a ⟨m.printed, rfl, rfl⟩
    (Lockstep.activations_beside a)
  unfold prints EvalM.after
  generalize watched announce depth a { m with printed := #[] } = r at hout ⊢
  generalize run depth a m = r' at hout ⊢
  have hsize : ∀ {m' n' : Machine}, (announced m.printed.size).Goes { m with printed := #[] } m' n' →
      n'.printed.size = m.printed.size + m'.printed.count "" := by
    rintro m' n' ⟨⟨printed, rfl, hcount⟩, -⟩
    exact hcount
  cases hout with
  | ok hg _ => exact hsize hg
  | failed hg _ => exact hsize hg
  | exhausted hr =>
    obtain ⟨n', rfl, hg⟩ := hr rfl
    exact hsize hg
  | excused he => exact False.elim he

end Activation

end MiniLisp
