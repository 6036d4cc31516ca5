import MiniLisp.Proofs.Eval.Invariant
import MiniLisp.Proofs.Expr.Strings
import MiniLisp.Proofs.Store.Bound
import MiniLisp.Proofs.Value.Line
/-!
# OneLine — strings stay on one line

The strings of an evaluation come from literals, and are joined and handed around.  So if literals are of one line, all
strings and keys are, wherever they are held, and what is printed is lines (`Machine.OneLine.run`).
-/
namespace MiniLisp

/-- The literals in the body of a closure are of one line. -/
def Function.OneLine : Function → Prop
  | .closure c => ∀ e ∈ c.body, e.OneLine
  | .builtin _ | .operator _ _ => True

/-- The strings and keys in a value are of one line, and so are the literals in the bodies of the closures in it. -/
def Value.OneLine (v : Value) : Prop := v.Keeps Text.OneLine Function.OneLine

def Activation.OneLine : Activation → Prop
  | .expr _ e => e.OneLine
  | .call _ f args => f.OneLine ∧ ∀ v ∈ args, v.OneLine

/-- A call of `print` ends with nil, and has written a line; where it does not fit, it writes nothing. -/
def Activation.WritesLine (m : Machine) (a : Activation) : Prop :=
  ∀ caller args, a = .call caller (.builtin .print) args →
    ∃ text, Text.Line text ∧ ∀ depth, Activation.run (depth + 1) a m =
      if a.fits depth then .ok .nil (m.print text) else .error .exhausted m

/-- **All that a machine binds is of one line, and all that it has printed is lines.** -/
structure Machine.OneLine (m : Machine) : Prop where
  bound : m.store.Everywhere Value.OneLine
  printed : ∀ text ∈ m.printed, Text.Line text

theorem Value.oneLine_builtin (b : Builtin) : (Value.function (.builtin b)).OneLine :=
  ⟨nofun, List.forall_mem_singleton.2 trivial⟩

theorem Value.oneLine_nil : Value.nil.OneLine := ⟨nofun, nofun⟩

namespace Machine

variable {m : Machine} {F : FrameId} {es : Entries Value} {name : String} {v : Value}

theorem oneLine_initial : initial.OneLine := ⟨Store.everywhere_initial Value.oneLine_builtin, nofun⟩

theorem OneLine.bind (h : m.OneLine) (hv : v.OneLine) : (m.bind F name v).OneLine := ⟨h.bound.bind hv, h.printed⟩

theorem OneLine.child (h : m.OneLine) (hes : ∀ v ∈ es.values, v.OneLine) : (m.child F es).OneLine :=
  ⟨h.bound.child hes, h.printed⟩

theorem OneLine.print {args : List Value} (h : m.OneLine) (hargs : ∀ v ∈ args, v.OneLine) :
    (m.print (Builtin.line args)).OneLine where
  bound := h.bound
  printed := fun text ht => by
    rcases Array.mem_push.1 ht with ht | rfl
    · exact h.printed text ht
    · exact Builtin.line_of_args fun v hv => (hargs v hv).1

end Machine

theorem Activation.OneLine.writesLine {a : Activation} (h : a.OneLine) (m : Machine) : a.WritesLine m := by
  rintro caller args rfl
  refine ⟨_, Builtin.line_of_args fun v hv => (h.2 v hv).1, fun depth => ?_⟩
  rw [run_succ]
  split <;> rfl

/-! ## Evaluation -/

/-- The literals of an expression are those of its parts. -/
theorem Expr.OneLine.keeps {e : Expr} (h : e.OneLine) : e.Keeps Text.OneLine OneLine OneLine := by
  cases e with
  | string text pos => exact h text List.mem_cons_self
  | call items pos => exact oneLine_all.1 h
  | cond test yes no pos => exact oneLine_cond.1 h
  | fn params body pos => exact oneLine_all.1 h
  | define name namePos value pos => exact h
  | ident _ _ | number _ _ | bool _ _ | nil _ | operator _ _ => trivial

namespace Invariant

/-- What holds of a machine of one-line strings. -/
def oneLine : Invariant Unit where
  text := Text.OneLine
  code := fun _ => Expr.OneLine
  inner := id
  frame := fun _ _ _ => True
  function := fun _ => Function.OneLine
  error := fun _ => True
  machine := Machine.OneLine
  later := fun _ _ => True

theorem oneLine_lawful : oneLine.Lawful where
  later_refl := fun _ => trivial
  later_trans := fun _ _ => trivial
  frame_later := fun _ _ => trivial
  function_later := fun _ hf => hf
  text_join := fun _ h => Text.oneLine_join h
  error := fun _ _ _ => trivial
  parts := fun he => he.keeps
  body := fun hf => ⟨(), trivial, hf⟩
  lookup := fun {_ _ F name _} hm _ _ => hm.bound.lookup Value.oneLine_nil F name
  readOnly := fun _ _ _ _ => trivial
  bind := fun hm _ _ _ hv => ⟨hm.bind hv, trivial⟩
  enter := fun hm _ hes => ⟨⟨hm.child hes, trivial⟩, trivial⟩
  operator := fun _ hm => ⟨⟨⟨hm.bound, hm.printed⟩, trivial⟩, trivial⟩
  closure := fun hm _ _ hbody => ⟨⟨⟨hm.bound, hm.printed⟩, trivial⟩, hbody⟩
  print := fun hm hargs => ⟨hm.print hargs, trivial⟩

end Invariant

/-- **Strings stay on one line**, all through an evaluation and however it ends. -/
theorem Machine.OneLine.run {m : Machine} (h : m.OneLine) {a : Activation} (ha : a.OneLine) (depth : Nat) :
    (match Activation.run depth a m with
      | .ok v m' => m'.OneLine ∧ v.OneLine
      | .error _ m' => m'.OneLine) ∧
    Activation.Throughout (fun b n => n.OneLine ∧ b.OneLine) depth a m := by
  have hiff : ∀ {b : Activation} {n : Machine}, Invariant.oneLine.activation n b ↔ b.OneLine := by
    intro b n
    cases b with
    | expr F e => exact ⟨fun ⟨_, _, he⟩ => he, fun he => ⟨(), trivial, he⟩⟩
    | call caller f args => exact Iff.rfl
  obtain ⟨hends, hthroughout⟩ := Invariant.oneLine_lawful.run h (hiff.2 ha) depth
  refine ⟨?_, hthroughout.mono fun b n hb => ⟨hb.1, hiff.1 hb.2⟩⟩
  generalize Activation.run depth a m = r at hends
  match r, hends with
  | .ok v m', ⟨hg, hv⟩ => exact ⟨hg.machine, hv⟩
  | .error (.failed e) m', ⟨hg, _⟩ => exact hg.machine
  | .error .exhausted m', hg => exact hg.machine

end MiniLisp
