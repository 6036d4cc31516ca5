import MiniLisp.Proofs.Eval.Lockstep
import MiniLisp.Proofs.Value.Strings
/-!
# Invariant — what holds all through an evaluation

An `Invariant` says what holds of a machine and of what belongs to it: texts, code, frames, functions, errors.  If the
parts of an evaluation keep it (`Invariant.Lawful`), it holds wherever an evaluation comes, and where it ends
(`Lawful.run`).  It is the case of two evaluations side by side in which both are the same; or one of them starts in a
machine with a change that nothing notices, and ends with it (`Lawful.run_changed`).
-/
namespace MiniLisp

/-- What holds of the parts of an expression.  The body of an `fn` form has a property of its own. -/
def Expr.Keeps (text : String → Prop) (part inner : Expr → Prop) : Expr → Prop
  | .string t _ => text t
  | .call items _ => ∀ e ∈ items, part e
  | .cond test yes no _ => part test ∧ part yes ∧ part no
  | .fn _ body _ => ∀ e ∈ body, inner e
  | .define _ _ value _ => part value
  | .ident _ _ | .number _ _ | .bool _ _ | .nil _ | .operator _ _ => True

theorem Expr.Keeps.layer {text : String → Prop} {part inner : Expr → Prop} {e : Expr} (h : e.Keeps text part inner) :
    e.Layer text Eq (fun a b => a = b ∧ part a) (fun a b => a = b ∧ inner a) e := by
  cases e with
  | ident name p => exact .ident rfl
  | number x p => exact .number rfl
  | string t p => exact .string h rfl
  | bool b p => exact .bool rfl
  | nil p => exact .nil rfl
  | operator op p => exact .operator rfl
  | call items p => exact .call (Value.forall₂_diagonal_iff.2 ⟨rfl, h⟩) rfl
  | cond test yes no p => exact .cond ⟨rfl, h.1⟩ ⟨rfl, h.2.1⟩ ⟨rfl, h.2.2⟩ rfl
  | fn params body p => exact .fn (Value.forall₂_diagonal_iff.2 ⟨rfl, h⟩) rfl
  | define name namePos value p => exact .define ⟨rfl, h⟩ rfl

namespace Machine

variable {ε α : Type}

/-- The end of a computation, with the machine changed. -/
def onEnd (g : Machine → Machine) : EStateM.Result ε Machine α → EStateM.Result ε Machine α
  | .ok a m => .ok a (g m)
  | .error e m => .error e (g m)

/-- The machine in which a computation ended. -/
def atEnd : EStateM.Result ε Machine α → Machine
  | .ok _ m => m
  | .error _ m => m

theorem onEnd_id (r : EStateM.Result ε Machine α) : onEnd id r = r := by
  cases r <;> rfl

end Machine

/-- **What holds of a machine and of what belongs to it.**  Code stands in places of the kind `ι`; at `i : ι`, the
bodies of its `fn` forms stand at `inner i`. -/
structure Invariant (ι : Type) where
  text : String → Prop
  code : ι → Expr → Prop
  inner : ι → ι
  frame : ι → Machine → FrameId → Prop
  function : Machine → Function → Prop
  error : Error → Prop
  machine : Machine → Prop
  /-- Whether a machine can become another. -/
  later : Machine → Machine → Prop

namespace Invariant

variable {ι : Type} (I : Invariant ι)

def value (m : Machine) : Value → Prop := Value.Keeps I.text (I.function m)

/-- A step of a machine. -/
structure Goes (m m' : Machine) : Prop where
  machine : I.machine m'
  later : I.later m m'

/-- What holds of an activation. -/
def activation (m : Machine) : Activation → Prop
  | .expr F e => ∃ i, I.frame i m F ∧ I.code i e
  | .call _ f args => I.function m f ∧ ∀ v ∈ args, I.value m v

/-- **How an evaluation ends** that started in the machine `m`. -/
def Ends (m : Machine) : EStateM.Result Halt Machine Value → Prop
  | .ok v m' => I.Goes m m' ∧ I.value m' v
  | .error (.failed e) m' => I.Goes m m' ∧ I.error e
  | .error .exhausted m' => I.Goes m m'

/-- **What the parts of an evaluation keep.** -/
structure Lawful : Prop where
  later_refl : ∀ m, I.later m m
  later_trans : ∀ {m m' m''}, I.later m m' → I.later m' m'' → I.later m m''
  frame_later : ∀ {i m m' F}, I.later m m' → I.frame i m F → I.frame i m' F
  function_later : ∀ {m m' f}, I.later m m' → I.function m f → I.function m' f
  text_join : ∀ texts : List String, (∀ text ∈ texts, I.text text) → I.text ("".intercalate texts)
  error : ∀ e : Error, (∀ name, e ≠ .readOnly name) → (∀ pos, e ≠ .recursionTooDeep pos) → I.error e
  parts : ∀ {i e}, I.code i e → e.Keeps I.text (I.code i) (I.code (I.inner i))
  body : ∀ {m c}, I.function m (.closure c) → ∃ i, I.frame i m c.frame ∧ ∀ e ∈ c.body, I.code (I.inner i) e
  lookup : ∀ {i m F name p}, I.machine m → I.frame i m F → I.code i (.ident name p) →
    I.value m (m.store.lookup F name)
  readOnly : ∀ {i m F} name, I.machine m → I.frame i m F → m.store.readOnly F = true → I.error (.readOnly name)
  bind : ∀ {i m F name np e p v}, I.machine m → I.frame i m F → I.code i (.define name np e p) →
    m.store.readOnly F = false → I.value m v → I.Goes m (m.bind F name v)
  enter : ∀ {i m F} {es : Entries Value}, I.machine m → I.frame i m F → (∀ v ∈ es.values, I.value m v) →
    I.Goes m (m.child F es) ∧ I.frame (I.inner i) (m.child F es) m.store.frames.size
  operator : ∀ {m} (op : Operator), I.machine m → I.Goes m m.marked ∧ I.function m.marked (.operator op m.nextMark)
  closure : ∀ {i m F params body p}, I.machine m → I.frame i m F → I.code i (.fn params body p) →
    (∀ e ∈ body, I.code (I.inner i) e) →
    I.Goes m m.marked ∧ I.function m.marked (.closure ⟨m.nextMark, F, params, body, p⟩)
  print : ∀ {m args}, I.machine m → (∀ v ∈ args, I.value m v) → I.Goes m (m.print (Builtin.line args))

/-! ## Side by side with a changed machine -/

/-- **A change of machines that nothing notices of which the invariant speaks**: it goes with all that happens. -/
structure Unnoticed (g : Machine → Machine) : Prop where
  size : ∀ m, (g m).store.frames.size = m.store.frames.size
  nextMark : ∀ m, (g m).nextMark = m.nextMark
  find? : ∀ {i m F name p}, I.machine m → I.frame i m F → I.code i (.ident name p) →
    (g m).store.find? F name = m.store.find? F name
  lookup : ∀ {i m F name p}, I.machine m → I.frame i m F → I.code i (.ident name p) →
    (g m).store.lookup F name = m.store.lookup F name
  readOnly : ∀ m F, (g m).store.readOnly F = m.store.readOnly F
  bind : ∀ {i m F name np e p v}, I.machine m → I.frame i m F → I.code i (.define name np e p) →
    g (m.bind F name v) = (g m).bind F name v
  child : ∀ {m F} {es : Entries Value}, I.machine m → g (m.child F es) = (g m).child F es
  marked : ∀ m, g m.marked = (g m).marked
  print : ∀ m text, g (m.print text) = (g m).print text

theorem unnoticed_id : I.Unnoticed id where
  size := fun _ => rfl
  nextMark := fun _ => rfl
  find? := fun _ _ _ => rfl
  lookup := fun _ _ _ => rfl
  readOnly := fun _ _ => rfl
  bind := fun _ _ _ => rfl
  child := fun _ => rfl
  marked := fun _ => rfl
  print := fun _ _ => rfl

/-- A machine beside a changed one. -/
def changed (g : Machine → Machine) : Lockstep ι where
  text := I.text
  place := fun _ => Eq
  code := fun i e e' => e = e' ∧ I.code i e
  inner := I.inner
  frame := fun i m F G => F = G ∧ I.frame i m F
  function := fun m f g => f = g ∧ I.function m f
  error := fun e e' => e = e' ∧ I.error e
  machine := fun m n => g m = n ∧ I.machine m
  later := I.later
  slack := 0

variable {I} {g : Machine → Machine}

theorem value_iff {m : Machine} {v w : Value} : (I.changed g).value m v w ↔ v = w ∧ I.value m v :=
  Value.agree_diagonal_iff

theorem values_iff {m : Machine} {vs ws : List Value} :
    List.Forall₂ ((I.changed g).value m) vs ws ↔ vs = ws ∧ ∀ v ∈ vs, I.value m v := Value.forall₂_agree_diagonal_iff

theorem entries_of_agree {m : Machine} {es fs : Entries Value}
    (h : List.Forall₂ (EntryAgree (fun _ => True) ((I.changed g).value m)) es fs) :
    es = fs ∧ ∀ v ∈ es.values, I.value m v :=
  ⟨Entries.agree_eq (fun _ _ hvw => (value_iff.1 hvw).1) h, (values_iff.1 (Entries.agree_iff.1 h).2.2).2⟩

theorem activations_iff {m : Machine} {a b : Activation} :
    (I.changed g).Activations m a b → I.activation m a := by
  rintro (⟨⟨rfl, hF⟩, rfl, he⟩ | ⟨caller, caller', ⟨rfl, hf⟩, hargs⟩)
  · exact ⟨_, hF, he⟩
  · exact ⟨hf, (values_iff.1 hargs).2⟩

theorem activations_self {m : Machine} {a : Activation} (h : I.activation m a) : (I.changed g).Activations m a a := by
  cases a with
  | expr F e =>
    obtain ⟨i, hF, he⟩ := h
    exact .expr (i := i) ⟨rfl, hF⟩ ⟨rfl, he⟩
  | call caller f args => exact .call caller caller ⟨rfl, h.1⟩ (values_iff.2 ⟨rfl, h.2⟩)

namespace Lawful

variable (h : I.Lawful)

include h

theorem changed (hg : I.Unnoticed g) : (I.changed g).Lawful where
  later_refl := h.later_refl
  later_trans := h.later_trans
  frame_later := fun hlater hF => ⟨hF.1, h.frame_later hlater hF.2⟩
  function_later := fun hlater hf => ⟨hf.1, h.function_later hlater hf.2⟩
  text_join := h.text_join
  error_alike := fun he hreadOnly hdeep => ⟨he.eq, h.error _ hreadOnly hdeep⟩
  error_arguments := fun he => ⟨rfl, h.error _ (by rintro name rfl; cases he) (by rintro pos rfl; cases he)⟩
  code_layer := by
    rintro i e _ ⟨rfl, he⟩
    exact (h.parts he).layer
  function_layer := by
    rintro m f _ ⟨rfl, hf⟩
    cases f with
    | builtin b => exact .builtin b
    | operator op mark => exact .operator op mark mark
    | closure c =>
      obtain ⟨i, hF, hbody⟩ := h.body hf
      exact .closure i ⟨rfl, hF⟩ rfl (Value.forall₂_diagonal_iff.2 ⟨rfl, hbody⟩) rfl
  find? := by
    rintro i m _ F _ name p q ⟨rfl, hm⟩ ⟨rfl, hF⟩ ⟨-, he⟩
    rw [hg.find? hm hF he]
  lookup := by
    rintro i m _ F _ name p q ⟨rfl, hm⟩ ⟨rfl, hF⟩ ⟨-, he⟩
    exact value_iff.2 ⟨(hg.lookup hm hF he).symm, h.lookup hm hF he⟩
  readOnly := by
    rintro i m _ F _ ⟨rfl, hm⟩ ⟨rfl, hF⟩
    exact ⟨(hg.readOnly m F).symm, fun name hro => ⟨rfl, h.readOnly name hm hF hro⟩⟩
  bind := by
    rintro i m _ F _ name np nq e e' p q v w ⟨rfl, hm⟩ ⟨rfl, hF⟩ ⟨-, he⟩ hro hvw
    obtain ⟨rfl, hv⟩ := value_iff.1 hvw
    have hgoes := h.bind hm hF he hro hv
    exact ⟨⟨hg.bind hm hF he, hgoes.machine⟩, hgoes.later⟩
  enter := by
    rintro i m _ F _ es fs ⟨rfl, hm⟩ ⟨rfl, hF⟩ hes
    obtain ⟨rfl, hvalues⟩ := entries_of_agree hes
    obtain ⟨hgoes, hnew⟩ := h.enter hm hF hvalues
    exact ⟨⟨⟨hg.child hm, hgoes.machine⟩, hgoes.later⟩, (hg.size m).symm, hnew⟩
  operator := by
    rintro m _ op ⟨rfl, hm⟩
    obtain ⟨hgoes, hf⟩ := h.operator op hm
    exact ⟨⟨⟨hg.marked m, hgoes.machine⟩, hgoes.later⟩, by rw [hg.nextMark], hf⟩
  closure := by
    rintro i m _ F _ params body body' p q ⟨rfl, hm⟩ ⟨rfl, hF⟩ ⟨-, he⟩ hbody rfl
    obtain ⟨rfl, hcode⟩ := Value.forall₂_diagonal_iff.1 hbody
    obtain ⟨hgoes, hf⟩ := h.closure hm hF he hcode
    exact ⟨⟨⟨hg.marked m, hgoes.machine⟩, hgoes.later⟩, by rw [hg.nextMark], hf⟩
  print := by
    rintro m _ args args' ⟨rfl, hm⟩ hargs
    have hgoes := h.print hm (values_iff.1 hargs).2
    exact ⟨⟨hg.print m _, hgoes.machine⟩, hgoes.later⟩

omit h in
theorem ends_of_outcome {m : Machine} {r r' : EStateM.Result Halt Machine Value}
    (hout : (I.changed g).Outcome m (I.changed g).value r r') : r' = Machine.onEnd g r ∧ I.Ends m r := by
  have hboth : ∀ {m' n'}, (I.changed g).Goes m m' n' → g m' = n' ∧ I.Goes m m' := fun hgoes =>
    ⟨hgoes.machine.1, hgoes.machine.2, hgoes.later⟩
  cases hout with
  | ok hgoes hvw =>
    obtain ⟨rfl, hv⟩ := value_iff.1 hvw
    obtain ⟨rfl, hm'⟩ := hboth hgoes
    exact ⟨rfl, hm', hv⟩
  | failed hgoes he =>
    obtain ⟨rfl, he⟩ := he
    obtain ⟨rfl, hm'⟩ := hboth hgoes
    exact ⟨rfl, hm', he⟩
  | exhausted hr =>
    obtain ⟨n', rfl, hgoes⟩ := hr rfl
    obtain ⟨rfl, hm'⟩ := hboth hgoes
    exact ⟨rfl, hm'⟩
  | excused he => exact False.elim he

/-- **A change that nothing notices** is carried through an evaluation, and the invariant holds where it ends. -/
theorem run_changed (hg : I.Unnoticed g) {m : Machine} {a : Activation} (hm : I.machine m) (ha : I.activation m a)
    (depth : Nat) : Activation.run depth a (g m) = Machine.onEnd g (Activation.run depth a m) ∧
      I.Ends m (Activation.run depth a m) :=
  ends_of_outcome ((h.changed hg).run_quiet depth ⟨rfl, hm⟩ (activations_self ha))

/-- **The invariant holds wherever an evaluation comes, and where it ends.** -/
theorem run {m : Machine} {a : Activation} (hm : I.machine m) (ha : I.activation m a) (depth : Nat) :
    I.Ends m (Activation.run depth a m) ∧
      Activation.Throughout (fun b n => I.machine n ∧ I.activation n b) depth a m := by
  refine ⟨(h.run_changed I.unnoticed_id hm ha depth).2, fun watch hwatch => ?_⟩
  have hsame : Activation.run depth a m = Machine.onEnd id (Activation.watched watch depth a m) := by
    refine (ends_of_outcome ((h.changed I.unnoticed_id).run ?_ depth m m a a ⟨rfl, hm⟩ (activations_self ha))).1
    rintro n _ b c ⟨rfl, hn⟩ hbc
    exact hwatch b n ⟨hn, activations_iff hbc⟩
  rw [hsame, Machine.onEnd_id]

end Lawful

end Invariant

end MiniLisp
