import MiniLisp.Proofs.Eval.Unmentioned
import MiniLisp.Proofs.Interpreter.Commands
/-!
# Unmentioned — an interpreter that was given a binding that nobody mentions

Whatever a new interpreter is given to bind first, under the name of a built-in too: as long as no command mentions it,
it answers as if it were not there, and the binding stays in front of the others of the script frame
(`session_unmentioned`).
-/
namespace MiniLisp

variable {i : Interpreter} {name : String} {v : Value} {m : Machine}

/-- **A command evaluates nothing that mentions a name.** -/
def Command.Omits (i : Interpreter) (name : String) : Command → Prop
  | .parse _ _ => True
  | .evaluate es => ∀ e ∈ es, e.Omits name
  | .run source text => ∀ es, i.parse source text = .ok es → ∀ e ∈ es, e.Omits name

/-- An answer with one more binding in front of the others of the script frame. -/
def Answer.added (name : String) (v : Value) (a : Answer) : Answer :=
  { a with script := a.script.map (Frame.added name v) }

namespace Machine.Omits

/-! ## One expression after the other -/

theorem evalExpr (h : m.Omits i.frame name) {e : Expr} (he : e.Omits name) (v : Value) :
    i.evalExpr e (m.added i.frame name v) = onEnd (added i.frame name v) (i.evalExpr e m) ∧
      (atEnd (i.evalExpr e m)).Omits i.frame name := by
  have hrun : eval (Interpreter.maxDepth i.limit) i.frame e (m.added i.frame name v) =
        onEnd (added i.frame name v) (eval (Interpreter.maxDepth i.limit) i.frame e m) ∧
      (atEnd (eval (Interpreter.maxDepth i.limit) i.frame e m)).Omits i.frame name :=
    h.run (a := .expr i.frame e) ⟨.inr (Nat.le_refl _), he⟩ v (Interpreter.maxDepth i.limit)
  obtain ⟨hsame, homits⟩ := hrun
  unfold Interpreter.evalExpr
  rw [hsame]
  generalize eval (Interpreter.maxDepth i.limit) i.frame e m = r at homits
  match r, homits with
  | .ok v m', homits => exact ⟨rfl, homits⟩
  | .error (.failed e) m', homits => exact ⟨rfl, homits⟩
  | .error .exhausted m', homits => exact ⟨rfl, homits⟩

theorem evalExprs (v : Value) : ∀ {es : List Expr} {m : Machine}, m.Omits i.frame name → (∀ e ∈ es, e.Omits name) →
    i.evalExprs es (m.added i.frame name v) = onEnd (added i.frame name v) (i.evalExprs es m) ∧
      (atEnd (i.evalExprs es m)).Omits i.frame name
  | [], _, h, _ => ⟨rfl, h⟩
  | e :: es, m, h, hes => by
    obtain ⟨he, hrest⟩ := List.forall_mem_cons.1 hes
    obtain ⟨hsame, homits⟩ := h.evalExpr he v
    rw [Interpreter.evalExprs_cons, Interpreter.evalExprs_cons, hsame]
    generalize i.evalExpr e m = r at homits
    match r, homits with
    | .error e m', homits => exact ⟨rfl, homits⟩
    | .ok w m', homits =>
      have hm' : m'.Omits i.frame name := homits
      obtain ⟨hsame, homits⟩ := evalExprs v hm' hrest
      dsimp only [onEnd]
      rw [hsame]
      generalize i.evalExprs es m' = r at homits
      match r, homits with
      | .error e m'', homits => exact ⟨rfl, homits⟩
      | .ok ws m'', homits => exact ⟨rfl, homits⟩

/-! ## One command after the other -/

theorem answer {r : EStateM.Result Error Machine (List Value)} (h : (atEnd r).Omits i.frame name) :
    i.answer (m.added i.frame name v) (onEnd (added i.frame name v) r) =
      ((i.answer m r).1.added name v, (i.answer m r).2.added i.frame name v) ∧
      (i.answer m r).2.Omits i.frame name := by
  match r, h with
  | .ok vs m', h => exact ⟨congrArg (fun f => (Answer.mk _ _ f, _)) Store.frame?_added_self, h⟩
  | .error e m', h => exact ⟨congrArg (fun f => (Answer.mk _ _ f, _)) Store.frame?_added_self, h⟩

/-- **A command that mentions a name nowhere is answered as if it were not bound.** -/
theorem serve (h : m.Omits i.frame name) {c : Command} (hc : c.Omits i name) (v : Value) :
    i.serve c (m.added i.frame name v) = ((i.serve c m).1.added name v, (i.serve c m).2.added i.frame name v) ∧
      (i.serve c m).2.Omits i.frame name := by
  have hevaluate : ∀ es : List Expr, (∀ e ∈ es, e.Omits name) →
      i.answer (m.added i.frame name v) (i.evalExprs es (m.added i.frame name v)) =
        ((i.answer m (i.evalExprs es m)).1.added name v, (i.answer m (i.evalExprs es m)).2.added i.frame name v) ∧
      (i.answer m (i.evalExprs es m)).2.Omits i.frame name := by
    intro es hes
    obtain ⟨hsame, homits⟩ := h.evalExprs v hes
    rw [hsame]
    exact answer homits
  cases c with
  | parse source text => exact ⟨congrArg (fun f => (Answer.mk _ _ f, _)) Store.frame?_added_self, h⟩
  | evaluate es => exact hevaluate es hc
  | run source text =>
    unfold Command.Omits at hc
    simp only [Interpreter.serve, Interpreter.evalAll]
    cases hparse : i.parse source text with
    | ok es => exact hevaluate es (hc es hparse)
    | error e => exact answer (r := .error e m) h

theorem session (v : Value) : ∀ {cs : List Command} {m : Machine}, m.Omits i.frame name →
    (∀ c ∈ cs, c.Omits i name) → i.session cs (m.added i.frame name v) =
      ((i.session cs m).1.map (Answer.added name v), (i.session cs m).2.added i.frame name v)
  | [], _, _, _ => rfl
  | c :: cs, m, h, hcs => by
    obtain ⟨hc, hrest⟩ := List.forall_mem_cons.1 hcs
    obtain ⟨hsame, homits⟩ := h.serve hc v
    rw [Interpreter.session, hsame, session v homits hrest]
    rfl

end Machine.Omits

namespace Interpreter

/-- What is bound first in a new script frame. -/
theorem define_create (limit : Nat) (name : String) (v : Value) (m : Machine) :
    EvalM.define (create limit m).1.frame name v (create limit m).2 =
      .ok () ((create limit m).2.added (create limit m).1.frame name v) := by
  have hwritable : (create limit m).2.store.readOnly (create limit m).1.frame = false := by
    show (m.store.child Store.root []).2.readOnly m.store.frames.size = false
    unfold Store.readOnly
    rw [Store.frame?_child_self]
  rw [EvalM.define_eq, Store.define, hwritable]
  exact congrArg (fun s => EStateM.Result.ok () { m with store := s }) Store.bind_child

end Interpreter

/-- **A binding that nobody mentions changes nothing.**  A new interpreter, in whatever machine, can be given a binding
of any name to any value first.  If nothing that it is then asked to evaluate mentions the name, every answer has the
same values or the same error, the same is printed, and the script frame after each command is the same but for that
binding, which is in front; and nothing else is different in the machine in the end. -/
theorem session_unmentioned {is : List Interpreter} {vs : List Value} {m : Machine} (h : Reached is vs m) (limit : Nat)
    (name : String) (v : Value) {i : Interpreter} {m₀ : Machine} (hcreate : Interpreter.create limit m = (i, m₀))
    {cs : List Command} (hcs : ∀ c ∈ cs, c.Omits i name) :
    ∃ m₁, EvalM.define i.frame name v m₀ = .ok () m₁ ∧
      i.session cs m₁ = ((i.session cs m₀).1.map (Answer.added name v), (i.session cs m₀).2.added i.frame name v) := by
  obtain ⟨rfl, rfl⟩ := Prod.ext_iff.1 hcreate
  have homits : (Interpreter.create limit m).2.Omits (Interpreter.create limit m).1.frame name :=
    Machine.omits_child h.sound.1.root name
  exact ⟨_, Interpreter.define_create limit name v m, homits.session v hcs⟩

/-- Where `car` is the empty list from the start, `cdr` is still what it was. -/
theorem session_unmentioned_car : ∃ m₁,
    EvalM.define 1 "car" .nil (Interpreter.create 30 .initial).2 = .ok () m₁ ∧ m₁.store.lookup 1 "car" = .nil ∧
    ∃ a ∈ ((⟨1, 30⟩ : Interpreter).session [.run "a" "(list cdr)"] m₁).1,
      a.reply = .evaluated (.ok [.list [.function (.builtin .cdr)]]) := by
  have hparse : (⟨1, 30⟩ : Interpreter).parse "a" "(list cdr)" =
      .ok [.call [.ident "list" ⟨"a", 1, 2⟩, .ident "cdr" ⟨"a", 1, 7⟩] ⟨"a", 1, 1⟩] := by
    have hdrain : (TokenReader.ofText "a" "(list cdr)".toList).drain =
        ([⟨.openParen, "(", ⟨"a", 1, 1⟩⟩, ⟨.ident, "list", ⟨"a", 1, 2⟩⟩, ⟨.ident, "cdr", ⟨"a", 1, 7⟩⟩,
          ⟨.closeParen, ")", ⟨"a", 1, 10⟩⟩], .ended ⟨"a", 1, 10⟩) := by decide +kernel
    rw [Interpreter.parse, Program.parse, hdrain]
    rfl
  have homits : ∀ c ∈ [Command.run "a" "(list cdr)"], c.Omits ⟨1, 30⟩ "car" := by
    refine List.forall_mem_singleton.2 fun es hes => ?_
    obtain rfl := Except.ok.inj (hparse.symm.trans hes)
    exact List.forall_mem_singleton.2 (by decide)
  have hcreate : Interpreter.create 30 .initial = (⟨1, 30⟩, (Interpreter.create 30 .initial).2) := rfl
  obtain ⟨m₁, hdefine, hsession⟩ := session_unmentioned .initial 30 "car" .nil hcreate homits
  refine ⟨m₁, hdefine, ?_, _, by rw [hsession]; exact List.mem_cons_self, ?_⟩
  · cases hdefine
    rfl
  · rw [Answer.added, Interpreter.serve, Interpreter.evalAll, hparse]
    rfl

end MiniLisp
