import MiniLisp.Proofs.Eval.Sound
import MiniLisp.Proofs.Interpreter.Sequence
import MiniLisp.Proofs.Program.Failure
/-!
# Reached — the states of interpreters that share a machine

Interpreters are created and evaluate expressions in any order, and each expression succeeds or fails.  Every state that
is reached is sound: the root frame holds the built-ins as they were, and nothing is ever evaluated in it.
-/
namespace MiniLisp

/-- **The states that interpreters reach**, with the interpreters, and the values that they have answered. -/
inductive Reached : List Interpreter → List Value → Machine → Prop
  | initial : Reached [] [] .initial
  | create {is : List Interpreter} {vs : List Value} {m : Machine} (limit : Nat) : Reached is vs m →
      Reached ((Interpreter.create limit m).1 :: is) vs (Interpreter.create limit m).2
  | ok {is : List Interpreter} {vs : List Value} {m m' : Machine} {i : Interpreter} {e : Expr} {v : Value} :
      Reached is vs m → i ∈ is → i.evalExpr e m = .ok v m' → Reached is (v :: vs) m'
  | error {is : List Interpreter} {vs : List Value} {m m' : Machine} {i : Interpreter} {e : Expr} {error : Error} :
      Reached is vs m → i ∈ is → i.evalExpr e m = .error error m' → Reached is vs m'

/-- **A machine that interpreters come to**: between two expressions, or where anything starts inside one. -/
inductive Visited : Machine → Prop
  | between {is : List Interpreter} {vs : List Value} {m : Machine} : Reached is vs m → Visited m
  | within {is : List Interpreter} {vs : List Value} {m n : Machine} {i : Interpreter} {e : Expr} {depth : Nat}
      {a : Activation} : Reached is vs m → i ∈ is → Activation.Visits depth (.expr i.frame e) m a n → Visited n

/-- **A run that reaches a state, and was refused no binding.**  What it answers is held. -/
def Reaches (is : List Interpreter) (vs : List Value) : EStateM.Result Error Machine (List Value) → Prop
  | .ok ws m' => Reached is (ws.reverse ++ vs) m'
  | .error e m' => (∃ ws, Reached is (ws ++ vs) m') ∧ ∀ name, e ≠ .readOnly name

/-! ## Soundness -/

namespace Machine

theorem sound_initial : initial.Sound where
  root := rfl
  inside := fun F hF hne => absurd (Nat.lt_one_iff.1 hF) hne
  bound := Store.everywhere_initial fun b f hf => by
    obtain rfl := List.mem_singleton.1 hf
    trivial

variable {m : Machine}

theorem Sound.create (h : m.Sound) (limit : Nat) :
    (Interpreter.create limit m).2.Sound ∧ m.Grows (Interpreter.create limit m).2 ∧
      (Interpreter.create limit m).2.store.Scoped (Interpreter.create limit m).1.frame := by
  have hroot : m.store.Rooted Store.root := .top h.root
  exact ⟨h.child hroot nofun, grows_child, hroot.scoped_child⟩

/-- **What evaluating an expression does to a sound machine.** -/
theorem Sound.evalExpr (h : m.Sound) {i : Interpreter} (hF : m.store.Scoped i.frame) (e : Expr) :
    match i.evalExpr e m with
    | .ok v m' => m'.Sound ∧ m.Grows m' ∧ m'.Holds v
    | .error error m' => m'.Sound ∧ m.Grows m' ∧ ∀ name, error ≠ .readOnly name := by
  have hends : m.Ends (eval (Interpreter.maxDepth i.limit) i.frame e m) :=
    (h.run (a := .expr i.frame e) hF (Interpreter.maxDepth i.limit)).1
  unfold Interpreter.evalExpr
  generalize eval (Interpreter.maxDepth i.limit) i.frame e m = r at hends
  match r, hends with
  | .ok v m', hends => exact hends
  | .error (.failed error) m', hends => exact hends
  | .error .exhausted m', hends => exact ⟨hends.1, hends.2, nofun⟩

end Machine

namespace Reached

variable {is : List Interpreter} {vs : List Value} {m m' : Machine} {i : Interpreter} {e : Expr}

/-- **Every state that is reached is sound**, its interpreters run in scoped frames, and it holds what they answered. -/
theorem sound (h : Reached is vs m) :
    m.Sound ∧ (∀ i ∈ is, m.store.Scoped i.frame) ∧ ∀ v ∈ vs, m.Holds v := by
  induction h with
  | initial => exact ⟨Machine.sound_initial, nofun, nofun⟩
  | create limit _ ih =>
    obtain ⟨hm, hframes, hvs⟩ := ih
    obtain ⟨hm', hgrows, hnew⟩ := hm.create limit
    refine ⟨hm', List.forall_mem_cons.2 ⟨hnew, fun i hi => ?_⟩, fun v hv => (hvs v hv).grow hgrows⟩
    exact hgrows.inside _ (hframes i hi)
  | @ok is vs m m' i e v _ hi heval ih =>
    obtain ⟨hm, hframes, hvs⟩ := ih
    have hends := hm.evalExpr (hframes i hi) e
    rw [heval] at hends
    obtain ⟨hm', hgrows, hv⟩ := hends
    refine ⟨hm', fun j hj => hgrows.inside _ (hframes j hj), List.forall_mem_cons.2 ⟨hv, fun w hw => ?_⟩⟩
    exact (hvs w hw).grow hgrows
  | @error is vs m m' i e error _ hi heval ih =>
    obtain ⟨hm, hframes, hvs⟩ := ih
    have hends := hm.evalExpr (hframes i hi) e
    rw [heval] at hends
    obtain ⟨hm', hgrows, -⟩ := hends
    exact ⟨hm', fun j hj => hgrows.inside _ (hframes j hj), fun w hw => (hvs w hw).grow hgrows⟩

end Reached

theorem Visited.sound {m : Machine} (h : Visited m) : m.Sound := by
  cases h with
  | between h => exact h.sound.1
  | @within is vs m₀ m i e depth a h hi hvisits =>
    obtain ⟨hm, hframes, -⟩ := h.sound
    exact ((hm.run (a := .expr i.frame e) (hframes i hi) depth).2.of_visits hvisits).1

/-! ## Programs -/

namespace Reached

variable {is : List Interpreter} {vs : List Value} {m m' : Machine} {i : Interpreter} {e : Expr}

theorem evalExprs (h : Reached is vs m) (hi : i ∈ is) (es : List Expr) : Reaches is vs (i.evalExprs es m) := by
  refine Interpreter.evalExprs_induction (P := fun ws n => Reached is (ws ++ vs) n) h
    (fun e _ ws n v n' hn heval => hn.ok hi heval) fun e _ ws n failure n' hn heval => ⟨⟨ws, hn.error hi heval⟩, ?_⟩
  obtain ⟨hsound, hframes, -⟩ := hn.sound
  have hends := hsound.evalExpr (hframes i hi) e
  rw [heval] at hends
  exact hends.2.2

/-- **A program that an interpreter runs** reaches a state, and is refused no binding. -/
theorem evalAll (h : Reached is vs m) (hi : i ∈ is) (source text : String) :
    Reaches is vs (i.evalAll source text m) := by
  unfold Interpreter.evalAll
  cases hparse : i.parse source text with
  | ok es => exact h.evalExprs hi es
  | error e =>
    refine ⟨⟨[], h⟩, ?_⟩
    rintro name rfl
    cases Program.ofParsing_of_parse hparse

/-- **A new interpreter with a prelude** is one more interpreter in a state that is reached, however the prelude
ends. -/
theorem createWith (h : Reached is vs m) (limit : Nat) (prelude? : Option String) :
    match Interpreter.createWith limit prelude? m with
    | .ok i m' => ∃ ws, Reached (i :: is) (ws ++ vs) m'
    | .error e m' => (∃ i ws, Reached (i :: is) (ws ++ vs) m') ∧ ∀ name, e ≠ .readOnly name := by
  have hnew := h.create limit
  cases prelude? with
  | none => exact ⟨[], hnew⟩
  | some text =>
    have hruns := hnew.evalAll List.mem_cons_self Interpreter.preludeSource text
    rw [Interpreter.createWith_some]
    generalize (Interpreter.create limit m).1.evalAll Interpreter.preludeSource text (Interpreter.create limit m).2 = r
      at hruns
    match r, hruns with
    | .ok ws m', hruns => exact ⟨ws.reverse, hruns⟩
    | .error e m', ⟨⟨ws, hws⟩, hne⟩ => exact ⟨⟨_, ws, hws⟩, hne⟩

end Reached

/-- **The root frame is never changed, and nothing is ever evaluated in it.**  In every state that interpreters reach,
the root binds the built-ins as it did, and every closure that is bound anywhere or was answered has captured a scoped
frame, one that is not the root but inside it.  The same is true whenever anything is evaluated on the way, and the
frame that it is evaluated in is scoped too.  So no interpreter is ever told that a name cannot be bound, whatever it
runs. -/
theorem reached_root_unchanged {is : List Interpreter} {vs : List Value} {m : Machine} (h : Reached is vs m) :
    m.store.frame? Store.root = some Store.rootFrame ∧
    (∀ F v c, v ∈ (m.store.bindings F).values ∨ v ∈ vs → .closure c ∈ v.functions → m.store.Scoped c.frame) ∧
    (∀ (n : Machine) F, n.store.Scoped F → F ≠ Store.root ∧ (n.store.chain F).getLast? = some Store.root) ∧
    (∀ i ∈ is, m.store.Scoped i.frame ∧
      (∀ depth e, Activation.Throughout (fun a n => n.Sound ∧ a.Known n) depth (.expr i.frame e) m) ∧
      (∀ es, Reaches is vs (i.evalExprs es m)) ∧ ∀ source text, Reaches is vs (i.evalAll source text m)) ∧
    ∀ limit prelude? name m', Interpreter.createWith limit prelude? m ≠ .error (.readOnly name) m' := by
  obtain ⟨hm, hframes, hvs⟩ := h.sound
  refine ⟨hm.root, fun F v c hv hc => ?_, fun _ F hF => ⟨hF.ne_root, hF.rooted.getLast?_chain⟩, fun i hi => ?_, ?_⟩
  · have hholds : m.Holds v := hv.elim (hm.bound F v) (hvs v)
    exact (hholds _ hc).2
  · have hF := hframes i hi
    exact ⟨hF, fun depth e => (hm.run (a := .expr i.frame e) hF depth).2, fun es => h.evalExprs hi es, h.evalAll hi⟩
  · intro limit prelude? name m' hfails
    have hends := h.createWith limit prelude?
    rw [hfails] at hends
    exact hends.2 name rfl

/-- A program may give the name of a built-in another meaning, but not to anyone else. -/
theorem reached_car_rebound : ∃ m, Reached [⟨1, 10⟩] [.nil] m ∧ m.store.lookup 1 "car" = .nil ∧
    m.store.frame? Store.root = some Store.rootFrame :=
  have h := (Reached.initial.create 10).ok (e := .define "car" {} (.nil {}) {}) List.mem_cons_self rfl
  ⟨_, h, rfl, (reached_root_unchanged h).1⟩

end MiniLisp
