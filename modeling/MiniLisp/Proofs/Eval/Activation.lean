import Mathlib.Tactic.ByContra
import MiniLisp.Eval
/-!
# Activation — one step of evaluation at a time

`eval` and `apply` call each other.  An activation is a call of either, and `Activation.step` is what one activation
does, given how the activations inside it run; `Activation.run_succ` says that evaluation is this step over and over,
as long as what is left of the depth is enough for it (`Activation.fits`).  So a property of evaluation needs an
argument about one step.

`watched` is evaluation with a watcher, which is told of every activation when it starts; one that there is not depth
enough for does not start.  A property holds `Throughout` an evaluation if a watcher that only objects where it fails
never objects; and an evaluation `Visits` an activation if a watcher that objects there, and only there, does.
-/
namespace MiniLisp

open Builtin (mapItems)

theorem EvalM.bind_apply {α β : Type} (x : EvalM α) (f : α → EvalM β) (m : Machine) :
    (x >>= f) m = match x m with
      | .ok a m' => f a m'
      | .error halt m' => .error halt m' := by
  show EStateM.bind x f m = _
  unfold EStateM.bind
  cases x m <;> rfl

theorem EvalM.bind_eq_ok {α β : Type} {x : EvalM α} {f : α → EvalM β} {m m' : Machine} {b : β} :
    (x >>= f) m = .ok b m' ↔ ∃ a n, x m = .ok a n ∧ f a n = .ok b m' := by
  rw [EvalM.bind_apply]
  cases x m with
  | ok a n =>
    refine ⟨fun h => ⟨a, n, rfl, h⟩, ?_⟩
    rintro ⟨_, _, ⟨⟩, h⟩
    exact h
  | error halt n => exact ⟨nofun, fun ⟨_, _, h, _⟩ => nomatch h⟩

theorem checkBound_ident (frame : FrameId) (name : String) (pos : Position) (m : Machine) :
    checkBound frame (.ident name pos) m =
      if (m.store.find? frame name).isSome then .ok () m else .error (.failed (.undefinedFunction name pos)) m := by
  have hfind : EvalM.find? frame name m = .ok (m.store.find? frame name) m := rfl
  rw [checkBound, EvalM.bind_apply, hfind]
  dsimp only
  cases m.store.find? frame name <;> rfl

/-- A check that succeeds has changed nothing, and found the name. -/
theorem checkBound_eq_ok {frame : FrameId} {e : Expr} {m m' : Machine} (h : checkBound frame e m = .ok () m') :
    m' = m ∧ ∀ name pos, e = .ident name pos → m.store.find? frame name ≠ none := by
  cases e with
  | ident name pos =>
    rw [checkBound_ident] at h
    cases hfind : m.store.find? frame name with
    | none =>
      rw [hfind] at h
      cases h
    | some G =>
      rw [hfind] at h
      cases h
      refine ⟨rfl, ?_⟩
      rintro _ _ ⟨⟩
      rw [hfind]
      exact nofun
  | _ =>
    cases h
    exact ⟨rfl, nofun⟩

theorem checkBound_of_ne {e : Expr} (h : ∀ name pos, e ≠ .ident name pos) (frame : FrameId) :
    checkBound frame e = pure () := by
  cases e with
  | ident name pos => exact absurd rfl (h name pos)
  | _ => rfl

theorem Builtin.fits_of_le {depth depth' : Nat} (hle : depth ≤ depth') {b : Builtin} {args : List Value}
    (h : b.fits depth args = true) : b.fits depth' args = true := by
  cases b with
  | print =>
    rw [fits, List.all_eq_true] at h ⊢
    exact fun v hv => decide_eq_true (Nat.le_trans (of_decide_eq_true (h v hv)) (Nat.mul_le_mul_left 2 hle))
  | _ => rfl

/-- An expression that is evaluated in a frame, or a function that is applied. -/
inductive Activation where
  | expr (frame : FrameId) (e : Expr)
  | call (caller : FrameId) (f : Function) (args : List Value)

namespace Activation

/-- **What one activation does**, given how the ones inside it run. -/
def step (run : Activation → EvalM Value) : Activation → EvalM Value
  | .expr frame e =>
    match e with
    | .number x _ => return .number x
    | .string text _ => return .string text
    | .bool b _ => return .bool b
    | .nil _ => return .nil
    | .operator op _ => return .function (.operator op (← EvalM.newMark))
    | .ident name _ => EvalM.lookup frame name
    | .call [] _ => return .nil
    | .call (head :: args) _ => do
      checkBound frame head
      let f ← EvalM.ofExcept (asFunction head.pos (← run (.expr frame head)))
      let values ← mapItems (fun e => run (.expr frame e)) args
      run (.call frame f values)
    | .cond test yes no _ => do
      match ← run (.expr frame test) with
      | .bool true => run (.expr frame yes)
      | .bool false => run (.expr frame no)
      | v => EvalM.fail (.type .bool v.kind test.pos)
    | .fn params body pos => return .function (.closure ⟨← EvalM.newMark, frame, params, body, pos⟩)
    | .define name _ value _ => do
      let v ← run (.expr frame value)
      EvalM.define frame name v
      return v
  | .call caller f args =>
    match f with
    | .builtin b => b.run (fun f args => run (.call caller f args)) args
    | .operator op _ => EvalM.ofExcept (op.apply args)
    | .closure c => do
      let frame ← enter c args
      lastValue (fun e => run (.expr frame e)) .nil c.body

/-- What a call evaluates before anything is applied: the callee, which must be a function, and then the arguments. -/
def front (run : Activation → EvalM Value) (frame : FrameId) (head : Expr) (args : List Expr) :
    EvalM (Function × List Value) := do
  checkBound frame head
  let f ← EvalM.ofExcept (asFunction head.pos (← run (.expr frame head)))
  let values ← mapItems (fun e => run (.expr frame e)) args
  return (f, values)

theorem step_call (run : Activation → EvalM Value) (frame : FrameId) (head : Expr) (args : List Expr) (pos : Position) :
    step run (.expr frame (.call (head :: args) pos)) =
      front run frame head args >>= fun r => run (.call frame r.1 r.2) := by
  simp only [step, front, bind_assoc, pure_bind]

/-- Whether a depth is enough for what an activation does itself, apart from the ones inside it. -/
def fits (depth : Nat) : Activation → Bool
  | .expr _ _ => true
  | .call _ f args =>
    match f with
    | .builtin b => b.fits depth args
    | .operator _ _ | .closure _ => true

theorem fits_of_le {depth depth' : Nat} (hle : depth ≤ depth') {a : Activation} (h : a.fits depth = true) :
    a.fits depth' = true := by
  cases a with
  | expr frame e => rfl
  | call caller f args =>
    cases f with
    | builtin b => exact Builtin.fits_of_le hle h
    | operator op mark => rfl
    | closure c => rfl

/-- An activation at some depth. -/
def run (depth : Nat) : Activation → EvalM Value
  | .expr frame e => eval depth frame e
  | .call caller f args => apply depth caller f args

theorem run_zero (a : Activation) : run 0 a = throw .exhausted := by
  cases a with
  | expr frame e => rw [run, eval]
  | call caller f args => rw [run, apply]

theorem run_succ (depth : Nat) (a : Activation) :
    run (depth + 1) a = if a.fits depth then a.step (run depth) else throw .exhausted := by
  cases a with
  | expr frame e =>
    rw [run, fits, if_pos rfl]
    cases e with
    | call items pos =>
      cases items with
      | nil => rw [eval, step]
      | cons head args => rw [eval, step]; rfl
    | _ => rw [eval, step] <;> rfl
  | call caller f args =>
    rw [run]
    cases f <;> rw [apply, fits, step] <;> rfl

/-! ## Watching -/

/-- Evaluation in which a watcher is told of every activation when it starts. -/
def watched (watch : Activation → EvalM Unit) : Nat → Activation → EvalM Value
  | 0, _ => throw .exhausted
  | depth + 1, a =>
    if a.fits depth then do
      watch a
      a.step (watched watch depth)
    else throw .exhausted

theorem watched_succ (watch : Activation → EvalM Unit) (depth : Nat) (a : Activation) :
    watched watch (depth + 1) a =
      if a.fits depth then watch a >>= fun _ => a.step (watched watch depth) else throw .exhausted := rfl

/-- A watcher that does nothing goes unnoticed. -/
theorem watched_quiet : ∀ depth : Nat, watched (fun _ => pure ()) depth = run depth
  | 0 => funext fun a => (run_zero a).symm
  | depth + 1 => by
    funext a m
    rw [watched_succ, run_succ, watched_quiet depth]
    rfl

/-- **A property of activations, and of the machines they start in, holds in all of an evaluation**: a watcher that
keeps quiet wherever it holds goes unnoticed. -/
def Throughout (p : Activation → Machine → Prop) (depth : Nat) (a : Activation) (m : Machine) : Prop :=
  ∀ watch : Activation → EvalM Unit, (∀ b n, p b n → watch b n = .ok () n) → watched watch depth a m = run depth a m

/-- **An evaluation comes to an activation** `b` in a machine `n`: a watcher that only objects there is noticed. -/
def Visits (depth : Nat) (a : Activation) (m : Machine) (b : Activation) (n : Machine) : Prop :=
  ¬ Throughout (fun c k => ¬(c = b ∧ k = n)) depth a m

variable {p : Activation → Machine → Prop} {depth : Nat} {a b : Activation} {m n : Machine}

theorem Throughout.mono {q : Activation → Machine → Prop} (h : Throughout p depth a m) (hpq : ∀ b n, p b n → q b n) :
    Throughout q depth a m := fun watch hquiet => h watch fun b n hb => hquiet b n (hpq b n hb)

/-- What holds throughout holds wherever the evaluation comes. -/
theorem Throughout.of_visits (h : Throughout p depth a m) (hvisits : Visits depth a m b n) : p b n := by
  by_contra hnot
  refine hvisits (h.mono fun c k hck hsame => hnot ?_)
  obtain ⟨rfl, rfl⟩ := hsame
  exact hck

/-- A watcher can object in one place only, as it likes. -/
theorem exists_objector {β : Type} (b : β) (n : Machine) (halt : Halt) : ∃ watch : β → EvalM Unit,
    (∀ c k, ¬(c = b ∧ k = n) → watch c k = .ok () k) ∧ watch b n = .error halt n := by
  classical
  exact ⟨fun c k => if c = b ∧ k = n then .error halt k else .ok () k, fun c k hc => if_neg hc, if_pos ⟨rfl, rfl⟩⟩

/-- No evaluation ends in every way. -/
theorem not_forall_halt {r : EStateM.Result Halt Machine Value} (h : ∀ halt, ∃ n, r = .error halt n) : False := by
  obtain ⟨n, hn⟩ := h .exhausted
  obtain ⟨n', hn'⟩ := h (.failed (.readOnly ""))
  rw [hn] at hn'
  cases hn'

end Activation

end MiniLisp
