import MiniLisp.Interpreter
import MiniLisp.Proofs.Eval.Plain
/-!
# WithoutFn — programs without `fn` end

An expression without `fn`, evaluated where no closure is bound, ends, and needs no more depth than it nests, and three
calls, whatever the data (`Interpreter.eval_without_fn`).  Only `print` needs more: it goes into the values that it
shows, as deep as they nest (`Interpreter.print_needs_depth`).
-/
namespace MiniLisp

/-- **How an evaluation without closures ends**: with a value or an error of the language, and still without closures. -/
def Store.EndsPlain (F : FrameId) : EStateM.Result Halt Machine Value → Prop
  | .ok v m => v.Plain ∧ m.store.Plain F
  | .error (.failed e) m => (∀ pos, e ≠ .recursionTooDeep pos) ∧ m.store.Plain F
  | .error .exhausted _ => False

/-- **An evaluation comes to a call of `print` with a value that nests deeper than `steps`.** -/
def Activation.PrintsDeeper (steps : Nat) (a : Activation) (m : Machine) : Prop :=
  ∃ depth caller args outer n, Comes depth a m (.call caller (.builtin .print) args :: outer) n ∧
    ∃ v ∈ args, steps < v.height

namespace Activation

variable {depth : Nat} {F : FrameId} {e : Expr} {m n : Machine} {a : Activation} {stack : List Activation}

/-- Only calls of `print` may not fit. -/
theorem exists_print_of_not_fits (h : a.fits depth = false) :
    ∃ caller args, a = .call caller (.builtin .print) args ∧ ∃ v ∈ args, 2 * depth < v.height := by
  match a, h with
  | .call caller (.builtin .print) args, h =>
    obtain ⟨v, hv, hheight⟩ := List.all_eq_false.1 h
    exact ⟨caller, args, rfl, v, hv, by simpa using hheight⟩

/-- **A shallow stack is too deep for a depth only if it prints.** -/
theorem Shallow.printsDeeper {depth' : Nat} (h : Shallow e stack) (hdepth : e.height + 4 ≤ depth)
    (hdeep : TooDeep depth stack) (hcomes : Comes depth' a m stack n) :
    PrintsDeeper (2 * (depth - (e.height + 4))) a m := by
  have hlength := h.length_le
  match stack, hdeep with
  | b :: outer, .inl hle =>
    rw [List.length_cons] at hlength
    omega
  | b :: outer, .inr hfits =>
    obtain ⟨caller, args, rfl, v, hv, hheight⟩ := exists_print_of_not_fits hfits
    rw [List.length_cons] at hlength
    exact ⟨depth', caller, args, outer, n, hcomes, v, hv, by omega⟩

theorem endsPlain (hF : m.store.Plain F) (he : e.nesting = 0)
    (hends : ∀ n, run depth (.expr F e) m ≠ .error .exhausted n) : Store.EndsPlain F (run depth (.expr F e) m) := by
  have ha : Invariant.plain.activation m (.expr F e) := ⟨(), hF, he⟩
  have hplain := (Invariant.plain_lawful.run trivial ha depth).1
  match hr : run depth (.expr F e) m, hplain with
  | .ok v m', ⟨hg, hv⟩ => exact ⟨Invariant.value_plain.1 hv, hg.later F hF⟩
  | .error (.failed error) m', ⟨hg, _⟩ => exact ⟨ne_recursionTooDeep hr, hg.later F hF⟩
  | .error .exhausted m', _ => exact absurd hr (hends m')

end Activation

namespace Interpreter

open Activation (Stacked Shallow PrintsDeeper)

/-- **Programs without `fn` end.**  Let no closure be bound on the chain of a frame, and let an expression have no `fn`
form.  At every depth its evaluation nests as deep as the expression, and in three calls at most; the third is inside
one that `listReduce` makes of a built-in that calls a function and takes two arguments.  From some depth on the
evaluation ends, with a value or with an error of the language, and no closure is bound then.  So it ends at every depth
that is larger than the nesting of the expression by a constant, and an interpreter with such a limit does not answer
that the recursion is too deep; unless the evaluation comes to a call of `print` with a value that nests deeper than
what is left of the depth allows. -/
theorem eval_without_fn {F : FrameId} {e : Expr} {m : Machine} (hF : m.store.Plain F) (he : e.nesting = 0) :
    (∀ depth, Stacked (fun stack _ => Shallow e stack) depth (.expr F e) m) ∧
    ∃ r, Store.EndsPlain F r ∧ (∃ d₀, ∀ depth ≥ d₀, eval depth F e m = r) ∧
      (∀ depth, e.height + 4 ≤ depth → eval depth F e m = r ∨
        (∃ n, eval depth F e m = .error .exhausted n) ∧
          PrintsDeeper (2 * (depth - (e.height + 4))) (.expr F e) m) ∧
      ∀ limit, e.height + 4 ≤ maxDepth limit →
        (∀ pos n, (Interpreter.mk F limit).evalExpr e m ≠ .error (.recursionTooDeep pos) n) ∨
          PrintsDeeper (2 * (maxDepth limit - (e.height + 4))) (.expr F e) m := by
  have hshallow := Activation.stacked_shallow hF he
  obtain ⟨r, hends, d₀, hr⟩ := Activation.settles hF he
  have hplain : Store.EndsPlain F r := by
    rw [← hr d₀ (Nat.le_refl _)] at hends ⊢
    exact Activation.endsPlain hF he hends
  have hdepth : ∀ depth, e.height + 4 ≤ depth → eval depth F e m = r ∨
      (∃ n, eval depth F e m = .error .exhausted n) ∧ PrintsDeeper (2 * (depth - (e.height + 4))) (.expr F e) m := by
    intro depth hle
    rcases Activation.run_eq_or_cut (Nat.le_max_left depth d₀) (.expr F e) m with hsame | ⟨n, ⟨stack, hdeep, hcomes⟩, hcut⟩
    · exact .inl (hsame.trans (hr _ (Nat.le_max_right depth d₀)))
    · exact .inr ⟨⟨n, hcut⟩, ((hshallow _).of_comes hcomes).printsDeeper hle hdeep hcomes⟩
  refine ⟨hshallow, r, hplain, ⟨d₀, hr⟩, hdepth, fun limit hle => ?_⟩
  refine (hdepth (maxDepth limit) hle).imp (fun hsame pos n => ?_) fun hprint => hprint.2
  unfold evalExpr
  simp only [hsame]
  match r, hplain with
  | .ok v m', _ => exact nofun
  | .error (.failed error) m', ⟨hne, _⟩ =>
    intro h
    cases h
    exact hne pos rfl

theorem plain_initial : Machine.initial.store.Plain Store.root := fun G _ v =>
  Store.everywhere_initial (P := Value.Plain) (fun b f hf => by cases List.mem_singleton.1 hf; exact id) G v

/-- The call of `listReduce` with `listMap`, of a list with a pair and a list with `car`.  Three calls are nested in it. -/
def reduceMapCar : Expr :=
  .call [.ident "listReduce" {}, .call [.ident "list" {}, .call [.ident "cons" {}] {}] {},
    .call [.ident "list" {}, .ident "car" {}] {}, .ident "listMap" {}] {}

theorem eval_without_fn_reduceMapCar : Machine.initial.store.Plain Store.root ∧ reduceMapCar.nesting = 0 ∧
    ∃ d₀, ∀ depth ≥ d₀, eval depth Store.root reduceMapCar .initial = .ok (.list [.nil]) .initial := by
  obtain ⟨-, r, -, hr, hdepth, -⟩ := eval_without_fn plain_initial (e := reduceMapCar) rfl
  refine ⟨plain_initial, rfl, ?_⟩
  have hten : eval 10 Store.root reduceMapCar .initial = .ok (.list [.nil]) .initial := rfl
  rcases hdepth 10 (by decide) with hsame | ⟨⟨n, hcut⟩, -⟩
  · rwa [← hsame, hten] at hr
  · rw [hten] at hcut
    cases hcut

/-! ## What `print` needs -/

/-- A pair in a pair in a pair, and so on. -/
def deepPair : Nat → Value
  | 0 => .nil
  | k + 1 => .pair (deepPair k) .nil

theorem height_deepPair : ∀ k : Nat, (deepPair k).height = k + 1
  | 0 => rfl
  | k + 1 => by
    rw [deepPair, Value.height, height_deepPair k, Value.height]
    omega

theorem plain_deepPair : ∀ k : Nat, (deepPair k).Plain
  | 0 => nofun
  | k + 1 => by
    unfold deepPair Value.Plain
    rw [Value.functions, Value.functions, List.append_nil]
    exact plain_deepPair k

/-- A machine with one frame, which binds a deep pair. -/
def boundDeep (k : Nat) : Machine := Machine.initial.child Store.root [("x", deepPair k)]

theorem plain_boundDeep (k : Nat) : (boundDeep k).store.Plain 1 :=
  plain_initial.child (by simpa [Entries.values] using plain_deepPair k) (.inl rfl)

def printX : Expr := .call [.ident "print" {}, .ident "x" {}] {}

/-- **No constant is enough for `print`**: a call of it, without any `fn`, runs out of every depth if the value that it
shows nests deep enough. -/
theorem print_needs_depth : ¬ ∃ constant : Nat, ∀ (F : FrameId) (limit : Nat) (e : Expr) (m : Machine),
    m.store.Plain F → e.nesting = 0 → e.height + 1 + constant ≤ maxDepth limit →
      ∀ n, (Interpreter.mk F limit).evalExpr e m ≠ .error (.recursionTooDeep e.pos) n := by
  rintro ⟨constant, h⟩
  have hlimit : maxDepth (2 * (constant + 2)) = constant + 2 := by
    unfold maxDepth
    omega
  refine h 1 (2 * (constant + 2)) printX (boundDeep (2 * constant)) (plain_boundDeep _) rfl ?_
    (boundDeep (2 * constant)) ?_
  · rw [hlimit]
    show 1 + 1 + constant ≤ constant + 2
    omega
  · have heval : eval (constant + 2) 1 printX (boundDeep (2 * constant)) =
        .error .exhausted (boundDeep (2 * constant)) := by
      have hfits : Builtin.fits constant .print [deepPair (2 * constant)] = false := by
        simp [Builtin.fits, height_deepPair]
      show (if Builtin.fits constant .print [deepPair (2 * constant)] then _ else throw Halt.exhausted : EvalM Value) _ = _
      rw [hfits]
      rfl
    unfold evalExpr
    simp only [hlimit, heval]

end Interpreter

end MiniLisp
