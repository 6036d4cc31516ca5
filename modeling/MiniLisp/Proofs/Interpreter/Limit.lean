import MiniLisp.Proofs.Arguments.Cut
import MiniLisp.Proofs.Eval.Depth
import MiniLisp.Proofs.Interpreter.Sequence
import MiniLisp.Proofs.Program.Limit
/-!
# Limit — a recursion limit cuts runs off, and does nothing else

Under a larger limit a source is parsed alike and a program evaluated alike, except where the smaller limit is reached.
There, and in the machine that has been come to, the expression ends with an error of its own
(`Interpreter.limit_only_cuts`).
-/
namespace MiniLisp.Interpreter

open Activation (CutAt)

variable {L L' : Nat} {F : FrameId} {e : Expr} {es : List Expr} {m n : Machine}

/-- **A program that the limit `L` cuts off.**  Under both limits its expressions have the same values, up to one whose
evaluation the smaller limit cuts off, in a machine `n`.  The program ends with it, in `n`, at its position. -/
def CutShort (L L' : Nat) (F : FrameId) (es : List Expr) (m : Machine) : Prop :=
  ∃ done e rest vs m' n, es = done ++ e :: rest ∧
    (mk F L).evalExprs done m = .ok vs m' ∧ (mk F L').evalExprs done m = .ok vs m' ∧
    CutAt (maxDepth L) (maxDepth L') (.expr F e) m' n ∧
    (mk F L).evalExprs es m = .error (.recursionTooDeep e.pos) n

theorem evalExpr_of_exhausted (h : eval (maxDepth L) F e m = .error .exhausted n) :
    (mk F L).evalExpr e m = .error (.recursionTooDeep e.pos) n := by
  unfold evalExpr
  simp only [h]

/-- **The error of a limit is made of exhaustion only.** -/
theorem exhausted_of_evalExpr {pos : Position} (h : (mk F L).evalExpr e m = .error (.recursionTooDeep pos) n) :
    pos = e.pos ∧ eval (maxDepth L) F e m = .error .exhausted n := by
  unfold evalExpr at h
  dsimp only at h
  cases heval : eval (maxDepth L) F e m with
  | ok v m' =>
    rw [heval] at h
    cases h
  | error halt m' =>
    rw [heval] at h
    cases halt with
    | exhausted =>
      cases h
      exact ⟨rfl, rfl⟩
    | failed error =>
      obtain ⟨rfl, rfl⟩ := EStateM.Result.error.inj h
      exact absurd rfl (Activation.ne_recursionTooDeep (a := .expr F e) heval pos)

theorem evalExpr_of_le (hle : L ≤ L') (F : FrameId) (e : Expr) (m : Machine) :
    (mk F L).evalExpr e m = (mk F L').evalExpr e m ∨
      ∃ n, CutAt (maxDepth L) (maxDepth L') (.expr F e) m n ∧
        (mk F L).evalExpr e m = .error (.recursionTooDeep e.pos) n := by
  rcases Activation.run_eq_or_cut (Nat.div_le_div_right hle) (.expr F e) m with hsame | ⟨n, hcut, hends⟩
  · refine .inl ?_
    have heval : eval (maxDepth L) F e m = eval (maxDepth L') F e m := hsame
    unfold evalExpr
    dsimp only
    rw [heval]
  · exact .inr ⟨n, hcut, evalExpr_of_exhausted hends⟩

theorem CutShort.cons {v : Value} {m' : Machine} (hsame : (mk F L).evalExpr e m = (mk F L').evalExpr e m)
    (he : (mk F L).evalExpr e m = .ok v m') (h : CutShort L L' F es m') : CutShort L L' F (e :: es) m := by
  obtain ⟨done, d, rest, vs, k, n, rfl, hdone, hdone', hcut, hends⟩ := h
  refine ⟨e :: done, d, rest, v :: vs, k, n, rfl, ?_, ?_, hcut, ?_⟩
  · rw [evalExprs_cons, he]
    dsimp only
    rw [hdone]
  · rw [evalExprs_cons, ← hsame, he]
    dsimp only
    rw [hdone']
  · rw [evalExprs_cons, he]
    dsimp only
    rw [hends]

theorem evalExprs_of_le (hle : L ≤ L') (F : FrameId) : ∀ (es : List Expr) (m : Machine),
    (mk F L).evalExprs es m = (mk F L').evalExprs es m ∨ CutShort L L' F es m
  | [], m => .inl rfl
  | e :: es, m => by
    rcases evalExpr_of_le hle F e m with hsame | ⟨n, hcut, hends⟩
    · cases he : (mk F L).evalExpr e m with
      | error failure m' =>
        refine .inl ?_
        rw [evalExprs_cons, evalExprs_cons, ← hsame, he]
      | ok v m' =>
        refine (evalExprs_of_le hle F es m').imp (fun hrest => ?_) (CutShort.cons hsame he)
        rw [evalExprs_cons, evalExprs_cons, ← hsame, he]
        dsimp only
        rw [hrest]
    · refine .inr ⟨[], e, es, [], m, n, rfl, rfl, rfl, hcut, ?_⟩
      rw [evalExprs_cons, hends]

/-- **The recursion limit only cuts runs off.**  Under a larger limit

* a source and a file are parsed alike, unless their forms nest too deeply for the smaller one;
* a program is evaluated alike from the same state, unless the smaller one cuts it off.

What the limit cuts off is never seen inside: an evaluation that comes to a stack of activations that is too deep ends
with the error at the position of the expression, in a machine in which it came to such a stack, and there is no such
error otherwise.  Neither does a mapper of arguments go on where one of them is cut off. -/
theorem limit_only_cuts (hle : L ≤ L') (F : FrameId) :
    (∀ source text, (mk F L).parse source text = (mk F L').parse source text ∨
      (mk F L).parse source text = .error (.nestedTooDeeply source)) ∧
    (∀ path file, (mk F L).parseFile path file = (mk F L').parseFile path file ∨
      (mk F L).parseFile path file = .error (.program (.nestedTooDeeply path))) ∧
    (∀ es m, (mk F L).evalExprs es m = (mk F L').evalExprs es m ∨ CutShort L L' F es m) ∧
    (∀ e m n, CutAt (maxDepth L) (maxDepth L') (.expr F e) m n →
      ∃ k, CutAt (maxDepth L) (maxDepth L') (.expr F e) m k ∧
        (mk F L).evalExpr e m = .error (.recursionTooDeep e.pos) k) ∧
    (∀ e m pos n, (mk F L).evalExpr e m = .error (.recursionTooDeep pos) n →
      pos = e.pos ∧ eval (maxDepth L) F e m = .error .exhausted n) ∧
    ∀ (steps : List Mapper.Step) (s : Mapper Expr) (m : Machine),
      CutAmong (maxDepth L) (maxDepth L') F s.args.pending (Mapper.run (fetchExpr (maxDepth L) F) steps s m)
        (Mapper.run (fetchExpr (maxDepth L') F) steps s m) := by
  have hdepth : maxDepth L ≤ maxDepth L' := Nat.div_le_div_right hle
  have hforms : maxForms L ≤ maxForms L' := Nat.div_le_div_right hle
  refine ⟨Program.parse_of_le hforms, Program.parseFile_of_le hforms, evalExprs_of_le hle F, fun e m n hcut => ?_,
    fun e m pos n => exhausted_of_evalExpr, Mapper.run_or_cut hdepth⟩
  obtain ⟨k, hk, hends⟩ := hcut.exhausted hdepth
  exact ⟨k, hk, evalExpr_of_exhausted hends⟩

/-- A limit of 2 leaves no depth for the condition of an `if`, and one of 4 does. -/
theorem limit_only_cuts_cond :
    2 ≤ 4 ∧ CutShort 2 4 1 [.nil {}, .cond (.bool true {}) (.nil {}) (.nil {}) {}] .initial := by
  refine ⟨by decide, ((limit_only_cuts (by decide) 1).2.2.1 _ _).resolve_left fun hsame => ?_⟩
  have hends : (mk 1 2).evalExprs [.nil {}, .cond (.bool true {}) (.nil {}) (.nil {}) {}] .initial =
      .error (.recursionTooDeep {}) .initial := rfl
  have hvalues : (mk 1 4).evalExprs [.nil {}, .cond (.bool true {}) (.nil {}) (.nil {}) {}] .initial =
      .ok [.nil, .nil] .initial := rfl
  rw [hends, hvalues] at hsame
  cases hsame

end MiniLisp.Interpreter
