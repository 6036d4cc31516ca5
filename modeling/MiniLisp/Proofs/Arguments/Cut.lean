import MiniLisp.Proofs.Arguments.Lazy
import MiniLisp.Proofs.Eval.Stack
/-!
# Cut — arguments whose evaluation is cut off

A mapper records the failure of an argument, and answers with it.  It never sees that an evaluation ran out of depth:
whatever it is asked for, it goes alike with less depth and with more, or it ends where the evaluation of an argument
was cut off (`Mapper.run_or_cut`).
-/
namespace MiniLisp

open Activation (CutAt)

variable {depth depth' : Nat} {frame : FrameId} {α β : Type}

/-- **Two results that are the same, or the first is an argument cut off**: it ends where an evaluation of one of the
expressions `es` is cut off. -/
def CutAmong (depth depth' : Nat) (frame : FrameId) (es : List Expr) (r r' : EStateM.Result Halt Machine α) : Prop :=
  r = r' ∨ ∃ e ∈ es, ∃ m n, CutAt depth depth' (.expr frame e) m n ∧ r = .error .exhausted n

namespace CutAmong

variable {es es' : List Expr} {m : Machine}

theorem refl (r : EStateM.Result Halt Machine α) : CutAmong depth depth' frame es r r := .inl rfl

theorem mono {r r' : EStateM.Result Halt Machine α} (h : CutAmong depth depth' frame es r r') (hes : es ⊆ es') :
    CutAmong depth depth' frame es' r r' :=
  h.imp_right fun ⟨e, he, hcut⟩ => ⟨e, hes he, hcut⟩

theorem bind {x y : EvalM α} {f g : α → EvalM β} (hx : CutAmong depth depth' frame es (x m) (y m))
    (hf : ∀ a m', x m = .ok a m' → CutAmong depth depth' frame es (f a m') (g a m')) :
    CutAmong depth depth' frame es ((x >>= f) m) ((y >>= g) m) := by
  rw [EvalM.bind_apply, EvalM.bind_apply]
  rcases hx with hsame | ⟨e, he, m₀, n, hcut, hends⟩
  · rw [← hsame]
    cases hxm : x m with
    | ok a m' => exact hf a m' hxm
    | error halt m' => exact refl _
  · rw [hends]
    exact .inr ⟨e, he, m₀, n, hcut, rfl⟩

theorem fetch (hle : depth ≤ depth') {e : Expr} (he : e ∈ es) (m : Machine) :
    CutAmong depth depth' frame es (fetchExpr depth frame e m) (fetchExpr depth' frame e m) := by
  have heval : ∀ d, eval d frame e = Activation.run d (.expr frame e) := fun _ => rfl
  unfold fetchExpr
  rw [heval, heval]
  rcases Activation.run_eq_or_cut hle (.expr frame e) m with hsame | ⟨n, hcut, hends⟩
  · rw [hsame]
    exact refl _
  · rw [hends]
    exact .inr ⟨e, he, m, n, hcut, rfl⟩

/-! ## Readings -/

theorem bind_reading {r r' : Reading EvalM Expr α} {f : α → Reading EvalM Expr β} {args : Arguments Expr}
    (hr : CutAmong depth depth' frame es (r args m) (r' args m)) :
    CutAmong depth depth' frame es ((r >>= f) args m) ((r' >>= f) args m) := by
  rw [Arguments.bind_apply, Arguments.bind_apply]
  exact hr.bind fun p m' _ => refl _

theorem next? (hle : depth ≤ depth') (args : Arguments Expr) (m : Machine) : CutAmong depth depth' frame args.pending
    (Arguments.next? (fetchExpr depth frame) args m) (Arguments.next? (fetchExpr depth' frame) args m) := by
  obtain ⟨fn, index, pending⟩ := args
  cases pending with
  | nil => exact refl _
  | cons e rest => exact (fetch hle List.mem_cons_self m).bind fun x m' _ => refl _

theorem restFrom (hle : depth ≤ depth') (expected : Expected β) (fn : String) :
    ∀ (es : List Expr) (index : Nat) (m : Machine), CutAmong depth depth' frame es
      (Arguments.restFrom (fetchExpr depth frame) expected fn index es m)
      (Arguments.restFrom (fetchExpr depth' frame) expected fn index es m)
  | [], index, m => refl _
  | e :: es, index, m => by
    refine (fetch hle List.mem_cons_self m).bind fun x m' _ => ?_
    cases x with
    | error e => exact refl _
    | ok v =>
      cases hv : expected.view v with
      | none =>
        simp only [hv]
        exact refl _
      | some b =>
        simp only [hv]
        exact ((restFrom hle expected fn es (index + 1) m').mono (List.subset_cons_self e es)).bind fun p m'' _ => refl _

/-- **What a mapper is asked for** goes alike, or ends where an argument is cut off. -/
theorem reading (hle : depth ≤ depth') (st : Mapper.Step) (args : Arguments Expr) (m : Machine) :
    CutAmong depth depth' frame args.pending (st.reading (fetchExpr depth frame) args m)
      (st.reading (fetchExpr depth' frame) args m) := by
  have hnext : CutAmong depth depth' frame args.pending (Arguments.next? (fetchExpr depth frame) args m)
      (Arguments.next? (fetchExpr depth' frame) args m) := next? hle args m
  match st with
  | .read (.one kind) => exact bind_reading (bind_reading (bind_reading hnext))
  | .read .optional => exact bind_reading (bind_reading hnext)
  | .read (.rest kind) =>
    exact bind_reading (bind_reading (restFrom hle (Mapper.expected kind) args.fn args.pending args.index m))
  | .complete => exact bind_reading (bind_reading hnext)

end CutAmong

/-- The arguments that a reading leaves are some of those that it found. -/
theorem Drawn.pending_subset {r : ValueReading β} {fn : String} {index : Nat} {es : List Expr} {m m' : Machine}
    {x : Except Error β} {args : Arguments Expr} (h : Drawn depth frame r fn index es m (.ok (x, args) m')) :
    args.pending ⊆ es := by
  generalize hy : EStateM.Result.ok (x, args) m' = y at h
  cases h with
  | ok hes _ _ =>
    cases hy
    exact hes ▸ List.subset_append_right _ _
  | @halted read rest e vs m₁ m₂ halt hes _ _ _ =>
    cases halt with
    | failed error =>
      cases hy
      exact hes ▸ fun d hd => List.mem_append_right read (List.mem_cons_of_mem e hd)
    | exhausted => cases hy

/-- **A mapper does not notice where an evaluation is cut off.**  Whatever it is asked for, it goes alike with less depth
and with more; or else it ends as the evaluation of one of its arguments does, cut off there. -/
theorem Mapper.run_or_cut (hle : depth ≤ depth') : ∀ (steps : List Step) (s : Mapper Expr) (m : Machine),
    CutAmong depth depth' frame s.args.pending (run (fetchExpr depth frame) steps s m)
      (run (fetchExpr depth' frame) steps s m)
  | [], s, m => .refl _
  | st :: steps, s, m => by
    cases herr : s.err with
    | some e =>
      rw [run_of_err _ herr, run_of_err _ herr]
      exact .refl _
    | none =>
      rw [run_cons_of_none _ herr, run_cons_of_none _ herr]
      refine (CutAmong.reading hle st s.args m).bind fun p m' hp => ?_
      have hst : Draws depth frame (st.reading (fetchExpr depth frame)) (st.reading ValueReading.fetch) := .step st
      have hdrawn := hst.drawn s.args.fn s.args.index s.args.pending m
      have hsubset : (s.settle st p).2.args.pending ⊆ s.args.pending := by
        rw [hp] at hdrawn
        rw [settle_args]
        exact hdrawn.pending_subset
      have hrest := (run_or_cut hle steps (s.settle st p).2 m').mono hsubset
      rw [map_eq_pure_bind, map_eq_pure_bind]
      exact hrest.bind fun q m'' _ => .refl _

end MiniLisp
