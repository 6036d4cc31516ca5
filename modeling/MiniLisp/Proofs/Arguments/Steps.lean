import MiniLisp.Arguments.Mapper
/-!
# Steps — what is asked of a mapper, one thing after another

A mapper is asked to read and to complete, in any order and any number of times.  `Mapper.run` is all of it, with what
each `complete` answers.  While no failure is recorded a step is one reading (`step_of_none`); from then on nothing is
fetched and nothing changes (`run_of_err`).
-/
namespace MiniLisp

/-- What a mapper can be asked for. -/
inductive Mapper.Step where
  | read (r : Read)
  | complete
  deriving DecidableEq, Repr

/-- What `complete` answers: the results so far, or the failure. -/
abbrev Mapper.Answer := Except Error (List ReadResult)

section

variable {α β γ : Type} {m : Type → Type} [Monad m]

theorem Arguments.pure_apply (b : β) (args : Arguments α) : (pure b : Reading m α β) args = pure (.ok b, args) := rfl

theorem Arguments.bind_apply (x : Reading m α β) (f : β → Reading m α γ) (args : Arguments α) :
    (x >>= f) args = x args >>= fun p => match p with
      | (.ok b, args) => f b args
      | (.error e, args) => pure (.error e, args) := by
  show (x args >>= fun p => ExceptT.bindCont f p.1 p.2) = _
  congr 1
  funext p
  obtain ⟨_ | _, _⟩ := p <;> rfl

end

namespace Mapper

variable {α : Type} {m : Type → Type} [Monad m] (fetch : α → m (Except Error Value))

/-- A mapper that was asked for one thing, with what it answered. -/
def step (s : Mapper α) : Step → m (List Answer × Mapper α)
  | .read r => do
    let s ← s.read fetch r
    pure ([], s)
  | .complete => do
    let (answer, s) ← s.complete fetch
    pure ([answer], s)

/-- **A mapper that is asked for one thing after another**, with all that it answers. -/
def run : List Step → Mapper α → m (List Answer × Mapper α)
  | [], s => pure ([], s)
  | st :: steps, s => do
    let (now, s) ← s.step fetch st
    let (later, s) ← run steps s
    pure (now ++ later, s)

/-- The reads among the steps. -/
def reads : List Step → List Read
  | [] => []
  | .read r :: steps => r :: reads steps
  | .complete :: steps => reads steps

/-! ## Steps before and after a failure -/

/-- What a step reads: a result to keep, or nothing where only the end of the arguments is looked for. -/
def Step.reading : Step → Reading m α (Option ReadResult)
  | .read r => do
    let result ← Mapper.reading fetch r
    pure (some result)
  | .complete => do
    Arguments.complete fetch
    pure none

/-- What a step answers once a failure is recorded. -/
def Step.refusal (e : Error) : Step → List Answer
  | .read _ => []
  | .complete => [.error e]

/-- What becomes of a mapper by what a step has read. -/
def settle (s : Mapper α) (st : Step) : Except Error (Option ReadResult) × Arguments α → List Answer × Mapper α
  | (.ok (some result), args) => ([], { s with args := args, results := s.results ++ [result] })
  | (.ok none, args) => ([.ok s.results], { s with args := args })
  | (.error e, args) => (st.refusal e, { s with args := args, err := some e })

variable [LawfulMonad m] {s : Mapper α} {e : Error}

/-- **While there is no failure, a step is what it reads.** -/
theorem step_of_none (h : s.err = none) (st : Step) : s.step fetch st = s.settle st <$> st.reading fetch s.args := by
  cases st with
  | read r =>
    simp only [step, read, attempt, h, Step.reading, Arguments.bind_apply, map_bind, bind_assoc]
    congr 1
    funext p
    obtain ⟨_ | _, _⟩ := p <;> simp [settle, Step.refusal, Arguments.pure_apply, h]
  | complete =>
    simp only [step, complete, attempt, h, Step.reading, Arguments.bind_apply, map_bind, bind_assoc]
    congr 1
    funext p
    obtain ⟨_ | _, _⟩ := p <;> simp [settle, Step.refusal, Arguments.pure_apply, h]

theorem run_cons_of_none (h : s.err = none) (st : Step) (steps : List Step) :
    run fetch (st :: steps) s = st.reading fetch s.args >>= fun p =>
      (fun q => ((s.settle st p).1 ++ q.1, q.2)) <$> run fetch steps (s.settle st p).2 := by
  rw [run, step_of_none fetch h, bind_map_left]
  simp only [map_eq_pure_bind]

theorem settle_args (s : Mapper α) (st : Step) (p : Except Error (Option ReadResult) × Arguments α) :
    (s.settle st p).2.args = p.2 := by
  rcases p with ⟨_ | _ | _, _⟩ <;> rfl

theorem read_of_err (h : s.err = some e) (r : Read) : s.read fetch r = pure s := by
  simp only [read, attempt, h, pure_bind]

theorem complete_of_err (h : s.err = some e) : s.complete fetch = pure (.error e, s) := by
  simp only [complete, attempt, h, pure_bind]

theorem step_of_err (h : s.err = some e) (st : Step) : s.step fetch st = pure (st.refusal e, s) := by
  cases st with
  | read r => rw [step, read_of_err fetch h, pure_bind, Step.refusal]
  | complete => rw [step, complete_of_err fetch h, pure_bind, Step.refusal]

theorem Step.refusal_append (e : Error) (st : Step) (steps : List Step) :
    st.refusal e ++ List.replicate (steps.count .complete) (.error e) =
      List.replicate ((st :: steps).count .complete) (.error e) := by
  cases st with
  | read r => rw [List.count_cons_of_ne (by simp), refusal, List.nil_append]
  | complete => rw [List.count_cons_self, refusal, List.replicate_succ, List.singleton_append]

/-- **A mapper that has failed fetches nothing more, stays as it is, and says so** whenever it is asked to complete. -/
theorem run_of_err (h : s.err = some e) : ∀ steps : List Step,
    run fetch steps s = pure (List.replicate (steps.count .complete) (.error e), s)
  | [] => rfl
  | st :: steps => by
    rw [run, step_of_err fetch h, pure_bind]
    dsimp only
    rw [run_of_err h steps, pure_bind, Step.refusal_append]

end Mapper

end MiniLisp
