import MiniLisp.Proofs.Arguments.Agree
import MiniLisp.Proofs.Arguments.Steps
import MiniLisp.Proofs.Eval.Activation
/-!
# Lazy — arguments that are evaluated when a read asks for them

A reading of expressions evaluates as many of them as it takes, one after another, and then goes as the same reading of
their values would (`Draws`).  So does a mapper, whatever it is asked for: it evaluates what a mapper of the values
takes, and where an evaluation fails, that is its failure (`run_exprs`).
-/
namespace MiniLisp

open Builtin (mapItems)
open ValueReading (fetch)

/-! ## Evaluation of a prefix -/

theorem EvalM.map_apply {α β : Type} (f : α → β) (x : EvalM α) (m : Machine) : (f <$> x) m = match x m with
      | .ok a m' => .ok (f a) m'
      | .error halt m' => .error halt m' := by
  rw [map_eq_pure_bind, EvalM.bind_apply]
  rfl

namespace Builtin

variable {α β : Type} {call : α → EvalM β} {as' : List α} {bs' : List β} {m' m'' : Machine}

theorem mapItems_cons_eq_ok {a : α} {as : List α} {cs : List β} {m : Machine} :
    mapItems call (a :: as) m = .ok cs m'' ↔
      ∃ b bs m', call a m = .ok b m' ∧ mapItems call as m' = .ok bs m'' ∧ cs = b :: bs := by
  rw [mapItems, EvalM.bind_apply]
  cases ha : call a m with
  | error halt m' => simp
  | ok b m' =>
    dsimp only
    rw [EvalM.bind_apply]
    cases has : mapItems call as m' with
    | error halt m'' => simp [has]
    | ok bs m'' =>
      constructor
      · rintro ⟨⟩
        exact ⟨b, bs, m', rfl, has, rfl⟩
      · rintro ⟨b', bs', n, ⟨⟩, htail, rfl⟩
        rw [has] at htail
        cases htail
        rfl

theorem mapItems_append : ∀ {as : List α} {bs : List β} {m : Machine}, mapItems call as m = .ok bs m' →
    mapItems call as' m' = .ok bs' m'' → mapItems call (as ++ as') m = .ok (bs ++ bs') m''
  | [], _, _, h, h' => by
    cases h
    exact h'
  | a :: as, _, m, h, h' => by
    obtain ⟨b, bs, n, ha, has, rfl⟩ := mapItems_cons_eq_ok.1 h
    exact mapItems_cons_eq_ok.2 ⟨b, _, n, ha, mapItems_append has h', rfl⟩

theorem mapItems_length : ∀ {as : List α} {bs : List β} {m : Machine}, mapItems call as m = .ok bs m' →
    bs.length = as.length
  | [], _, _, h => by
    cases h
    rfl
  | a :: as, _, m, h => by
    obtain ⟨b, bs, n, ha, has, rfl⟩ := mapItems_cons_eq_ok.1 h
    rw [List.length_cons, List.length_cons, mapItems_length has]

end Builtin

/-! ## Readings that draw -/

variable {depth : Nat} {frame : FrameId} {α β : Type}

/-- What a reading of expressions comes to where an evaluation halts. -/
def Halt.reading (args : Arguments Expr) (m : Machine) :
    Halt → EStateM.Result Halt Machine (Except Error β × Arguments Expr)
  | .failed e => .ok (.error e, args) m
  | .exhausted => .error .exhausted m

/-- **A reading of the expressions `es` beside one of values.**  It evaluates the first of them, in order.  If all of
these have values, it goes as the reading of values does on any list that begins with them; if one halts, the reading of
values asks for its value too. -/
inductive Drawn (depth : Nat) (frame : FrameId) (r : ValueReading β) (fn : String) (index : Nat) (es : List Expr)
    (m : Machine) : EStateM.Result Halt Machine (Except Error β × Arguments Expr) → Prop
  | ok {read rest : List Expr} {vs : List Value} {m' : Machine} {x : Except Error β} : es = read ++ rest →
      mapItems (eval depth frame) read m = .ok vs m' →
      (∀ ws, ws.length = rest.length → r ⟨fn, index, vs ++ ws⟩ = (x, ⟨fn, index + read.length, ws⟩)) →
      Drawn depth frame r fn index es m (.ok (x, ⟨fn, index + read.length, rest⟩) m')
  | halted {read rest : List Expr} {e : Expr} {vs : List Value} {m' m'' : Machine} {halt : Halt} :
      es = read ++ e :: rest → mapItems (eval depth frame) read m = .ok vs m' →
      eval depth frame e m' = .error halt m'' →
      (∀ ws, ws.length = rest.length + 1 → index + read.length < (r ⟨fn, index, vs ++ ws⟩).2.index) →
      Drawn depth frame r fn index es m (halt.reading ⟨fn, index + read.length, rest⟩ m'')

/-- A reading of expressions that goes as one of values, which never moves back. -/
structure Draws (depth : Nat) (frame : FrameId) (r : Reading EvalM Expr β) (r' : ValueReading β) : Prop where
  drawn : ∀ fn index es m, Drawn depth frame r' fn index es m (r ⟨fn, index, es⟩ m)
  advances : ∀ s, s.index ≤ (r' s).2.index

namespace Draws

theorem next? : Draws depth frame (Arguments.next? (fetchExpr depth frame)) ValueReading.optional := by
  constructor
  · rintro fn index (_ | ⟨e, rest⟩) m
    · exact .ok (List.nil_append []).symm rfl fun ws hws => by
        obtain rfl := List.length_eq_zero_iff.1 hws
        rfl
    · rw [Arguments.next?]
      dsimp only
      rw [EvalM.bind_apply, fetchExpr]
      cases he : eval depth frame e m with
      | ok v m' =>
        have hread : mapItems (eval depth frame) [e] m = .ok [v] m' :=
          Builtin.mapItems_cons_eq_ok.2 ⟨v, [], m', he, rfl, rfl⟩
        exact .ok (List.singleton_append (l := rest)).symm hread fun ws _ => rfl
      | error halt m' =>
        have hasks : ∀ ws : List Value, ws.length = rest.length + 1 →
            index < (ValueReading.optional ⟨fn, index, ws⟩).2.index := by
          rintro (_ | ⟨w, ws⟩) hws
          · cases hws
          · exact Nat.lt_succ_self _
        cases halt with
        | failed error => exact .halted (List.nil_append _).symm rfl he hasks
        | exhausted => exact .halted (List.nil_append _).symm rfl he hasks
  · rintro ⟨fn, index, _ | ⟨v, vs⟩⟩
    · exact Nat.le_refl _
    · exact Nat.le_succ _

/-- Answers that nothing is fetched for. -/
theorem answer (x : String → Nat → Except Error β) :
    Draws depth frame (fun s => pure (x s.fn s.index, s)) (fun s => (x s.fn s.index, s)) := by
  constructor
  · exact fun fn index es m => .ok (List.nil_append es).symm rfl fun ws _ => rfl
  · exact fun s => Nat.le_refl _

theorem bind {r : Reading EvalM Expr α} {r' : ValueReading α} {f : α → Reading EvalM Expr β} {f' : α → ValueReading β}
    (h : Draws depth frame r r') (hf : ∀ a, Draws depth frame (f a) (f' a)) :
    Draws depth frame (r >>= f) (r' >>= f') := by
  have hbehind : ∀ s, (r' s).2.index ≤ ((r' >>= f') s).2.index := by
    intro s
    rw [ValueReading.bind_apply]
    generalize r' s = x
    obtain ⟨_ | a, s'⟩ := x
    · exact Nat.le_refl _
    · exact (hf a).advances s'
  refine ⟨fun fn index es m => ?_, fun s => Nat.le_trans (h.advances s) (hbehind s)⟩
  rw [Arguments.bind_apply, EvalM.bind_apply]
  have hr := h.drawn fn index es m
  generalize r ⟨fn, index, es⟩ m = x at hr
  cases hr with
  | @halted read rest e vs m' m'' halt hes hread he hasks =>
    have hasks' : ∀ ws : List Value, ws.length = rest.length + 1 →
        index + read.length < ((r' >>= f') ⟨fn, index, vs ++ ws⟩).2.index :=
      fun ws hws => Nat.lt_of_lt_of_le (hasks ws hws) (hbehind _)
    cases halt with
    | failed error => exact .halted hes hread he hasks'
    | exhausted => exact .halted hes hread he hasks'
  | @ok read rest vs m' x hes hread hvalues =>
    cases x with
    | error e =>
      refine .ok hes hread fun ws hws => ?_
      rw [ValueReading.bind_apply, hvalues ws hws]
    | ok a =>
      dsimp only
      have hfa := (hf a).drawn fn (index + read.length) rest m'
      generalize f a ⟨fn, index + read.length, rest⟩ m' = y at hfa
      cases hfa with
      | @ok read' rest' vs' m'' x hrest hread' hvalues' =>
        rw [Nat.add_assoc, ← List.length_append]
        refine .ok (by rw [hes, hrest, List.append_assoc]) (Builtin.mapItems_append hread hread') fun ws hws => ?_
        have hlength : (vs' ++ ws).length = rest.length := by
          rw [hrest, List.length_append, List.length_append, Builtin.mapItems_length hread', hws]
        rw [List.append_assoc, ValueReading.bind_apply, hvalues _ hlength, List.length_append, ← Nat.add_assoc]
        exact hvalues' ws hws
      | @halted read' rest' e vs' m'' m₃ halt hrest hread' he hasks =>
        rw [Nat.add_assoc, ← List.length_append]
        refine .halted (by rw [hes, hrest, List.append_assoc]) (Builtin.mapItems_append hread hread') he
          fun ws hws => ?_
        have hlength : (vs' ++ ws).length = rest.length := by
          rw [hrest, List.length_append, List.length_append, Builtin.mapItems_length hread', hws, List.length_cons]
        rw [List.append_assoc, ValueReading.bind_apply, hvalues _ hlength, List.length_append, ← Nat.add_assoc]
        exact hasks ws hws

theorem one (expected : Expected β) :
    Draws depth frame (Arguments.one (fetchExpr depth frame) expected) (ValueReading.one expected) := by
  refine next?.bind fun v? => ?_
  cases v? with
  | none => exact answer fun fn index => .error (.argument fn index (.missing expected.label))
  | some v =>
    cases hv : expected.view v with
    | some b =>
      simp only [hv]
      exact answer fun _ _ => .ok b
    | none =>
      simp only [hv]
      exact answer fun fn index => .error (.argument fn (index - 1) (.mismatch expected.label v.kind))

theorem complete : Draws depth frame (Arguments.complete (fetchExpr depth frame)) (Arguments.complete fetch) := by
  refine next?.bind fun v? => ?_
  cases v? with
  | none => exact answer fun _ _ => .ok ()
  | some v => exact answer fun fn index => .error (.argument fn (index - 1) .surplus)

theorem restFrom_cons_index (expected : Expected β) (fn : String) (index : Nat) (v : Value) {vs : List Value}
    (h : index + 1 ≤ (Arguments.restFrom fetch expected fn (index + 1) vs).2.index) :
    index < (Arguments.restFrom fetch expected fn index (v :: vs)).2.index := by
  rw [ValueReading.restFrom_cons]
  cases expected.view v with
  | none => exact Nat.lt_succ_self index
  | some b => exact h

theorem restFrom_advances (expected : Expected β) (fn : String) : ∀ (vs : List Value) (index : Nat),
    index ≤ (Arguments.restFrom fetch expected fn index vs).2.index
  | [], _ => Nat.le_refl _
  | v :: vs, index =>
    Nat.le_of_lt (restFrom_cons_index expected fn index v (restFrom_advances expected fn vs (index + 1)))

theorem restFrom_drawn (expected : Expected β) (fn : String) : ∀ (es : List Expr) (index : Nat) (m : Machine),
    Drawn depth frame (ValueReading.rest expected) fn index es m
      (Arguments.restFrom (fetchExpr depth frame) expected fn index es m)
  | [], index, m => .ok (List.nil_append []).symm rfl fun ws hws => by
      obtain rfl := List.length_eq_zero_iff.1 hws
      rfl
  | e :: es, index, m => by
    rw [Arguments.restFrom, EvalM.bind_apply, fetchExpr]
    cases he : eval depth frame e m with
    | error halt m' =>
      have hasks : ∀ ws : List Value, ws.length = es.length + 1 →
          index < (ValueReading.rest expected ⟨fn, index, ws⟩).2.index := by
        rintro (_ | ⟨w, ws⟩) hws
        · cases hws
        · exact restFrom_cons_index expected fn index w (restFrom_advances expected fn ws (index + 1))
      cases halt with
      | failed error => exact .halted (List.nil_append _).symm rfl he hasks
      | exhausted => exact .halted (List.nil_append _).symm rfl he hasks
    | ok v m' =>
      cases hv : expected.view v with
      | none =>
        simp only [hv]
        refine .ok (List.singleton_append (l := es)).symm
          (Builtin.mapItems_cons_eq_ok.2 ⟨v, [], m', he, rfl, rfl⟩) fun ws _ => ?_
        show Arguments.restFrom fetch expected fn index (v :: ws) = _
        rw [ValueReading.restFrom_cons, hv]
        rfl
      | some b =>
        simp only [hv]
        rw [EvalM.bind_apply]
        have htail := restFrom_drawn expected fn es (index + 1) m'
        generalize Arguments.restFrom (fetchExpr depth frame) expected fn (index + 1) es m' = y at htail
        cases htail with
        | @ok read rest vs m'' x hes hread hvalues =>
          rw [Nat.add_right_comm] at hvalues ⊢
          have hread' := Builtin.mapItems_cons_eq_ok.2 ⟨v, vs, m', he, hread, rfl⟩
          refine .ok (congrArg (e :: ·) hes) hread' fun ws hws => ?_
          have hrest : Arguments.restFrom fetch expected fn (index + 1) (vs ++ ws) = _ := hvalues ws hws
          show Arguments.restFrom fetch expected fn index (v :: (vs ++ ws)) = _
          rw [ValueReading.restFrom_cons, hv, hrest]
          rfl
        | @halted read rest e' vs m'' m₃ halt hes hread he' hasks =>
          rw [Nat.add_right_comm] at hasks ⊢
          have hasks' : ∀ ws : List Value, ws.length = rest.length + 1 →
              index + read.length + 1 < (ValueReading.rest expected ⟨fn, index, v :: vs ++ ws⟩).2.index := by
            intro ws hws
            show _ < (Arguments.restFrom fetch expected fn index (v :: (vs ++ ws))).2.index
            rw [ValueReading.restFrom_cons, hv]
            exact hasks ws hws
          have hread' := Builtin.mapItems_cons_eq_ok.2 ⟨v, vs, m', he, hread, rfl⟩
          cases halt with
          | failed error => exact .halted (congrArg (e :: ·) hes) hread' he' hasks'
          | exhausted => exact .halted (congrArg (e :: ·) hes) hread' he' hasks'

theorem rest (expected : Expected β) :
    Draws depth frame (Arguments.rest (fetchExpr depth frame) expected) (ValueReading.rest expected) :=
  ⟨fun fn index es m => restFrom_drawn expected fn es index m,
    fun s => restFrom_advances expected s.fn s.pending s.index⟩

/-- What is made of the result of a reading. -/
theorem map {r : Reading EvalM Expr α} {r' : ValueReading α} (h : Draws depth frame r r') (f : α → β) :
    Draws depth frame (do return f (← r)) (do return f (← r')) :=
  h.bind fun a => answer fun _ _ => .ok (f a)

/-- **What a mapper is asked for evaluates what it takes.** -/
theorem step : ∀ st : Mapper.Step, Draws depth frame (st.reading (fetchExpr depth frame)) (st.reading fetch)
  | .read (.one kind) => ((one (Mapper.expected kind)).map fun v => ReadResult.one (some v)).map some
  | .read .optional => (next?.map ReadResult.one).map some
  | .read (.rest kind) => ((rest (Mapper.expected kind)).map ReadResult.all).map some
  | .complete => complete.map fun _ => none

end Draws

/-! ## A mapper's run -/

namespace Mapper

/-- A mapper in the same state, of other arguments. -/
def facing {γ : Type} (s : Mapper α) (pending : List γ) : Mapper γ :=
  ⟨⟨s.args.fn, s.args.index, pending⟩, s.err, s.results⟩

/-- **A run of a mapper of expressions beside one of values.**  It evaluates the first of the expressions, in order.
If all of these have values, it answers and stands as a mapper does of any values that begin with them.  Otherwise the
last of them halts.  If that is a failure of the language, it is one of the first step whose values are not all there:
until then there was no failure, the step asks for the value, and from then on this is the failure of the mapper. -/
inductive Lazily (depth : Nat) (frame : FrameId) (steps : List Step) (s : Mapper Expr) (m : Machine) : Prop
  | ok {read rest : List Expr} {vs : List Value} {m' : Machine} {answers : List Answer} {s' : Mapper Expr} :
      s.args.pending = read ++ rest → mapItems (eval depth frame) read m = .ok vs m' →
      run (fetchExpr depth frame) steps s m = .ok (answers, s') m' →
      s'.args = ⟨s.args.fn, s.args.index + read.length, rest⟩ →
      (∀ ws, ws.length = rest.length → run fetch steps (s.facing (vs ++ ws)) = (answers, s'.facing ws)) →
      Lazily depth frame steps s m
  | failed {read rest : List Expr} {e : Expr} {vs : List Value} {m₀ m' m'' : Machine} {error : Error}
      {done later : List Step} {st : Step} {answers : List Answer} {s₀ s' : Mapper Expr} :
      s.args.pending = read ++ e :: rest → mapItems (eval depth frame) read m = .ok vs m' →
      eval depth frame e m' = .error (.failed error) m'' →
      steps = done ++ st :: later → run (fetchExpr depth frame) done s m = .ok (answers, s₀) m₀ → s₀.err = none →
      (∀ ws, ws.length = rest.length + 1 →
        s.args.index + read.length < (run fetch (done ++ [st]) (s.facing (vs ++ ws)) : Id _).2.args.index) →
      run (fetchExpr depth frame) steps s m =
        .ok (answers ++ List.replicate ((st :: later).count .complete) (.error error), s') m'' →
      s'.err = some error → Lazily depth frame steps s m
  | exhausted {read rest : List Expr} {e : Expr} {vs : List Value} {m' m'' : Machine} :
      s.args.pending = read ++ e :: rest → mapItems (eval depth frame) read m = .ok vs m' →
      eval depth frame e m' = .error .exhausted m'' →
      run (fetchExpr depth frame) steps s m = .error .exhausted m'' → Lazily depth frame steps s m

theorem settle_facing {γ : Type} (s : Mapper α) (vs : List γ) (st : Step) (x : Except Error (Option ReadResult))
    (fn : String) (index : Nat) (pending : List α) (ws : List γ) : (s.facing vs).settle st (x, ⟨fn, index, ws⟩) =
      ((s.settle st (x, ⟨fn, index, pending⟩)).1, (s.settle st (x, ⟨fn, index, pending⟩)).2.facing ws) := by
  rcases x with _ | _ | _ <;> rfl

/-- A step that a mapper of expressions has taken, beside the same step of a mapper of values: it evaluated `read` and
answered `now`, and stands at `s₁` in front of `rest`. -/
structure Taken (depth : Nat) (frame : FrameId) (st : Step) (s s₁ : Mapper Expr) (now : List Answer)
    (read rest : List Expr) (vs : List Value) (m m' : Machine) : Prop where
  pending : s.args.pending = read ++ rest
  evaluated : mapItems (eval depth frame) read m = .ok vs m'
  args : s₁.args = ⟨s.args.fn, s.args.index + read.length, rest⟩
  run_cons : ∀ steps, run (fetchExpr depth frame) (st :: steps) s m =
    ((fun q => (now ++ q.1, q.2)) <$> run (fetchExpr depth frame) steps s₁) m'
  facing_cons : ∀ steps ws, ws.length = rest.length → run fetch (st :: steps) (s.facing (vs ++ ws)) =
    (now ++ (run fetch steps (s₁.facing ws) : Id _).1, (run fetch steps (s₁.facing ws) : Id _).2)

theorem Taken.of_reading {s : Mapper Expr} {st : Step} {read rest : List Expr} {vs : List Value} {m m' : Machine}
    {x : Except Error (Option ReadResult)} (herr : s.err = none) (hes : s.args.pending = read ++ rest)
    (hread : mapItems (eval depth frame) read m = .ok vs m')
    (hreading : st.reading (fetchExpr depth frame) s.args m = .ok (x, ⟨s.args.fn, s.args.index + read.length, rest⟩) m')
    (hvalues : ∀ ws, ws.length = rest.length →
      st.reading fetch ⟨s.args.fn, s.args.index, vs ++ ws⟩ = (x, ⟨s.args.fn, s.args.index + read.length, ws⟩)) :
    Taken depth frame st s (s.settle st (x, ⟨s.args.fn, s.args.index + read.length, rest⟩)).2
      (s.settle st (x, ⟨s.args.fn, s.args.index + read.length, rest⟩)).1 read rest vs m m' where
  pending := hes
  evaluated := hread
  args := settle_args s st _
  run_cons := fun steps => by
    rw [run_cons_of_none _ herr, EvalM.bind_apply, hreading]
  facing_cons := fun steps ws hws => by
    have hnone : (s.facing (vs ++ ws)).err = none := herr
    have hstep : st.reading fetch (s.facing (vs ++ ws)).args = _ := hvalues ws hws
    rw [run_cons_of_none _ hnone]
    show (fun q => (((s.facing (vs ++ ws)).settle st (st.reading fetch _)).1 ++ q.1, q.2)) <$>
      run fetch steps ((s.facing (vs ++ ws)).settle st (st.reading fetch _)).2 = _
    rw [hstep, settle_facing s (vs ++ ws) st x s.args.fn _ rest ws]
    rfl

section Taken

variable {s s₁ : Mapper Expr} {st : Step} {now : List Answer} {read rest : List Expr} {vs : List Value} {m m' : Machine}
  (h : Taken depth frame st s s₁ now read rest vs m m')

include h

theorem Taken.run_ok {steps : List Step} {answers : List Answer} {s' : Mapper Expr} {n : Machine}
    (hsteps : run (fetchExpr depth frame) steps s₁ m' = .ok (answers, s') n) :
    run (fetchExpr depth frame) (st :: steps) s m = .ok (now ++ answers, s') n := by
  rw [h.run_cons, EvalM.map_apply, hsteps]

theorem Taken.pending_append {read' tail : List Expr} (hrest : s₁.args.pending = read' ++ tail) :
    s.args.pending = (read ++ read') ++ tail := by
  have hpending : s₁.args.pending = rest := by rw [h.args]
  rw [h.pending, ← hpending, hrest, List.append_assoc]

/-- What the steps behind it evaluate, and values for the rest. -/
theorem Taken.length_append {read' tail : List Expr} {vs' ws : List Value} {n : Machine}
    (hread : mapItems (eval depth frame) read' m' = .ok vs' n) (hrest : s₁.args.pending = read' ++ tail)
    (hws : ws.length = tail.length) : (vs' ++ ws).length = rest.length := by
  have hpending : s₁.args.pending = rest := by rw [h.args]
  rw [← hpending, hrest, List.length_append, List.length_append, Builtin.mapItems_length hread, hws]

/-- **A step that has been taken, and the steps behind it.** -/
theorem Taken.cons {steps : List Step} (hsteps : Lazily depth frame steps s₁ m') :
    Lazily depth frame (st :: steps) s m := by
  cases hsteps with
  | @ok read' rest' vs' m'' answers s' hrest hread hruns hargs hvalues =>
    refine .ok (h.pending_append hrest) (Builtin.mapItems_append h.evaluated hread) (h.run_ok hruns) ?_ fun ws hws => ?_
    · rw [hargs, h.args, List.length_append, Nat.add_assoc]
    · rw [List.append_assoc, h.facing_cons steps _ (h.length_append hread hrest hws), hvalues ws hws]
  | @failed read' rest' e vs' m₀ n n' error done later st' answers s₀ s' hrest hread he hsteps hdone hs₀ hasks hfails
      herr =>
    rw [hsteps] at hfails ⊢
    refine .failed (h.pending_append hrest) (Builtin.mapItems_append h.evaluated hread) he (List.cons_append).symm
      (h.run_ok hdone) hs₀ (fun ws hws => ?_) ?_ herr
    · have hasked := hasks ws hws
      rw [h.args] at hasked
      rw [List.append_assoc, List.cons_append, h.facing_cons _ _ (h.length_append hread hrest hws), List.length_append,
        ← Nat.add_assoc]
      exact hasked
    · rw [List.append_assoc]
      exact h.run_ok hfails
  | @exhausted read' rest' e vs' n n' hrest hread he hexhausted =>
    refine .exhausted (h.pending_append hrest) (Builtin.mapItems_append h.evaluated hread) he ?_
    rw [h.run_cons, EvalM.map_apply, hexhausted]

end Taken

/-- **However a mapper of expressions is asked, it goes as one of their values.** -/
theorem run_lazily (depth : Nat) (frame : FrameId) : ∀ (steps : List Step) (s : Mapper Expr) (m : Machine),
    Lazily depth frame steps s m
  | [], s, m => .ok (List.nil_append _).symm rfl rfl rfl fun ws _ => rfl
  | st :: steps, s, m => by
    cases herr : s.err with
    | some e =>
      refine .ok (List.nil_append _).symm rfl (congrFun (run_of_err _ herr _) m) rfl fun ws _ => ?_
      exact run_of_err fetch herr _
    | none =>
      have hstep : Draws depth frame (st.reading (fetchExpr depth frame)) (st.reading fetch) := .step st
      have hst := hstep.drawn s.args.fn s.args.index s.args.pending m
      generalize hx : st.reading (fetchExpr depth frame) ⟨s.args.fn, s.args.index, s.args.pending⟩ m = x at hst
      cases hst with
      | ok hes hread hvalues =>
        exact (Taken.of_reading herr hes hread hx hvalues).cons (run_lazily depth frame steps _ _)
      | @halted read rest e vs m' m'' halt hes hread he hasks =>
        have hrun := congrFun (run_cons_of_none (fetchExpr depth frame) herr st steps) m
        rw [EvalM.bind_apply, hx] at hrun
        have hfails : ∀ (error : Error) (args : Arguments Expr) (n : Machine),
            ((fun q => (st.refusal error ++ q.1, q.2)) <$>
                run (fetchExpr depth frame) steps { s with args := args, err := some error }) n =
              .ok (List.replicate ((st :: steps).count .complete) (.error error),
                { s with args := args, err := some error }) n := by
          intro error args n
          rw [run_of_err (fetchExpr depth frame) rfl steps, map_pure, Step.refusal_append]
          rfl
        cases halt with
        | exhausted => exact .exhausted hes hread he hrun
        | failed error =>
          refine .failed hes hread he (List.nil_append _).symm rfl herr (fun ws hws => ?_)
            (hrun.trans (hfails error ⟨s.args.fn, s.args.index + read.length, rest⟩ m'')) rfl
          rw [List.nil_append, run_cons_of_none fetch herr]
          show _ < ((s.facing (vs ++ ws)).settle st (st.reading fetch ⟨s.args.fn, s.args.index, vs ++ ws⟩)).2.args.index
          rw [settle_args]
          exact hasks ws hws

/-- **Lazy and eager argument mapping agree.**  However a mapper of expressions is asked, it evaluates a prefix of them,
in order and in its frame, and only what is asked for.  If all of these have values, it goes as a mapper of any values
that begin with them; an evaluation that fails gives it its failure.  Once a failure is recorded nothing is evaluated
any more, and every later `complete` answers with it. -/
theorem run_exprs (depth : Nat) (frame : FrameId) (fn : String) (es : List Expr) (steps : List Step) (m : Machine) :
    Lazily depth frame steps (ofArguments fn es) m ∧
      ∀ answers s m', run (fetchExpr depth frame) steps (ofArguments fn es) m = .ok (answers, s) m' →
        ∀ e, s.err = some e → ∀ later, run (fetchExpr depth frame) later s m' =
          .ok (List.replicate (later.count .complete) (.error e), s) m' :=
  ⟨run_lazily depth frame steps (ofArguments fn es) m,
    fun _ _ m' _ _ herr later => congrFun (run_of_err (fetchExpr depth frame) herr later) m'⟩

/-- The second argument is a call of nil.  Its failure comes in the middle of a read, before the third is looked at. -/
theorem run_exprs_call_nil :
    let es : List Expr := [.bool true ⟨"f", 1, 1⟩, .call [.nil ⟨"f", 1, 4⟩] ⟨"f", 1, 3⟩, .ident "x" ⟨"f", 1, 5⟩]
    let e : Error := .type .function .nil (some ⟨"f", 1, 4⟩)
    ∃ s, s.err = some e ∧
      run (fetchExpr 2 1) [.read (.rest none), .complete] (ofArguments "f" es) .initial = .ok ([.error e], s) .initial ∧
      run (fetchExpr 2 1) [.complete, .read .optional, .complete] s .initial =
        .ok ([.error e, .error e], s) .initial := by
  intro es e
  obtain ⟨_, hlater⟩ := run_exprs 2 1 "f" es [.read (.rest none), .complete] .initial
  exact ⟨_, rfl, rfl, hlater _ _ _ rfl _ rfl [.complete, .read .optional, .complete]⟩

end Mapper

end MiniLisp
