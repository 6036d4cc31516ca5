import MiniLisp.Proofs.Eval.Depth
import MiniLisp.Proofs.Eval.Stack
import MiniLisp.Proofs.Expr.Edited
import MiniLisp.Proofs.Store.Match
import MiniLisp.Proofs.Value.Functions
/-!
# Unreached — code that evaluation does not come to

A form `Stops` in front of a spot if what it evaluates before fails, or decides against it; a spot is `Idle` in an
evaluation if this is so whenever its form is evaluated.  Other code in idle spots makes no difference
(`Machine.Edited.eval`): not to the value, but for what is in the bodies of closures, nor to an error, the frames, and
what is printed.

The proof runs the first evaluation under a guard that ends it in front of a spot that is not idle.  So two evaluations
can be followed side by side without knowing that all spots are idle, and then the guard turns out to have done nothing.
-/
namespace MiniLisp

open Expr (Spot)

/-! ## Spots in an evaluation -/

/-- **A form does not come to a spot**, evaluated in the frame `F` and the machine `m` with some depth left.
The callee is an unbound name, fails or is no function, or one of the arguments before fails; the condition of an `if`
does not come out for the branch, since it comes out for the other, is no truth value, or fails. -/
inductive Expr.Spot.Stops (depth : Nat) (F : FrameId) (m : Machine) : Spot → Prop
  | unbound {name : String} {p pos : Position} {before after : List Expr} : m.store.find? F name = none →
      Stops depth F m (.arguments (.ident name p) before after pos)
  | callee {head : Expr} {before after : List Expr} {pos : Position} {halt : Halt} {m' : Machine} :
      eval depth F head m = .error halt m' → Stops depth F m (.arguments head before after pos)
  | notFunction {head : Expr} {before after : List Expr} {pos : Position} {v : Value} {m' : Machine} :
      eval depth F head m = .ok v m' → v.kind ≠ .function → Stops depth F m (.arguments head before after pos)
  | argument {head e : Expr} {before rest after : List Expr} {pos : Position} {f : Function} {vs : List Value}
      {halt : Halt} {m₁ m₂ m₃ : Machine} : eval depth F head m = .ok (.function f) m₁ →
      Builtin.mapItems (eval depth F) before m₁ = .ok vs m₂ → eval depth F e m₂ = .error halt m₃ →
      Stops depth F m (.arguments head (before ++ e :: rest) after pos)
  | whenTrue {test yes no : Expr} {pos : Position} : (∀ m', eval depth F test m ≠ .ok (.bool true) m') →
      Stops depth F m (.whenTrue test yes no pos)
  | whenFalse {test yes no : Expr} {pos : Position} : (∀ m', eval depth F test m ≠ .ok (.bool false) m') →
      Stops depth F m (.whenFalse test yes no pos)

/-- **A spot is idle in an evaluation**: whenever its form is evaluated, with the depth that is left then, it stops in
front of the spot. -/
def Expr.Spot.Idle (depth : Nat) (a : Activation) (m : Machine) (s : Spot) : Prop :=
  ∀ F outer n, Activation.Comes depth a m (.expr F s.form :: outer) n → s.Stops (depth - (outer.length + 1)) F n

namespace Activation

variable {run : Activation → EvalM Value} {F : FrameId} {head : Expr} {before args : List Expr} {m m' : Machine}

theorem mapItems_append_eq {α β : Type} (call : α → EvalM β) (as' : List α) : ∀ as : List α,
    Builtin.mapItems call (as ++ as') = Builtin.mapItems call as >>= fun bs =>
      Builtin.mapItems call as' >>= fun bs' => pure (bs ++ bs')
  | [] => by simp [Builtin.mapItems]
  | a :: as => by simp [Builtin.mapItems, mapItems_append_eq call as' as]

/-- Arguments behind others are evaluated behind them. -/
theorem front_append (run : Activation → EvalM Value) (F : FrameId) (head : Expr) (before after : List Expr) :
    front run F head (before ++ after) = front run F head before >>= fun r =>
      Builtin.mapItems (fun e => run (.expr F e)) after >>= fun vs => pure (r.1, r.2 ++ vs) := by
  simp [front, mapItems_append_eq]

theorem front_eq_ok {r : Function × List Value} (h : front run F head args m = .ok r m') :
    (∀ name p, head = .ident name p → m.store.find? F name ≠ none) ∧
    ∃ n, run (.expr F head) m = .ok (.function r.1) n ∧
      Builtin.mapItems (fun e => run (.expr F e)) args n = .ok r.2 m' := by
  obtain ⟨_, k, hcheck, h⟩ := EvalM.bind_eq_ok.1 h
  obtain ⟨hk, hbound⟩ := checkBound_eq_ok hcheck
  obtain ⟨v, n, hv, h⟩ := EvalM.bind_eq_ok.1 h
  obtain ⟨f, n', hf, h⟩ := EvalM.bind_eq_ok.1 h
  obtain ⟨vs, k', hvs, h⟩ := EvalM.bind_eq_ok.1 h
  cases h
  rw [hk] at hv
  refine ⟨hbound, n, ?_⟩
  cases v with
  | function g =>
    cases hf
    exact ⟨hv, hvs⟩
  | _ => cases hf

end Activation

/-- **A form that stops in front of arguments** does not come to the end of those before. -/
theorem Expr.Spot.Stops.front_ne_ok {depth : Nat} {F : FrameId} {m m' : Machine} {head : Expr} {before after : List Expr}
    {pos : Position} {r : Function × List Value} (h : Spot.Stops depth F m (.arguments head before after pos)) :
    Activation.front (Activation.run depth) F head before m ≠ .ok r m' := by
  intro hok
  obtain ⟨hbound, n, hhead, hbefore⟩ := Activation.front_eq_ok hok
  cases h with
  | unbound hnone => exact hbound _ _ rfl hnone
  | callee hfails =>
    cases hfails.symm.trans hhead
  | notFunction hv hkind =>
    cases hv.symm.trans hhead
    exact hkind rfl
  | argument hf hvs hfails =>
    cases hf.symm.trans hhead
    rw [Activation.mapItems_append_eq] at hbefore
    obtain ⟨ws, n', hws, h⟩ := EvalM.bind_eq_ok.1 hbefore
    cases hvs.symm.trans hws
    obtain ⟨us, n', hus, -⟩ := EvalM.bind_eq_ok.1 h
    obtain ⟨u, n', hu, -⟩ := EvalM.bind_eq_ok.1 hus
    cases hfails.symm.trans hu

/-! ## What is the same -/

variable {P : Position → Position → Prop} {U : Spot → Prop}

/-- Functions that are the same, but for other code in spots of their bodies. -/
inductive Function.Edited (P : Position → Position → Prop) (U : Spot → Prop) : Function → Function → Prop
  | builtin (b : Builtin) : Edited P U (.builtin b) (.builtin b)
  | operator (op : Operator) (mark : Nat) : Edited P U (.operator op mark) (.operator op mark)
  | closure {mark : Nat} {F : FrameId} {params : List String} {body body' : List Expr} {p q : Position} :
      List.Forall₂ (Expr.Edited P U) body body' → P p q →
      Edited P U (.closure ⟨mark, F, params, body, p⟩) (.closure ⟨mark, F, params, body', q⟩)

/-- Values that are the same but for such functions. -/
def Value.Edited (P : Position → Position → Prop) (U : Spot → Prop) : Value → Value → Prop :=
  Value.Agree (fun _ => True) (Function.Edited P U)

/-- **Machines that are the same** but for such values: the same frames bind the same names, and the same has been
printed. -/
structure Machine.Edited (P : Position → Position → Prop) (U : Spot → Prop) (m n : Machine) : Prop where
  store : m.store.Matches id (Value.Edited P U) n.store
  nextMark : m.nextMark = n.nextMark
  printed : m.printed = n.printed

namespace Machine.Edited

variable {m n : Machine}

theorem refl (h : ∀ p, P p p) (m : Machine) : Edited P U m m where
  store :=
    { frame? := fun F => by
        rw [id]
        cases m.store.frame? F with
        | none => exact .none
        | some f =>
          refine .some ⟨Value.agree_self_entries f.bindings fun g _ => ?_, (List.map_id f.outer).symm, rfl⟩
          cases g with
          | builtin b => exact .builtin b
          | operator op mark => exact .operator op mark
          | closure c => exact .closure (Expr.forall₂_edited_refl h c.body) (h c.pos)
      size := fun _ => rfl }
  nextMark := rfl
  printed := rfl

theorem marked (h : Edited P U m n) : Edited P U m.marked n.marked := ⟨h.store, congrArg (· + 1) h.nextMark, h.printed⟩

theorem print (h : Edited P U m n) (text : String) : Edited P U (m.print text) (n.print text) :=
  ⟨h.store, h.nextMark, congrArg (Array.push · text) h.printed⟩

theorem bind (h : Edited P U m n) {v w : Value} (hvw : Value.Edited P U v w) (F : FrameId) (name : String) :
    Edited P U (m.bind F name v) (n.bind F name w) :=
  ⟨h.store.bind Function.injective_id hvw F name, h.nextMark, h.printed⟩

theorem child (h : Edited P U m n) {es fs : Entries Value}
    (hes : List.Forall₂ (EntryAgree (fun _ => True) (Value.Edited P U)) es fs) (F : FrameId) :
    Edited P U (m.child F es) (n.child F fs) :=
  ⟨h.store.child Function.injective_id hes F, h.nextMark, h.printed⟩

end Machine.Edited

/-! ## Side by side -/

/-- Where the guard ends the first evaluation, nothing is asked of the second. -/
def Lockstep.edited (P : Position → Position → Prop) (U : Spot → Prop) : Lockstep Unit where
  text := fun _ => True
  place := fun _ => P
  code := fun _ => Expr.Edited P U
  inner := id
  frame := fun _ _ => Eq
  function := fun _ => Function.Edited P U
  error := Error.Alike P
  machine := Machine.Edited P U
  later := fun _ _ => True
  slack := 0
  excused := fun e => e = .recursionTooDeep {}

theorem Lockstep.edited_loose : (Lockstep.edited P U).Loose where
  later_refl := fun _ => trivial
  later_trans := fun _ _ => trivial
  frame_later := fun _ hF => hF
  function_later := fun _ hf => hf
  text_join := fun _ _ => trivial
  error_alike := fun he _ _ => he
  error_arguments := fun he => .ofArguments he
  code_fronts := fun he => he.fronts
  function_layer := by
    rintro _ f g (b | ⟨op, mark⟩ | ⟨hbody, hpos⟩)
    · exact .builtin b
    · exact .operator op _ _
    · exact .closure () rfl rfl hbody hpos
  find? := by
    rintro _ m n F _ name p q hmn rfl _
    have hfind := hmn.store.find? F name
    rw [id] at hfind
    rw [hfind, Option.isSome_map]
  lookup := by
    rintro _ m n F _ name p q hmn rfl _
    exact hmn.store.lookup .nil F name
  readOnly := by
    rintro _ m n F _ hmn rfl
    exact ⟨hmn.store.readOnly F, fun name _ => .readOnly name⟩
  bind := by
    rintro _ m n F _ name np nq e e' p q v w hmn rfl _ _ hvw
    exact ⟨hmn.bind hvw F name, trivial⟩
  enter := by
    rintro _ m n F _ es fs hmn rfl hes
    exact ⟨⟨hmn.child hes F, trivial⟩, hmn.store.size 0⟩
  operator := by
    intro m n op hmn
    refine ⟨⟨hmn.marked, trivial⟩, ?_⟩
    rw [← hmn.nextMark]
    exact .operator op _
  closure := by
    rintro _ m n F _ params body body' p q hmn rfl _ hbody hpos
    refine ⟨⟨hmn.marked, trivial⟩, ?_⟩
    rw [← hmn.nextMark]
    exact .closure hbody hpos

/-! ## The guard -/

namespace Activation

variable {depth left : Nat} {stack : List Activation} {F : FrameId} {m n : Machine}

/-- The form of a spot is evaluated, and does not stop in front of it. -/
def Missed (U : Spot → Prop) (depth : Nat) (stack : List Activation) (n : Machine) : Prop :=
  ∃ F s outer, stack = .expr F s.form :: outer ∧ U s ∧ ¬ s.Stops (depth - (outer.length + 1)) F n

open Classical in
/-- The watcher that ends an evaluation in front of a spot that is not idle. -/
noncomputable def guard (U : Spot → Prop) (depth : Nat) (stack : List Activation) : EvalM Unit := fun n =>
  if Missed U depth stack n then .error (.failed (.recursionTooDeep {})) n else .ok () n

theorem guard_objectsAt (U : Spot → Prop) (depth : Nat) : ObjectsAt (Missed U depth) (guard U depth) :=
  fun _ _ h => if_neg h

theorem guard_of_missed (h : Missed U depth stack n) :
    guard U depth stack n = .error (.failed (.recursionTooDeep {})) n := if_pos h

/-- What the guarded evaluation answers, the plain one answers. -/
theorem eq_ok_of_guarded {α : Type} {x : Option (List Activation → EvalM Unit) → EvalM α} (hx : Obeys (Missed U depth) x)
    {v : α} (hok : x (some (guard U depth)) m = .ok v n) : x none m = .ok v n :=
  hx.eq_ok (guard_objectsAt U depth) (fun _ _ hmissed => ⟨_, guard_of_missed hmissed⟩) hok

section Step

variable (hrun : (Lockstep.edited P U).Runs (traced (guard U depth) left stack) (run left))
  (hmn : Machine.Edited P U m n)
include hrun hmn

theorem edited_arguments {head head' : Expr} {before before' : List Expr} (after after' : List Expr) {p q : Position}
    (hhead : Expr.Edited P U head head') (hbefore : List.Forall₂ (Expr.Edited P U) before before')
    (hstops : Spot.Stops left F m (.arguments head before after p)) :
    (Lockstep.edited P U).Outcome m (Lockstep.edited P U).value
      (step (traced (guard U depth) left stack) (.expr F (.call (head :: (before ++ after)) p)) m)
      (step (run left) (.expr F (.call (head' :: (before' ++ after')) q)) n) := by
  rw [step_call, step_call, front_append, front_append, bind_assoc, bind_assoc]
  refine Lockstep.edited_loose.outcome_bind_of_eq (Lockstep.edited_loose.outcome_front (i := ()) hrun hmn rfl hhead hbefore)
    fun m' n' r r' hfront _ _ => ?_
  have hobeys : Obeys (Missed U depth) fun i => front (fun b => versions left stack b i) F head before :=
    (obeys_versions _).front (obeys _ left stack _) fun e _ => obeys _ left stack _
  exact absurd (eq_ok_of_guarded hobeys hfront) hstops.front_ne_ok

theorem edited_cond {test test' yes yes' no no' : Expr} {p q : Position} (htest : Expr.Edited P U test test')
    (hyes : ¬ Spot.Stops left F m (.whenTrue test yes no p) → Expr.Edited P U yes yes')
    (hno : ¬ Spot.Stops left F m (.whenFalse test yes no p) → Expr.Edited P U no no') :
    (Lockstep.edited P U).Outcome m (Lockstep.edited P U).value
      (step (traced (guard U depth) left stack) (.expr F (.cond test yes no p)) m)
      (step (run left) (.expr F (.cond test' yes' no' q)) n) := by
  refine Lockstep.edited_loose.outcome_bind_of_eq (hrun m n _ _ hmn (.expr (i := ()) rfl htest))
    fun m' n' v w hguarded hg hvw => ?_
  have htested : eval left F test m = .ok v m' := eq_ok_of_guarded (obeys _ left stack (.expr F test)) hguarded
  have hfail : ∀ actual, (Lockstep.edited P U).Outcome m' (Lockstep.edited P U).value
      (EvalM.fail (.type .bool actual (some test.pos)) m') (EvalM.fail (.type .bool actual (some test'.pos)) n') :=
    fun actual => Lockstep.edited_loose.outcome_fail hg.machine (.type .bool actual htest.fronts.pos)
  cases hvw with
  | bool b =>
    cases b with
    | true =>
      refine hrun m' n' _ _ hg.machine (.expr (i := ()) rfl (hyes fun hstops => ?_))
      cases hstops with
      | whenTrue hne => exact hne m' htested
    | false =>
      refine hrun m' n' _ _ hg.machine (.expr (i := ()) rfl (hno fun hstops => ?_))
      cases hstops with
      | whenFalse hne => exact hne m' htested
  | _ => exact hfail _

/-- **One activation goes alike**, if every form that it is stops in front of its spots. -/
theorem edited_step {a b : Activation} (hab : (Lockstep.edited P U).Activations m a b)
    (hstops : ∀ F s, a = .expr F s.form → U s → s.Stops left F m) :
    (Lockstep.edited P U).Outcome m (Lockstep.edited P U).value (step (traced (guard U depth) left stack) a m)
      (step (run left) b n) := by
  have hloose : (Lockstep.edited P U).Loose := Lockstep.edited_loose
  cases hab with
  | @expr _ F _ e e' hF he =>
    obtain rfl := hF
    have hlayer := hloose.outcome_expr (i := ()) (F := F) (G := F) hrun hmn rfl he
    cases he with
    | arguments hhead hbefore hU hpq => exact edited_arguments hrun hmn _ _ hhead hbefore (hstops _ _ rfl hU)
    | cond htest hyes hno hpq =>
      refine edited_cond hrun hmn htest (fun hnot => hyes fun hU => ?_) fun hnot => hno fun hU => ?_
      · exact hnot (hstops _ _ rfl hU)
      · exact hnot (hstops _ _ rfl hU)
    | ident hpq => exact hlayer (.ident hpq)
    | number hpq => exact hlayer (.number hpq)
    | string hpq => exact hlayer (.string trivial hpq)
    | bool hpq => exact hlayer (.bool hpq)
    | nil hpq => exact hlayer (.nil hpq)
    | operator hpq => exact hlayer (.operator hpq)
    | call hitems hpq => exact hlayer (.call hitems hpq)
    | fn hbody hpq => exact hlayer (.fn hbody hpq)
    | define hvalue hpq => exact hlayer (.define hvalue hpq)
  | @call caller caller' f g args args' hfg hargs =>
    by_cases hf : f = .builtin .print
    · subst hf
      cases hfg with
      | builtin _ => exact hloose.outcome_print caller caller' hargs ⟨hmn.print _, trivial⟩
    · exact hloose.outcome_call hrun hmn hfg hargs hf

end Step

/-- **The guarded evaluation and one with other code in the spots** go alike, up to where the guard ends the first. -/
theorem edited_runs (depth : Nat) : ∀ (left : Nat) (outer : List Activation), left + outer.length = depth →
    (Lockstep.edited P U).Runs (traced (guard U depth) left outer) (run left)
  | 0, outer, _ => by
    intro m n a b hmn _
    rw [traced, run_zero]
    exact .exhausted fun _ => ⟨n, rfl, Lockstep.edited_loose.goes_refl hmn⟩
  | left + 1, outer, hdepth => by
    intro m n a b hmn hab
    rw [traced_succ, run_succ, ← Lockstep.edited_loose.fits_eq left hab]
    by_cases hfits : a.fits left = true
    · rw [if_pos hfits, if_pos hfits, EvalM.bind_apply]
      by_cases hmissed : Missed U depth (a :: outer) m
      · rw [guard_of_missed hmissed]
        exact .excused rfl
      · rw [guard_objectsAt U depth _ _ hmissed]
        have hinside : left + (a :: outer).length = depth := by
          rw [List.length_cons]
          omega
        refine edited_step (edited_runs depth left (a :: outer) hinside) hmn hab fun F s ha hU => ?_
        have hleft : depth - (outer.length + 1) = left := by omega
        by_contra hnot
        exact hmissed ⟨F, s, outer, by rw [ha], hU, by rwa [hleft]⟩
    · rw [if_neg hfits, if_neg hfits]
      exact .exhausted fun _ => ⟨n, rfl, Lockstep.edited_loose.goes_refl hmn⟩

/-- Where all spots are idle, the guard does nothing. -/
theorem guarded_eq_run {a : Activation} (hidle : ∀ s, U s → s.Idle depth a m) :
    traced (guard U depth) depth [] a m = run depth a m := by
  rcases stacked_or_comes (Missed U depth) depth a m with hnever | ⟨stack, k, hmissed, hcomes, -⟩
  · exact hnever _ (guard_objectsAt U depth)
  · obtain ⟨F, s, outer, rfl, hU, hnot⟩ := hmissed
    exact absurd (hidle s hU F outer k hcomes) hnot

end Activation

/-! ## Other code in idle spots -/

/-- Halts that are the same but for positions. -/
inductive Halt.Alike (P : Position → Position → Prop) : Halt → Halt → Prop
  | failed {e e' : Error} : Error.Alike P e e' → Alike P (.failed e) (.failed e')
  | exhausted : Alike P .exhausted .exhausted

/-- **Computations that end alike**: with related values or related errors, and in machines that are the same but for
code in spots. -/
inductive Machine.Edited.Ends (P : Position → Position → Prop) (U : Spot → Prop) {ε α β : Type} (E : ε → ε → Prop)
    (Q : α → β → Prop) : EStateM.Result ε Machine α → EStateM.Result ε Machine β → Prop
  | ok {a : α} {b : β} {m n : Machine} : Machine.Edited P U m n → Q a b → Ends P U E Q (.ok a m) (.ok b n)
  | error {e e' : ε} {m n : Machine} : Machine.Edited P U m n → E e e' → Ends P U E Q (.error e m) (.error e' n)

/-- **Other code in spots that are idle makes no difference** to an evaluation. -/
theorem Machine.Edited.eval {depth : Nat} {F : FrameId} {e e' : Expr} {m n : Machine} (hmn : Machine.Edited P U m n)
    (he : Expr.Edited P U e e') (hidle : ∀ s, U s → s.Idle depth (.expr F e) m) :
    Ends P U (Halt.Alike P) (Value.Edited P U) (eval depth F e m) (MiniLisp.eval depth F e' n) := by
  have hout := Activation.edited_runs (P := P) (U := U) depth depth [] rfl m n (.expr F e) (.expr F e') hmn
    (.expr (i := ()) rfl he)
  rw [Activation.guarded_eq_run hidle] at hout
  change (Lockstep.edited P U).Outcome m (Lockstep.edited P U).value (MiniLisp.eval depth F e m) (MiniLisp.eval depth F e' n)
    at hout
  generalize hr : MiniLisp.eval depth F e m = r at hout
  generalize MiniLisp.eval depth F e' n = r' at hout
  cases hout with
  | ok hg hvw => exact .ok hg.machine hvw
  | failed hg herror => exact .error hg.machine (.failed herror)
  | exhausted hexhausted =>
    obtain ⟨n', rfl, hg⟩ := hexhausted rfl
    exact .error hg.machine .exhausted
  | excused hexcused => exact absurd hexcused (Activation.ne_recursionTooDeep (a := .expr F e) hr {})

end MiniLisp
