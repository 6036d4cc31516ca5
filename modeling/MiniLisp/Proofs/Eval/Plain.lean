import MiniLisp.Proofs.Eval.Depth
import MiniLisp.Proofs.Expr.Nesting
import MiniLisp.Proofs.Store.Bound
/-!
# Plain — evaluation without closures

Where no closure is bound and none is made, none is ever applied (`Invariant.plain_lawful`).  Then an expression starts
its parts, and a built-in calls another one; but what it calls with fits a built-in that calls something itself only if
it is `listReduce` (`Builtin.Calls.again`).  So activations nest as deep as the expression does, and three calls at
most (`Activation.stacked_shallow`), and what there is ends (`Activation.settles`).
-/
namespace MiniLisp

/-! ## Closures -/

def Function.IsClosure : Function → Prop
  | .closure _ => True
  | .builtin _ | .operator _ _ => False

/-- A value that holds no closure, at any depth. -/
def Value.Plain (v : Value) : Prop := ∀ f ∈ v.functions, ¬ f.IsClosure

/-- **No closure is bound on the chain of a frame.** -/
def Store.Plain (s : Store) (F : FrameId) : Prop := ∀ G ∈ s.chain F, ∀ v ∈ (s.bindings G).values, v.Plain

/-- A call of a closure. -/
def Activation.OfClosure : Activation → Prop
  | .expr _ _ => False
  | .call _ f _ => f.IsClosure

theorem Value.height_le_heightAll : ∀ {vs : List Value} {v : Value}, v ∈ vs → v.height ≤ heightAll vs
  | w :: vs, v, hv => by
    rw [heightAll]
    rcases List.mem_cons.1 hv with rfl | hv
    · exact Nat.le_max_left _ _
    · exact Nat.le_trans (height_le_heightAll hv) (Nat.le_max_right _ _)

namespace Store

variable {s : Store} {F G : FrameId} {name : String} {v : Value} {es : Entries Value}

theorem Plain.bind (h : s.Plain G) (hv : v.Plain) : (s.bind F name v).Plain G := by
  intro H hH
  unfold Store.chain at hH
  rw [outer_bind] at hH
  exact forall_values_bind (h H hH) fun _ => hv

theorem Plain.child (hF : s.Plain F) (hes : ∀ v ∈ es.values, v.Plain) (hG : G = s.frames.size ∨ s.Plain G) :
    (s.child F es).2.Plain G := by
  intro H hH
  unfold Store.chain at hH
  by_cases hnew : G = s.frames.size
  · subst hnew
    have houter : (s.child F es).2.outer s.frames.size = s.chain F := by
      unfold Store.outer
      rw [frame?_child_self]
    rw [houter] at hH
    by_cases hself : H = s.frames.size
    · subst hself
      unfold Store.bindings
      rw [frame?_child_self]
      exact hes
    · rw [bindings_congr (frame?_child_of_ne hself)]
      exact hF H ((List.mem_cons.1 hH).resolve_left hself)
  · rw [outer_congr (frame?_child_of_ne hnew)] at hH
    exact forall_values_child (hG.resolve_left hnew H hH) fun _ => hes

end Store

theorem Expr.nesting_eq_zero_of_mem {es : List Expr} {e : Expr} (h : nestingAll es = 0) (he : e ∈ es) :
    e.nesting = 0 := Nat.eq_zero_of_le_zero (h ▸ nesting_le_nestingAll he)

namespace Invariant

/-- What holds where there are no closures. -/
def plain : Invariant Unit where
  text := fun _ => True
  code := fun _ e => e.nesting = 0
  inner := id
  frame := fun _ m F => m.store.Plain F
  function := fun _ f => ¬ f.IsClosure
  error := fun _ => True
  machine := fun _ => True
  later := fun m m' => ∀ F, m.store.Plain F → m'.store.Plain F

theorem value_plain {m : Machine} {v : Value} : plain.value m v ↔ v.Plain := and_iff_right fun _ _ => trivial

theorem plain_lawful : plain.Lawful where
  later_refl := fun _ _ h => h
  later_trans := fun h h' F hF => h' F (h F hF)
  frame_later := fun hlater hF => hlater _ hF
  function_later := fun _ hf => hf
  text_join := fun _ _ => trivial
  error := fun _ _ _ => trivial
  parts := by
    intro _ e he
    cases e with
    | call items pos => exact fun e' => Expr.nesting_eq_zero_of_mem he
    | cond test yes no pos =>
      simp only [plain, Expr.nesting, Nat.max_eq_zero_iff] at he
      exact he
    | fn params body pos => exact absurd he (Nat.succ_ne_zero _)
    | define name namePos value pos => exact he
    | _ => trivial
  body := fun hf => absurd trivial hf
  lookup := fun _ hF _ => value_plain.2 (Store.lookup_of_chain hF nofun _)
  readOnly := fun _ _ _ _ => trivial
  bind := fun _ _ _ _ hv => ⟨trivial, fun _ hG => hG.bind (value_plain.1 hv)⟩
  enter := fun _ hF hes => by
    have hvalues := fun v hv => value_plain.1 (hes v hv)
    exact ⟨⟨trivial, fun _ hG => hF.child hvalues (.inr hG)⟩, hF.child hvalues (.inl rfl)⟩
  operator := fun _ _ => ⟨⟨trivial, fun _ h => h⟩, id⟩
  closure := fun _ _ hfn _ => absurd hfn (Nat.succ_ne_zero _)
  print := fun _ _ => ⟨trivial, fun _ h => h⟩

end Invariant

namespace Activation

variable {F : FrameId} {e : Expr} {m : Machine}

/-- **No closure is applied** in the evaluation of an expression without `fn`, if none is bound where it looks. -/
theorem throughout_no_closure (hF : m.store.Plain F) (he : e.nesting = 0) (depth : Nat) :
    Throughout (fun a _ => ¬ a.OfClosure) depth (.expr F e) m := by
  have ha : Invariant.plain.activation m (.expr F e) := ⟨(), hF, he⟩
  refine (Invariant.plain_lawful.run trivial ha depth).2.mono fun a n ha => ?_
  cases a with
  | expr G e' => exact id
  | call caller f args => exact ha.2.1

end Activation

/-! ## How calls nest -/

/-- The built-ins that call a function and take two arguments. -/
def Builtin.mapping : List Builtin := [.listFilter, .listMap, .mapFilter, .mapMap]

/-- **Only `listReduce` calls a built-in with arguments with which it calls something itself.**  An element alone is
not enough for any of them, and a key is neither a list nor a map. -/
theorem Builtin.Calls.again {b c : Builtin} {args args' args'' : List Value} {f : Function}
    (h : b.Calls args (.builtin c) args') (h' : c.Calls args' f args'') : b = .listReduce ∧ c ∈ mapping := by
  cases h <;> cases h' <;> exact ⟨rfl, by decide⟩

namespace Activation

def isExpr : Activation → Bool
  | .expr _ _ => true
  | .call _ _ _ => false

@[simp] theorem isExpr_expr (F : FrameId) (e : Expr) : (expr F e).isExpr = true := rfl

@[simp] theorem isExpr_call (caller : FrameId) (f : Function) (args : List Value) :
    (call caller f args).isExpr = false := rfl

/-- **Every activation that starts no closure starts finitely many others, one inside the other.** -/
theorem starts_induction {P : Activation → Prop} (closure : ∀ a : Activation, a.OfClosure → P a)
    (step : ∀ a : Activation, ¬ a.OfClosure → (∀ b, a.Starts b → P b) → P a) : ∀ a, P a := by
  have hcall : ∀ caller f args, (∀ b g args', f = .builtin b → b.Calls args g args' → P (.call caller g args')) →
      P (.call caller f args) := by
    intro caller f args hf
    by_cases hclosure : f.IsClosure
    · exact closure _ hclosure
    · refine step _ hclosure ?_
      rintro _ (_ | _ | _ | _ | _ | _ | hcalls | _)
      · exact hf _ _ _ rfl hcalls
      · exact absurd trivial hclosure
  have hcalls : ∀ caller f args, P (.call caller f args) := by
    refine fun caller f args => hcall caller f args fun b g args' hb hg => ?_
    refine hcall caller g args' fun c g' args'' hc hg' => hcall caller g' args'' fun d g'' args''' hd hg'' => ?_
    -- With a call inside the third, the second would be of `listReduce`, too.
    subst hb hc hd
    have hreduce := (hg'.again hg'').1
    have hmapping := (hg.again hg').2
    rw [hreduce] at hmapping
    exact absurd hmapping (by decide)
  have hexpr : ∀ (n : Nat) (F : FrameId) (e : Expr), e.height < n → P (.expr F e) := by
    intro n
    induction n with
    | zero => exact fun _ _ hn => absurd hn (Nat.not_lt_zero _)
    | succ n ih =>
      intro F e hn
      refine step _ id ?_
      rintro _ (⟨he⟩ | ⟨f, args⟩ | _ | _ | _ | _ | _ | _)
      · exact ih F _ (Nat.lt_of_lt_of_le (Nat.lt_succ_of_le (Expr.heightAll_le.1 (Nat.le_refl _) _ he))
          (Nat.le_of_lt_succ hn))
      · exact hcalls F f args
      all_goals
        rw [Expr.height] at hn
        exact ih F _ (by omega)
  intro a
  cases a with
  | expr F e => exact hexpr _ F e (Nat.lt_succ_self _)
  | call caller f args => exact hcalls caller f args

/-! ## How deep stacks are -/

/-- **What a stack looks like without closures**: the calls are inside the expressions, which nest as in `e`. -/
inductive Shape (e : Expr) : List Activation → Prop
  | evaluating {F : FrameId} {e' : Expr} {outer : List Activation} : (∀ a ∈ outer, a.isExpr) →
      e'.height + outer.length ≤ e.height → Shape e (.expr F e' :: outer)
  | calling {caller : FrameId} {f : Function} {args : List Value} {outer : List Activation} : (∀ a ∈ outer, a.isExpr) →
      outer.length ≤ e.height → Shape e (.call caller f args :: outer)
  | callingBack {caller : FrameId} {b : Builtin} {f : Function} {args args' : List Value} {outer : List Activation} :
      (∀ a ∈ outer, a.isExpr) → outer.length ≤ e.height → b.Calls args f args' →
      Shape e (.call caller f args' :: .call caller (.builtin b) args :: outer)
  | callingAgain {caller : FrameId} {b : Builtin} {f : Function} {args args' args'' : List Value}
      {outer : List Activation} : (∀ a ∈ outer, a.isExpr) → outer.length ≤ e.height → b ∈ Builtin.mapping →
      b.Calls args' f args'' →
      Shape e (.call caller f args'' :: .call caller (.builtin b) args' :: .call caller (.builtin .listReduce) args :: outer)

/-- Parts of an expression are less high. -/
theorem Starts.height_lt {F G : FrameId} {e e' : Expr} (h : (Activation.expr F e).Starts (.expr G e')) :
    e'.height < e.height := by
  cases h with
  | item he => exact Nat.lt_succ_of_le (Expr.heightAll_le.1 (Nat.le_refl _) _ he)
  | test | yes | no | value => simp only [Expr.height]; omega

theorem Grown.innermost {q : Activation → Prop} {a b : Activation} {outer : List Activation}
    (h : Grown q a (b :: outer)) : q b := by
  cases h with
  | start hq => exact hq
  | push _ _ hq => exact hq

theorem Grown.shape {F : FrameId} {e : Expr} {stack : List Activation}
    (h : Grown (fun a => ¬ a.OfClosure) (.expr F e) stack) : Shape e stack := by
  induction h with
  | start _ => exact .evaluating nofun (Nat.le_refl _)
  | @push b c outer hgrown hstarts _ ih =>
    cases ih with
    | @evaluating F e' outer hall hheight =>
      have hall' : ∀ a ∈ Activation.expr F e' :: outer, a.isExpr := List.forall_mem_cons.2 ⟨rfl, hall⟩
      cases c with
      | expr G e'' =>
        have hlt := hstarts.height_lt
        refine .evaluating hall' ?_
        rw [List.length_cons]
        omega
      | call caller f args =>
        cases hstarts with
        | callee =>
          refine .calling hall' ?_
          rw [Expr.height] at hheight
          rw [List.length_cons]
          omega
    | calling hall hlength =>
      cases hstarts with
      | callback hcalls => exact .callingBack hall hlength hcalls
      | body _ => exact absurd trivial hgrown.innermost
    | callingBack hall hlength hcalls =>
      cases hstarts with
      | callback hcalls' =>
        obtain ⟨rfl, hb⟩ := hcalls.again hcalls'
        exact .callingAgain hall hlength hb hcalls'
      | body _ => exact absurd trivial hgrown.innermost
    | callingAgain hall hlength hb hcalls =>
      cases hstarts with
      | callback hcalls' =>
        rw [(hcalls.again hcalls').1] at hb
        exact absurd hb (by decide)
      | body _ => exact absurd trivial hgrown.innermost

/-- **How deep a stack is without closures**: no deeper in expressions than `e` nests, and in three calls at most.  In
three, `listReduce` calls a built-in that calls the third function. -/
structure Shallow (e : Expr) (stack : List Activation) : Prop where
  evaluations : stack.countP (·.isExpr) ≤ e.height + 1
  applications : stack.countP (!·.isExpr) ≤ 3
  deepest : stack.countP (!·.isExpr) = 3 → ∃ caller f args args' args'' outer, ∃ b ∈ Builtin.mapping,
    stack = .call caller f args'' :: .call caller (.builtin b) args' :: .call caller (.builtin .listReduce) args :: outer

theorem Shape.shallow {e : Expr} {stack : List Activation} (h : Shape e stack) : Shallow e stack := by
  have hexprs : ∀ {outer : List Activation}, (∀ a ∈ outer, a.isExpr) →
      outer.countP (·.isExpr) = outer.length ∧ outer.countP (!·.isExpr) = 0 := fun hall =>
    ⟨List.countP_eq_length.2 hall, List.countP_eq_zero.2 fun a ha => by simp [hall a ha]⟩
  cases h with
  | evaluating hall hheight =>
    obtain ⟨hevals, hcalls⟩ := hexprs hall
    refine ⟨?_, by simp [hcalls], by simp [hcalls]⟩
    rw [List.countP_cons_of_pos (isExpr_expr _ _), hevals]
    omega
  | calling hall hlength =>
    obtain ⟨hevals, hcalls⟩ := hexprs hall
    exact ⟨by simp [hevals]; omega, by simp [hcalls], by simp [hcalls]⟩
  | callingBack hall hlength _ =>
    obtain ⟨hevals, hcalls⟩ := hexprs hall
    exact ⟨by simp [hevals]; omega, by simp [hcalls], by simp [hcalls]⟩
  | callingAgain hall hlength hb _ =>
    obtain ⟨hevals, hcalls⟩ := hexprs hall
    exact ⟨by simp [hevals]; omega, by simp [hcalls], fun _ => ⟨_, _, _, _, _, _, _, hb, rfl⟩⟩

theorem Shallow.length_le {e : Expr} {stack : List Activation} (h : Shallow e stack) :
    stack.length ≤ e.height + 4 := by
  have hevaluations := h.evaluations
  have happlications := h.applications
  have hsum : stack.length = stack.countP (·.isExpr) + stack.countP (!·.isExpr) := by
    rw [List.length_eq_countP_add_countP (·.isExpr)]
    simp only [Bool.not_eq_true, Bool.decide_eq_false]
  omega

/-- **Without closures all stacks are shallow.** -/
theorem stacked_shallow {F : FrameId} {e : Expr} {m : Machine} (hF : m.store.Plain F) (he : e.nesting = 0)
    (depth : Nat) : Stacked (fun stack _ => Shallow e stack) depth (.expr F e) m :=
  (throughout_no_closure hF he depth).stacked.mono fun stack _ hstack => by
    have hgrown : Grown (fun a => ¬ a.OfClosure) (.expr F e) stack := hstack.mono fun a ⟨_, ha⟩ => ha
    exact hgrown.shape.shallow

/-! ## Termination -/

/-- The versions of a computation, one for each depth, settle: from some depth on they end the same way, and are not
cut off. -/
def Settles {α : Type} (x : Nat → EvalM α) : Prop :=
  ∀ m, ∃ r, (∀ n, r ≠ .error .exhausted n) ∧ ∃ d₀, ∀ depth ≥ d₀, x depth m = r

theorem settles_versions : Versions Settles where
  uncut := fun {_ x} hx m => ⟨x m, hx m, 0, fun _ _ => rfl⟩
  bind := by
    intro α β x f hx hf m
    simp only [EvalM.bind_apply]
    obtain ⟨r, hr, d₀, hd₀⟩ := hx m
    cases r with
    | error halt n =>
      exact ⟨.error halt n, fun n' h => hr n' (by cases h; rfl), d₀, fun depth hdepth => by rw [hd₀ depth hdepth]⟩
    | ok a m' =>
      obtain ⟨r', hr', d₁, hd₁⟩ := hf a m'
      refine ⟨r', hr', max d₀ d₁, fun depth hdepth => ?_⟩
      rw [hd₀ depth (Nat.le_trans (Nat.le_max_left _ _) hdepth)]
      exact hd₁ depth (Nat.le_trans (Nat.le_max_right _ _) hdepth)

/-- The watcher that refuses closures. -/
def refuse : Activation → EvalM Unit
  | .call _ (.closure _) _ => EvalM.fail (.readOnly "")
  | _ => pure ()

/-- A call of anything but a closure is not refused. -/
theorem refuse_of_not_closure {a : Activation} (h : ¬ a.OfClosure) (m : Machine) : refuse a m = .ok () m := by
  match a, h with
  | .expr _ _, _ | .call _ (.builtin _) _, _ | .call _ (.operator _ _) _, _ => rfl
  | .call _ (.closure _) _, h => exact absurd trivial h

/-- Some depth is enough for what an activation does itself. -/
theorem exists_fits (a : Activation) : ∃ depth, a.fits depth = true := by
  cases a with
  | expr F e => exact ⟨0, rfl⟩
  | call caller f args =>
    cases f with
    | builtin b =>
      cases b with
      | print =>
        refine ⟨Value.heightAll args, List.all_eq_true.2 fun v hv => decide_eq_true ?_⟩
        have hle := Value.height_le_heightAll hv
        omega
      | _ => exact ⟨0, rfl⟩
    | operator op mark => exact ⟨0, rfl⟩
    | closure c => exact ⟨0, rfl⟩

/-- **Evaluation that refuses closures ends.** -/
theorem settles_refuse : ∀ a : Activation, Settles fun depth => watched refuse depth a := by
  refine starts_induction (fun a ha m => ?_) fun a ha hstarts m => ?_
  · -- A closure is refused as soon as there is any depth.
    refine ⟨.error (.failed (.readOnly "")) m, fun _ => nofun, 1, fun depth hdepth => ?_⟩
    obtain ⟨depth, rfl⟩ := Nat.exists_eq_add_of_le' hdepth
    match a, ha with
    | .call caller (.closure c) args, _ => rfl
  · obtain ⟨enough, hfits⟩ := exists_fits a
    obtain ⟨r, hr, d₀, hd₀⟩ := settles_versions.step hstarts m
    refine ⟨r, hr, max enough d₀ + 1, fun depth hdepth => ?_⟩
    obtain ⟨depth, rfl⟩ : ∃ d, depth = d + 1 := ⟨depth - 1, by omega⟩
    show watched refuse (depth + 1) a m = r
    rw [watched_succ, if_pos (fits_of_le (by omega) hfits), EvalM.bind_apply, refuse_of_not_closure ha]
    exact hd₀ depth (by omega)

/-- **Without closures every evaluation ends**, if there is depth enough for what it prints. -/
theorem settles {F : FrameId} {e : Expr} {m : Machine} (hF : m.store.Plain F) (he : e.nesting = 0) :
    ∃ r, (∀ n, r ≠ .error .exhausted n) ∧ ∃ d₀, ∀ depth ≥ d₀, run depth (.expr F e) m = r := by
  obtain ⟨r, hr, d₀, hd₀⟩ := settles_refuse (.expr F e) m
  refine ⟨r, hr, d₀, fun depth hdepth => ?_⟩
  rw [← throughout_no_closure hF he depth refuse fun b n hb => refuse_of_not_closure hb n]
  exact hd₀ depth hdepth

end Activation

end MiniLisp
