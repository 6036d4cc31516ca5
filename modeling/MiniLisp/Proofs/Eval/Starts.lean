import MiniLisp.Proofs.Arguments.Agree
import MiniLisp.Proofs.Eval.Activation
/-!
# Starts — what an activation starts

An activation starts others: those of the parts of an expression, of the function of a call, of the body of a closure,
and the calls that a built-in makes.  `Activation.Starts` says which these can be, whatever happens.  So what holds of
computations in several versions, and is kept by sequences, holds of an activation as soon as it holds of the ones that
it may start (`Versions.step`).
-/
namespace MiniLisp

open Builtin (mapItems filterItems foldItems)

/-! ## Reads that succeed -/

namespace Expected

theorem eq_of_list_view {v : Value} {items : List Value} (h : list.view v = some items) : v = .list items := by
  cases v <;> cases h
  rfl

theorem eq_of_map_view {v : Value} {entries : Entries Value} (h : map.view v = some entries) : v = .map entries := by
  cases v <;> cases h
  rfl

theorem eq_of_function_view {v : Value} {f : Function} (h : function.view v = some f) : v = .function f := by
  cases v <;> cases h
  rfl

end Expected

namespace ValueReading

variable {α β γ : Type} {s s' : Arguments Value} {fn : String} {args : List Value} {a : α} {b : β} {c : γ}
  {x : Expected α} {y : Expected β} {z : Expected γ}

theorem bind_eq_ok {r : ValueReading α} {f : α → ValueReading β} (h : (r >>= f) s = (.ok b, s')) :
    ∃ a s₁, r s = (.ok a, s₁) ∧ f a s₁ = (.ok b, s') := by
  rw [bind_apply] at h
  match hr : r s with
  | (.ok a, s₁) =>
    rw [hr] at h
    exact ⟨a, s₁, rfl, h⟩
  | (.error e, s₁) =>
    rw [hr] at h
    cases h

/-- A read that succeeds has taken the next argument. -/
theorem one_eq_ok (h : one x s = (.ok a, s')) : ∃ v, x.view v = some a ∧ s.pending = v :: s'.pending := by
  obtain ⟨fn, index, pending⟩ := s
  obtain ⟨v?, s₁, hnext, h⟩ := bind_eq_ok h
  cases pending with
  | nil =>
    cases hnext
    cases h
  | cons v rest =>
    cases hnext
    cases hview : x.view v with
    | none =>
      simp only [hview] at h
      cases h
    | some b =>
      simp only [hview] at h
      cases h
      exact ⟨v, hview, rfl⟩

/-- A reading that succeeds has taken all arguments. -/
theorem read_eq_ok {r : ValueReading α} (h : read fn args r = .ok a) :
    ∃ s, r ⟨fn, 0, args⟩ = (.ok a, s) ∧ s.pending = [] := by
  have hall : (do let a ← r; Arguments.complete fetch; pure a : ValueReading α) ⟨fn, 0, args⟩ = (.ok a, _) :=
    Prod.ext h rfl
  obtain ⟨b, s, hr, hcomplete⟩ := bind_eq_ok hall
  obtain ⟨_, s', hend, hpure⟩ := bind_eq_ok hcomplete
  cases hpure
  obtain ⟨v?, s₁, hnext, hend⟩ := bind_eq_ok hend
  obtain ⟨fn', index, pending⟩ := s
  cases pending with
  | nil => exact ⟨_, hr, rfl⟩
  | cons v rest =>
    cases hnext
    cases hend

theorem two_of_read (h : read fn args (do return (← one x, ← one y)) = .ok (a, b)) :
    ∃ v w, args = [v, w] ∧ x.view v = some a ∧ y.view w = some b := by
  obtain ⟨s, h, hnil⟩ := read_eq_ok h
  obtain ⟨a', s₁, hx, h⟩ := bind_eq_ok h
  obtain ⟨b', s₂, hy, h⟩ := bind_eq_ok h
  cases h
  obtain ⟨v, hv, hargs⟩ := one_eq_ok hx
  obtain ⟨w, hw, hrest⟩ := one_eq_ok hy
  rw [hrest, hnil] at hargs
  exact ⟨v, w, hargs, hv, hw⟩

theorem three_of_read (h : read fn args (do return (← one x, ← one y, ← one z)) = .ok (a, b, c)) :
    ∃ u v w, args = [u, v, w] ∧ x.view u = some a ∧ y.view v = some b ∧ z.view w = some c := by
  obtain ⟨s, h, hnil⟩ := read_eq_ok h
  obtain ⟨a', s₁, hx, h⟩ := bind_eq_ok h
  obtain ⟨b', s₂, hy, h⟩ := bind_eq_ok h
  obtain ⟨c', s₃, hz, h⟩ := bind_eq_ok h
  cases h
  obtain ⟨u, hu, hargs⟩ := one_eq_ok hx
  obtain ⟨v, hv, hrest⟩ := one_eq_ok hy
  obtain ⟨w, hw, hend⟩ := one_eq_ok hz
  rw [hrest, hend, hnil] at hargs
  exact ⟨u, v, w, hargs, hu, hv, hw⟩

end ValueReading

/-! ## What is started -/

/-- **The calls that a built-in can make**, given its arguments.  What a reducing one has so far can be anything. -/
inductive Builtin.Calls : Builtin → List Value → Function → List Value → Prop
  | listFilter {items : List Value} {f : Function} {v : Value} : v ∈ items →
      Calls .listFilter [.list items, .function f] f [v]
  | listMap {items : List Value} {f : Function} {v : Value} : v ∈ items →
      Calls .listMap [.list items, .function f] f [v]
  | listReduce {acc acc' : Value} {items : List Value} {f : Function} {v : Value} : v ∈ items →
      Calls .listReduce [acc, .list items, .function f] f [acc', v]
  | mapFilter {entries : Entries Value} {f : Function} {key : String} {v : Value} : (key, v) ∈ entries →
      Calls .mapFilter [.map entries, .function f] f [.string key, v]
  | mapMap {entries : Entries Value} {f : Function} {key : String} {v : Value} : (key, v) ∈ entries →
      Calls .mapMap [.map entries, .function f] f [.string key, v]
  | mapReduce {acc acc' : Value} {entries : Entries Value} {f : Function} {key : String} {v : Value} :
      (key, v) ∈ entries → Calls .mapReduce [acc, .map entries, .function f] f [acc', .string key, v]

/-- **The activations that one activation may start.** -/
inductive Activation.Starts : Activation → Activation → Prop
  | item {F : FrameId} {items : List Expr} {pos : Position} {e : Expr} : e ∈ items →
      Starts (.expr F (.call items pos)) (.expr F e)
  | callee {F : FrameId} {items : List Expr} {pos : Position} (f : Function) (args : List Value) :
      Starts (.expr F (.call items pos)) (.call F f args)
  | test {F : FrameId} {test yes no : Expr} {pos : Position} : Starts (.expr F (.cond test yes no pos)) (.expr F test)
  | yes {F : FrameId} {test yes no : Expr} {pos : Position} : Starts (.expr F (.cond test yes no pos)) (.expr F yes)
  | no {F : FrameId} {test yes no : Expr} {pos : Position} : Starts (.expr F (.cond test yes no pos)) (.expr F no)
  | value {F : FrameId} {name : String} {namePos pos : Position} {e : Expr} :
      Starts (.expr F (.define name namePos e pos)) (.expr F e)
  | callback {caller : FrameId} {b : Builtin} {args args' : List Value} {f : Function} : b.Calls args f args' →
      Starts (.call caller (.builtin b) args) (.call caller f args')
  | body {caller F : FrameId} {c : Closure} {args : List Value} {e : Expr} : e ∈ c.body →
      Starts (.call caller (.closure c) args) (.expr F e)

/-! ## Computations in several versions -/

namespace EvalM

variable {α β : Type}

/-- A computation that is never cut off. -/
def Uncut (x : EvalM α) : Prop := ∀ m m', x m ≠ .error .exhausted m'

theorem uncut_pure (a : α) : Uncut (pure a) := fun _ _ => nofun

theorem uncut_fail (e : Error) : Uncut (fail e : EvalM α) := fun _ _ => nofun

theorem uncut_ofExcept (x : Except Error α) : Uncut (ofExcept x) := by
  cases x with
  | ok a => exact uncut_pure a
  | error e => exact uncut_fail e

theorem uncut_newMark : Uncut newMark := fun _ _ => nofun

theorem uncut_lookup (F : FrameId) (name : String) : Uncut (lookup F name) := fun _ _ => nofun

theorem uncut_print (text : String) : Uncut (print text) := fun _ _ => nofun

theorem uncut_define (F : FrameId) (name : String) (v : Value) : Uncut (define F name v) := by
  intro m m'
  rw [define_eq]
  cases m.store.define F name v <;> exact nofun

theorem uncut_checkBound (F : FrameId) (e : Expr) : Uncut (checkBound F e) := by
  intro m m'
  cases e with
  | ident name pos =>
    rw [checkBound_ident]
    split <;> exact nofun
  | _ => exact nofun

theorem uncut_enter (c : Closure) (args : List Value) : Uncut (enter c args) := by
  intro m m'
  unfold enter
  split <;> exact nofun

end EvalM

/-- **A property of a computation in several versions**, one for each `i : ι`, that holds of what has one version only
and is never cut off, and is kept by sequences. -/
structure Versions {ι : Type} (R : ∀ {α : Type}, (ι → EvalM α) → Prop) : Prop where
  uncut : ∀ {α : Type} {x : EvalM α}, x.Uncut → R fun _ => x
  bind : ∀ {α β : Type} {x : ι → EvalM α} {f : ι → α → EvalM β}, R x → (∀ a, R fun i => f i a) →
    R fun i => x i >>= f i

namespace Versions

variable {ι α β : Type} {R : ∀ {α : Type}, (ι → EvalM α) → Prop} (h : Versions R)

include h

theorem pure (a : α) : R fun _ : ι => (Pure.pure a : EvalM α) := h.uncut (EvalM.uncut_pure a)

/-- What follows an answer holds of the answer only. -/
theorem ofExcept_bind {x : Except Error α} {f : ι → α → EvalM β} (hf : ∀ a, x = .ok a → R fun i => f i a) :
    R fun i => EvalM.ofExcept x >>= f i := by
  cases x with
  | ok a => exact hf a rfl
  | error e => exact h.uncut (EvalM.uncut_fail e)

/-! ### Elements one by one -/

theorem mapItems {call : ι → α → EvalM β} : ∀ {as : List α}, (∀ a ∈ as, R fun i => call i a) →
    R fun i => mapItems (call i) as
  | [], _ => h.pure []
  | a :: as, hcall => by
    refine h.bind (hcall a List.mem_cons_self) fun b => ?_
    exact h.bind (mapItems fun a' ha => hcall a' (List.mem_cons_of_mem _ ha)) fun bs => h.pure _

theorem filterItems {call : ι → α → EvalM Value} : ∀ {as : List α}, (∀ a ∈ as, R fun i => call i a) →
    R fun i => filterItems (call i) as
  | [], _ => h.pure []
  | a :: as, hcall => by
    refine h.bind (hcall a List.mem_cons_self) fun v => h.ofExcept_bind fun keep _ => ?_
    exact h.bind (filterItems fun a' ha => hcall a' (List.mem_cons_of_mem _ ha)) fun kept => h.pure _

theorem foldItems {call : ι → Value → α → EvalM Value} : ∀ {as : List α} (acc : Value),
    (∀ acc, ∀ a ∈ as, R fun i => call i acc a) → R fun i => foldItems (call i) acc as
  | [], acc, _ => h.pure acc
  | a :: as, acc, hcall => by
    refine h.bind (hcall acc a List.mem_cons_self) fun acc' => ?_
    exact foldItems acc' fun acc a' ha => hcall acc a' (List.mem_cons_of_mem _ ha)

theorem lastValue {evalOne : ι → Expr → EvalM Value} : ∀ {es : List Expr} (last : Value),
    (∀ e ∈ es, R fun i => evalOne i e) → R fun i => lastValue (evalOne i) last es
  | [], last, _ => h.pure last
  | e :: es, _, hone => by
    refine h.bind (hone e List.mem_cons_self) fun v => ?_
    exact lastValue v fun e' he => hone e' (List.mem_cons_of_mem _ he)

/-! ### Activations -/

theorem run {call : ι → Function → List Value → EvalM Value} (b : Builtin) {args : List Value}
    (hcall : ∀ f args', b.Calls args f args' → R fun i => call i f args') : R fun i => b.run (call i) args := by
  cases b with
  | listFilter =>
    refine h.ofExcept_bind fun (items, f) hread => ?_
    obtain ⟨_, _, rfl, hlist, hf⟩ := ValueReading.two_of_read hread
    obtain rfl := Expected.eq_of_list_view hlist
    obtain rfl := Expected.eq_of_function_view hf
    exact h.bind (h.filterItems fun v hv => hcall f [v] (.listFilter hv)) fun kept => h.pure _
  | listMap =>
    refine h.ofExcept_bind fun (items, f) hread => ?_
    obtain ⟨_, _, rfl, hlist, hf⟩ := ValueReading.two_of_read hread
    obtain rfl := Expected.eq_of_list_view hlist
    obtain rfl := Expected.eq_of_function_view hf
    exact h.bind (h.mapItems fun v hv => hcall f [v] (.listMap hv)) fun vs => h.pure _
  | listReduce =>
    refine h.ofExcept_bind fun (acc, items, f) hread => ?_
    obtain ⟨_, _, _, rfl, -, hlist, hf⟩ := ValueReading.three_of_read hread
    obtain rfl := Expected.eq_of_list_view hlist
    obtain rfl := Expected.eq_of_function_view hf
    exact h.foldItems acc fun acc' v hv => hcall f [acc', v] (.listReduce hv)
  | mapFilter =>
    refine h.ofExcept_bind fun (entries, f) hread => ?_
    obtain ⟨_, _, rfl, hmap, hf⟩ := ValueReading.two_of_read hread
    obtain rfl := Expected.eq_of_map_view hmap
    obtain rfl := Expected.eq_of_function_view hf
    exact h.bind (h.filterItems fun (key, v) hv => hcall f [.string key, v] (.mapFilter hv)) fun kept => h.pure _
  | mapMap =>
    refine h.ofExcept_bind fun (entries, f) hread => ?_
    obtain ⟨_, _, rfl, hmap, hf⟩ := ValueReading.two_of_read hread
    obtain rfl := Expected.eq_of_map_view hmap
    obtain rfl := Expected.eq_of_function_view hf
    refine h.bind (h.mapItems fun (key, v) hv => ?_) fun es => h.pure _
    exact h.bind (hcall f [.string key, v] (.mapMap hv)) fun w => h.pure _
  | mapReduce =>
    refine h.ofExcept_bind fun (acc, entries, f) hread => ?_
    obtain ⟨_, _, _, rfl, -, hmap, hf⟩ := ValueReading.three_of_read hread
    obtain rfl := Expected.eq_of_map_view hmap
    obtain rfl := Expected.eq_of_function_view hf
    exact h.foldItems acc fun acc' (key, v) hv => hcall f [acc', .string key, v] (.mapReduce hv)
  | print => exact h.bind (h.uncut (EvalM.uncut_print _)) fun _ => h.pure _
  | list => exact h.pure _
  | _ => exact h.uncut (EvalM.uncut_ofExcept _)

theorem front {run : ι → Activation → EvalM Value} {F : FrameId} {head : Expr} {args : List Expr}
    (hhead : R fun i => run i (.expr F head)) (hargs : ∀ e ∈ args, R fun i => run i (.expr F e)) :
    R fun i => Activation.front (run i) F head args := by
  refine h.bind (h.uncut (EvalM.uncut_checkBound F head)) fun _ => ?_
  refine h.bind hhead fun v => h.ofExcept_bind fun f _ => ?_
  exact h.bind (h.mapItems hargs) fun values => h.pure _

/-- **What holds of the activations that one may start holds of it.** -/
theorem step {run : ι → Activation → EvalM Value} {a : Activation} (hrun : ∀ b, a.Starts b → R fun i => run i b) :
    R fun i => a.step (run i) := by
  cases a with
  | expr F e =>
    cases e with
    | ident name pos => exact h.uncut (EvalM.uncut_lookup F name)
    | operator op pos => exact h.bind (h.uncut EvalM.uncut_newMark) fun mark => h.pure _
    | fn params body pos => exact h.bind (h.uncut EvalM.uncut_newMark) fun mark => h.pure _
    | call items pos =>
      cases items with
      | nil => exact h.pure _
      | cons head args =>
        simp only [Activation.step_call]
        refine h.bind (h.front (hrun _ (.item List.mem_cons_self)) fun e he => ?_) fun r => hrun _ (.callee r.1 r.2)
        exact hrun _ (.item (List.mem_cons_of_mem _ he))
    | cond test yes no pos =>
      refine h.bind (hrun _ .test) fun v => ?_
      split
      · exact hrun _ .yes
      · exact hrun _ .no
      · exact h.uncut (EvalM.uncut_fail _)
    | define name namePos value pos =>
      refine h.bind (hrun _ .value) fun v => ?_
      exact h.bind (h.uncut (EvalM.uncut_define F name v)) fun _ => h.pure v
    | _ => exact h.pure _
  | call caller f args =>
    cases f with
    | builtin b => exact h.run b fun f args' hcalls => hrun _ (.callback hcalls)
    | operator op mark => exact h.uncut (EvalM.uncut_ofExcept _)
    | closure c =>
      refine h.bind (h.uncut (EvalM.uncut_enter c args)) fun F => ?_
      exact h.lastValue .nil fun e he => hrun _ (.body he)

end Versions

end MiniLisp
