import MiniLisp.Proofs.Builtin.Parts
import MiniLisp.Proofs.Store.Bound
import MiniLisp.Proofs.Value.Same
/-!
# Identity — functions are told apart

A function is made with a new mark, and all that is done with it afterwards is to bind it, to hand it on and to put it
into other values.  So of the functions that there are, no two have one identity.  What a computation keeps is said of
the functions that there are when it starts; there may be more of them when it ends (`EvalM.Apart`).  A step of
evaluation keeps them apart if the activations inside it do (`Activation.apart_step`), and so does a run
(`Activation.apart_run`).
-/
namespace MiniLisp

open Builtin (mapItems)

/-- The mark that a function was made with. -/
def Function.Identity.mark? : Identity → Option Nat
  | .builtin _ => none
  | .operator mark | .closure mark => some mark

/-- **A machine tells the functions `K` apart**: no two of them have one identity, and the next mark is none of theirs.
All that is bound is made of them. -/
structure Machine.Tells (m : Machine) (K : Function → Prop) : Prop where
  builtin : ∀ b, K (.builtin b)
  apart : ∀ f g, K f → K g → f.identity = g.identity → f = g
  below : ∀ f mark, K f → f.identity.mark? = some mark → mark < m.nextMark
  bound : m.store.Everywhere (Value.Among K)

variable {K K' : Function → Prop} {v : Value} {vs args : List Value}

theorem Value.Among.mono (hK : ∀ f, K f → K' f) (h : v.Among K) : v.Among K' := Proper.mono (fun _ => id) hK h

namespace Machine

variable {m : Machine} {F : FrameId} {es : Entries Value} {f : Function}

/-! ## What evaluation does -/

theorem tells_initial : initial.Tells fun f => ∃ b, f = .builtin b where
  builtin b := ⟨b, rfl⟩
  apart := by
    rintro _ _ ⟨a, rfl⟩ ⟨b, rfl⟩ hab
    injection hab with hab
    rw [hab]
  below := by
    rintro _ mark ⟨b, rfl⟩ hmark
    cases hmark
  bound := Store.everywhere_initial fun b => .function ⟨b, rfl⟩

theorem Tells.bind (h : m.Tells K) (hv : v.Among K) (name : String) : (m.bind F name v).Tells K :=
  ⟨h.builtin, h.apart, h.below, h.bound.bind hv⟩

theorem Tells.child (h : m.Tells K) (hes : ∀ v ∈ es.values, v.Among K) : (m.child F es).Tells K :=
  ⟨h.builtin, h.apart, h.below, h.bound.child hes⟩

theorem Tells.print (h : m.Tells K) (text : String) : (m.print text).Tells K :=
  ⟨h.builtin, h.apart, h.below, h.bound⟩

/-- **A function with a new mark is told apart from all others.** -/
theorem Tells.marked (h : m.Tells K) (hf : f.identity.mark? = some m.nextMark) :
    m.marked.Tells fun g => K g ∨ g = f where
  builtin b := .inl (h.builtin b)
  apart := by
    have hnew : ∀ g, K g → g.identity ≠ f.identity := fun g hg heq =>
      Nat.lt_irrefl _ (h.below g m.nextMark hg (by rw [heq, hf]))
    rintro g g' (hg | rfl) (hg' | rfl) heq
    · exact h.apart g g' hg hg' heq
    · exact absurd heq (hnew g hg)
    · exact absurd heq.symm (hnew g' hg')
    · rfl
  below := by
    rintro g mark (hg | rfl) hmark
    · exact Nat.lt_succ_of_lt (h.below g mark hg hmark)
    · rw [hf] at hmark
      exact Option.some.inj hmark ▸ Nat.lt_succ_self _
  bound := h.bound.imp fun _ hv => hv.mono fun _ => .inl

end Machine

/-! ## Computations -/

namespace EvalM

variable {α β : Type} {Q : (Function → Prop) → α → Prop} {R : (Function → Prop) → β → Prop} {x : EvalM α}

/-- **A computation keeps functions apart**: if it starts in a machine that tells `K` apart, it ends in one that tells
apart all of `K` and what it made, among which `Q` holds of its answer. -/
def Apart (K : Function → Prop) (Q : (Function → Prop) → α → Prop) (x : EvalM α) : Prop :=
  ∀ m : Machine, m.Tells K → ∃ K', (∀ f, K f → K' f) ∧
    match x m with
    | .ok a m' => m'.Tells K' ∧ Q K' a
    | .error _ m' => m'.Tells K'

theorem apart_pure {a : α} (h : Q K a) : Apart K Q (pure a) := fun _ hm => ⟨K, fun _ => id, hm, h⟩

theorem apart_fail (e : Error) : Apart K Q (fail e) := fun _ hm => ⟨K, fun _ => id, hm⟩

theorem apart_exhausted : Apart K Q (throw .exhausted) := fun _ hm => ⟨K, fun _ => id, hm⟩

theorem apart_ofExcept {x : Except Error α} (h : ∀ a, x = .ok a → Q K a) : Apart K Q (ofExcept x) := by
  cases x with
  | ok a => exact apart_pure (h a rfl)
  | error e => exact apart_fail e

theorem Apart.bind {f : α → EvalM β} (h : Apart K Q x)
    (hf : ∀ K' a, (∀ f, K f → K' f) → Q K' a → Apart K' R (f a)) : Apart K R (x >>= f) := by
  intro m hm
  obtain ⟨K', hK, hx⟩ := h m hm
  rw [bind_apply]
  cases hend : x m with
  | ok a m' =>
    rw [hend] at hx
    obtain ⟨hm', ha⟩ := hx
    obtain ⟨K'', hK', hend'⟩ := hf K' a hK ha m' hm'
    exact ⟨K'', fun f hf => hK' f (hK f hf), hend'⟩
  | error halt m' =>
    rw [hend] at hx
    exact ⟨K', hK, hx⟩

theorem apart_create (make : Nat → Function) (h : ∀ mark, (make mark).identity.mark? = some mark) :
    Apart K Value.Among (do return .function (make (← newMark))) := fun _ hm =>
  ⟨_, fun _ => .inl, hm.marked (h _), .function (.inr rfl)⟩

theorem apart_lookup (F : FrameId) (name : String) : Apart K Value.Among (lookup F name) := fun _ hm =>
  ⟨K, fun _ => id, hm, hm.bound.lookup .nil F name⟩

theorem apart_print (text : String) : Apart K (fun _ _ => True) (print text) := fun _ hm =>
  ⟨K, fun _ => id, hm.print text, trivial⟩

theorem apart_define (hv : v.Among K) (F : FrameId) (name : String) : Apart K (fun _ _ => True) (define F name v) := by
  intro m hm
  refine ⟨K, fun _ => id, ?_⟩
  rw [define_eq, Store.define]
  cases m.store.readOnly F with
  | true => exact hm
  | false => exact ⟨hm.bind hv name, trivial⟩

theorem apart_checkBound (F : FrameId) (e : Expr) : Apart K (fun _ _ => True) (checkBound F e) := by
  intro m hm
  refine ⟨K, fun _ => id, ?_⟩
  cases e with
  | ident name pos =>
    rw [checkBound_ident]
    cases (m.store.find? F name).isSome with
    | true => exact ⟨hm, trivial⟩
    | false => exact hm
  | _ => exact ⟨hm, trivial⟩

theorem apart_enter (hargs : ∀ v ∈ args, v.Among K) (c : Closure) : Apart K (fun _ _ => True) (enter c args) := by
  unfold enter
  split
  · refine fun m hm => ⟨K, fun _ => id, hm.child (Entries.forall_values_ofPairs fun v hv => ?_), trivial⟩
    obtain ⟨pair, hpair, rfl⟩ := List.mem_map.1 hv
    exact hargs _ (List.of_mem_zip hpair).2
  · exact apart_fail _

theorem apart_mapItems {call : α → EvalM Value} (hcall : ∀ K a, Apart K Value.Among (call a)) :
    ∀ (as : List α) (K : Function → Prop), Apart K (fun K vs => ∀ v ∈ vs, v.Among K) (mapItems call as)
  | [], _ => apart_pure nofun
  | a :: as, K => by
    refine (hcall K a).bind fun K₁ v _ hv => ?_
    refine (apart_mapItems hcall as K₁).bind fun K₂ vs hK hvs => ?_
    exact apart_pure (List.forall_mem_cons.2 ⟨hv.mono hK, hvs⟩)

theorem apart_lastValue {evalOne : Expr → EvalM Value} (hone : ∀ K e, Apart K Value.Among (evalOne e)) :
    ∀ (es : List Expr) {K : Function → Prop} {last : Value}, last.Among K →
      Apart K Value.Among (lastValue evalOne last es)
  | [], _, _, hlast => apart_pure hlast
  | e :: es, K, _, _ => (hone K e).bind fun _ _ _ hv => apart_lastValue hone es hv

end EvalM

open EvalM (Apart apart_pure apart_fail apart_exhausted apart_ofExcept apart_create apart_lookup apart_print
  apart_define apart_checkBound apart_enter apart_mapItems apart_lastValue)

/-! ## Built-ins -/

namespace Pass

variable {p : Pass} {call : List Value → EvalM Value}

theorem apart_answers (hcall : ∀ K args, (∀ v ∈ args, Value.Among K v) → Apart K Value.Among (call args)) :
    ∀ {elements : List (List Value)} {before : List Value} {K : Function → Prop},
      (∀ K', (∀ f, K f → K' f) → p.Within (Value.Among K')) → (∀ element ∈ elements, element ∈ p.elements) →
      (∀ v ∈ before, v.Among K) → Apart K (fun K vs => ∀ v ∈ vs, v.Among K) (p.answers call before elements)
  | [], _, _, _, _, _ => apart_pure nofun
  | element :: elements, before, K, hp, helements, hbefore => by
    have hwithin := hp K fun _ => id
    have helement := hwithin.elements element (helements element List.mem_cons_self)
    refine (hcall K _ (List.forall_mem_append.2 ⟨hwithin.given before hbefore, helement⟩)).bind fun K₁ v hK₁ hv => ?_
    refine (apart_ofExcept (Q := fun _ _ => True) fun _ _ => trivial).bind fun K₂ _ hK₂ _ => ?_
    have hbefore' : ∀ w ∈ before ++ [v], w.Among K₂ := by
      refine List.forall_mem_append.2 ⟨fun w hw => ((hbefore w hw).mono hK₁).mono hK₂, ?_⟩
      exact List.forall_mem_singleton.2 (hv.mono hK₂)
    refine (apart_answers hcall (fun K' hK' => hp K' fun f hf => hK' f (hK₂ f (hK₁ f hf)))
      (fun e he => helements e (List.mem_cons_of_mem _ he)) hbefore').bind fun K₃ vs hK₃ hvs => ?_
    exact apart_pure (List.forall_mem_cons.2 ⟨(hv.mono hK₂).mono hK₃, hvs⟩)

theorem apart_run (hcall : ∀ K args, (∀ v ∈ args, Value.Among K v) → Apart K Value.Among (call args))
    (hp : ∀ K', (∀ f, K f → K' f) → p.Within (Value.Among K')) : Apart K Value.Among (p.run call) := by
  have hanswers := apart_answers hcall hp (fun _ h => h) (List.forall_mem_nil _)
  refine hanswers.bind fun K' answers hK hanswers => ?_
  exact apart_pure ((hp K' hK).result answers hanswers)

end Pass

namespace Builtin

variable {call : Function → List Value → EvalM Value}

theorem apart_higherOrder {b : Builtin} (hb : b ∈ higherOrder)
    (hcall : ∀ K f args, (∀ v ∈ args, Value.Among K v) → Apart K Value.Among (call f args))
    (hargs : ∀ v ∈ args, v.Among K) : Apart K Value.Among (b.run call args) := by
  cases hpass : b.pass? args with
  | none =>
    obtain ⟨index, problem, hfails⟩ := run_of_none hb hpass
    refine fun m hm => ⟨K, fun _ => id, ?_⟩
    rw [hfails]
    exact hm
  | some fp =>
    obtain ⟨f, p⟩ := fp
    rw [run_pass hpass]
    exact Pass.apart_run (fun K' => hcall K' f) fun K' hK => within_of_pass? hpass fun v hv => (hargs v hv).mono hK

theorem apart_run (b : Builtin)
    (hcall : ∀ K f args, (∀ v ∈ args, Value.Among K v) → Apart K Value.Among (call f args))
    (hargs : ∀ v ∈ args, v.Among K) : Apart K Value.Among (b.run call args) := by
  cases b with
  | listFilter | listMap | listReduce | mapFilter | mapMap | mapReduce =>
    exact apart_higherOrder (by decide) hcall hargs
  | concat => exact apart_ofExcept fun _ => concatenation_among
  | cons => exact apart_ofExcept fun _ => pairOf_among hargs
  | car => exact apart_ofExcept fun _ => leftOf_among hargs
  | cdr => exact apart_ofExcept fun _ => rightOf_among hargs
  | and => exact apart_ofExcept fun _ => conjunction_among
  | or => exact apart_ofExcept fun _ => disjunction_among
  | not => exact apart_ofExcept fun _ => negation_among
  | strEq => exact apart_ofExcept fun _ => stringEquality_among
  | list => exact apart_pure (.list hargs)
  | listGet => exact apart_ofExcept fun _ => element_among hargs
  | len => exact apart_ofExcept fun _ => length_among
  | map => exact apart_ofExcept fun _ => mapOf_among hargs
  | mapGet => exact apart_ofExcept fun _ => valueUnder_among hargs
  | mapKeys => exact apart_ofExcept fun _ => keysOf_among
  | mapValues => exact apart_ofExcept fun _ => valuesOf_among hargs
  | print => exact (apart_print _).bind fun _ _ _ _ => apart_pure .nil

end Builtin

/-! ## Evaluation -/

namespace Activation

/-- An activation on values with functions among `K`. -/
def Among (K : Function → Prop) : Activation → Prop
  | .expr _ _ => True
  | .call _ _ args => ∀ v ∈ args, v.Among K

/-- **A step of evaluation keeps functions apart**, if the activations inside it do. -/
theorem apart_step {run : Activation → EvalM Value} (hrun : ∀ K b, Among K b → Apart K Value.Among (run b))
    {a : Activation} (ha : a.Among K) : Apart K Value.Among (a.step run) := by
  have hexpr : ∀ F K e, Apart K Value.Among (run (.expr F e)) := fun F K e => hrun K (.expr F e) trivial
  cases a with
  | expr F e =>
    cases e with
    | number x pos => exact apart_pure (.number trivial)
    | string text pos => exact apart_pure (.string text)
    | bool b pos => exact apart_pure (.bool b)
    | nil pos => exact apart_pure .nil
    | operator op pos => exact apart_create (.operator op) fun _ => rfl
    | fn params body pos => exact apart_create (fun mark => .closure ⟨mark, F, params, body, pos⟩) fun _ => rfl
    | ident name pos => exact apart_lookup F name
    | call items pos =>
      cases items with
      | nil => exact apart_pure .nil
      | cons head args =>
        refine (apart_checkBound F head).bind fun K₁ _ _ _ => (hexpr F K₁ head).bind fun K₂ _ _ _ => ?_
        refine (apart_ofExcept (Q := fun _ _ => True) fun _ _ => trivial).bind fun K₃ f _ _ => ?_
        exact (apart_mapItems (hexpr F) args K₃).bind fun K₄ values _ hvalues => hrun K₄ (.call F f values) hvalues
    | cond test yes no pos =>
      refine (hexpr F K test).bind fun K' v _ _ => ?_
      split
      · exact hexpr F K' yes
      · exact hexpr F K' no
      · exact apart_fail _
    | define name namePos value pos =>
      refine (hexpr F K value).bind fun K₁ v _ hv => ?_
      exact (apart_define hv F name).bind fun K₂ _ hK _ => apart_pure (hv.mono hK)
  | call caller f args =>
    cases f with
    | builtin b => exact b.apart_run (fun K f args hargs => hrun K (.call caller f args) hargs) ha
    | operator op mark => exact apart_ofExcept fun _ => Operator.apply_among
    | closure c => exact (apart_enter ha c).bind fun _ F _ _ => apart_lastValue (hexpr F) c.body .nil

/-- **Evaluation keeps functions apart.** -/
theorem apart_run : ∀ (depth : Nat) (K : Function → Prop) (a : Activation), a.Among K →
    Apart K Value.Among (run depth a)
  | 0, _, a, _ => run_zero a ▸ apart_exhausted
  | depth + 1, K, a, ha => by
    rw [run_succ]
    split
    · exact apart_step (apart_run depth) ha
    · exact apart_exhausted

end Activation

end MiniLisp
