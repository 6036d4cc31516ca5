import MiniLisp.Eval
import MiniLisp.Proofs.Store.Frames
/-!
# FrameLaw — what evaluation does to the store

Evaluation changes the store in two ways only: it binds a name in the frame it evaluates in, and it calls, with a new
frame.  So a relation of stores that holds of these holds of every evaluation, whether it ends with a value, with an
error or exhausted (`FrameLaw.eval`, `FrameLaw.apply`).  Two such relations make the law: only the frame of an
evaluation changes, in the names that it defines, and a frame whose call has returned is never changed again.
-/
namespace MiniLisp

open Builtin (mapItems filterItems foldItems)

/-! ## Names that an expression defines -/

namespace Expr

mutual

/-- The names of the `let` forms of an expression, apart from those inside an `fn`. -/
def lets : Expr → List String
  | .call items _ => letsAll items
  | .cond test yes no _ => lets test ++ lets yes ++ lets no
  | .define name _ value _ => name :: lets value
  | .ident _ _ | .number _ _ | .string _ _ | .bool _ _ | .nil _ | .operator _ _ | .fn _ _ _ => []

def letsAll : List Expr → List String
  | [] => []
  | e :: es => lets e ++ letsAll es

end

theorem lets_subset_letsAll : ∀ {es : List Expr} {e : Expr}, e ∈ es → e.lets ⊆ letsAll es
  | e' :: es, e, h => by
    rcases List.mem_cons.1 h with rfl | h
    · exact List.subset_append_left _ _
    · exact fun name hn => List.mem_append_right _ (lets_subset_letsAll h hn)

end Expr

/-! ## Computations and the store -/

namespace EvalM

variable {α β : Type}

/-- The machine after a computation, however it ends. -/
def after (x : EvalM α) (m : Machine) : Machine :=
  match x m with
  | .ok _ m' => m'
  | .error _ m' => m'

/-- However it ends, the computation takes a store to one that is related to it. -/
def Along (R : Store → Store → Prop) (x : EvalM α) : Prop := ∀ m, R m.store (x.after m).store

/-- The computation leaves the store as it is. -/
def Keeps (x : EvalM α) : Prop := ∀ m, (x.after m).store = m.store

theorem keeps_pure (a : α) : Keeps (pure a) := fun _ => rfl

theorem keeps_fail (e : Error) : Keeps (fail e : EvalM α) := fun _ => rfl

theorem keeps_ofExcept (r : Except Error α) : Keeps (ofExcept r) := by
  cases r with
  | ok a => exact keeps_pure a
  | error e => exact keeps_fail e

theorem keeps_newMark : Keeps newMark := fun _ => rfl

theorem keeps_print (text : String) : Keeps (print text) := fun _ => rfl

theorem keeps_lookup (F : FrameId) (name : String) : Keeps (lookup F name) := fun _ => rfl

theorem after_bind (x : EvalM α) (f : α → EvalM β) (m : Machine) :
    (x >>= f).after m = match x m with
      | .ok a m' => (f a).after m'
      | .error _ m' => m' := by
  unfold after
  show (match EStateM.bind x f m with | .ok _ m' => m' | .error _ m' => m') = _
  unfold EStateM.bind
  cases x m <;> rfl

theorem Keeps.bind {x : EvalM α} {f : α → EvalM β} (hx : Keeps x) (hf : ∀ a, Keeps (f a)) : Keeps (x >>= f) := by
  intro m
  have hm := hx m
  rw [after_bind]
  unfold after at hm
  cases h : x m with
  | ok a m' =>
    rw [h] at hm
    rw [hf a m', hm]
  | error e m' =>
    rw [h] at hm
    exact hm

theorem keeps_checkBound (F : FrameId) (e : Expr) : Keeps (checkBound F e) := by
  cases e with
  | ident name pos =>
    have hfind : Keeps (find? F name) := fun _ => rfl
    refine hfind.bind fun found => ?_
    cases found with
    | none => exact keeps_fail _
    | some _ => exact keeps_pure _
  | _ => exact keeps_pure _

end EvalM

open EvalM (Along Keeps)

/-! ## The principle -/

/-- **A relation of stores that evaluation respects.**  It is indexed by the frame that is evaluated in, if there is
one, and by names that may be defined there. -/
structure FrameLaw (R : Option FrameId → List String → Store → Store → Prop) : Prop where
  refl : ∀ {top names s}, R top names s s
  trans : ∀ {top names s s' s''}, R top names s s' → R top names s' s'' → R top names s s''
  bind : ∀ {F names s name v}, name ∈ names → R (some F) names s (s.bind F name v)
  call : ∀ {top names inner s s' outer bindings},
    R (some s.frames.size) inner (s.child outer bindings).2 s' → R top names s s'

namespace FrameLaw

variable {R : Option FrameId → List String → Store → Store → Prop} {top : Option FrameId} {names : List String}
  {α β : Type}

theorem keeps (L : FrameLaw R) {x : EvalM α} (h : Keeps x) : Along (R top names) x := by
  intro m
  rw [h m]
  exact L.refl

theorem seq (L : FrameLaw R) {x : EvalM α} {f : α → EvalM β} (hx : Along (R top names) x)
    (hf : ∀ a, Along (R top names) (f a)) : Along (R top names) (x >>= f) := by
  intro m
  have hm := hx m
  rw [EvalM.after_bind]
  unfold EvalM.after at hm
  cases h : x m with
  | ok a m' =>
    rw [h] at hm
    exact L.trans hm (hf a m')
  | error e m' =>
    rw [h] at hm
    exact hm

/-! ### Elements one by one -/

theorem mapItems (L : FrameLaw R) {call : α → EvalM β} : ∀ {as : List α}, (∀ a ∈ as, Along (R top names) (call a)) →
    Along (R top names) (mapItems call as)
  | [], _ => L.keeps (EvalM.keeps_pure [])
  | a :: as, h => by
    refine L.seq (h a List.mem_cons_self) fun b => ?_
    refine L.seq (L.mapItems fun a' ha => h a' (List.mem_cons_of_mem _ ha)) fun bs => ?_
    exact L.keeps (EvalM.keeps_pure _)

theorem filterItems (L : FrameLaw R) {call : α → EvalM Value} (h : ∀ a, Along (R top names) (call a)) :
    ∀ as : List α, Along (R top names) (filterItems call as)
  | [] => L.keeps (EvalM.keeps_pure [])
  | a :: as => by
    refine L.seq (h a) fun v => L.seq (L.keeps (EvalM.keeps_ofExcept _)) fun keep => ?_
    exact L.seq (L.filterItems h as) fun kept => L.keeps (EvalM.keeps_pure _)

theorem foldItems (L : FrameLaw R) {call : Value → α → EvalM Value} (h : ∀ acc a, Along (R top names) (call acc a)) :
    ∀ (as : List α) (acc : Value), Along (R top names) (foldItems call acc as)
  | [], acc => L.keeps (EvalM.keeps_pure acc)
  | a :: as, acc => L.seq (h acc a) fun acc' => L.foldItems h as acc'

theorem lastValue (L : FrameLaw R) {evalOne : Expr → EvalM Value} : ∀ {es : List Expr} (last : Value),
    (∀ e ∈ es, Along (R top names) (evalOne e)) → Along (R top names) (lastValue evalOne last es)
  | [], last, _ => L.keeps (EvalM.keeps_pure last)
  | e :: es, _, h => by
    refine L.seq (h e List.mem_cons_self) fun v => ?_
    exact L.lastValue v fun e' he => h e' (List.mem_cons_of_mem _ he)

/-! ### Bindings and calls -/

theorem define (L : FrameLaw R) {F : FrameId} {name : String} (hn : name ∈ names) (v : Value) :
    Along (R (some F) names) (EvalM.define F name v) := by
  intro m
  unfold EvalM.after
  rw [EvalM.define_eq]
  unfold Store.define
  by_cases h : m.store.readOnly F = true
  · rw [if_pos h]
    exact L.refl
  · rw [if_neg h]
    exact L.bind hn

/-- **A closure runs in a new frame.** -/
theorem enter (L : FrameLaw R) {inner : List String} {c : Closure} {args : List Value} {body : FrameId → EvalM Value}
    (h : ∀ F, Along (R (some F) inner) (body F)) : Along (R top names) (enter c args >>= body) := by
  unfold MiniLisp.enter
  by_cases hlength : args.length = c.params.length
  · rw [if_pos hlength]
    intro m
    rw [EvalM.after_bind]
    exact L.call (h m.store.frames.size
      { m with store := (m.store.child c.frame (Entries.ofPairs (c.params.zip args))).2 })
  · rw [if_neg hlength]
    intro m
    exact L.refl

/-- A built-in does no more than the calls that it makes. -/
theorem run (L : FrameLaw R) {call : Function → List Value → EvalM Value}
    (h : ∀ f args, Along (R top names) (call f args)) (b : Builtin) (args : List Value) :
    Along (R top names) (b.run call args) := by
  cases b with
  | listFilter =>
    refine L.seq (L.keeps (EvalM.keeps_ofExcept _)) fun (items, f) => ?_
    exact L.seq (L.filterItems (fun v => h f [v]) items) fun kept => L.keeps (EvalM.keeps_pure _)
  | listMap =>
    refine L.seq (L.keeps (EvalM.keeps_ofExcept _)) fun (items, f) => ?_
    exact L.seq (L.mapItems fun v _ => h f [v]) fun answers => L.keeps (EvalM.keeps_pure _)
  | listReduce =>
    refine L.seq (L.keeps (EvalM.keeps_ofExcept _)) fun (acc, items, f) => ?_
    exact L.foldItems (fun acc v => h f [acc, v]) items acc
  | mapFilter =>
    refine L.seq (L.keeps (EvalM.keeps_ofExcept _)) fun (entries, f) => ?_
    exact L.seq (L.filterItems (fun (key, v) => h f [.string key, v]) entries) fun kept =>
      L.keeps (EvalM.keeps_pure _)
  | mapMap =>
    refine L.seq (L.keeps (EvalM.keeps_ofExcept _)) fun (entries, f) => ?_
    refine L.seq (L.mapItems fun (key, v) _ => ?_) fun answers => L.keeps (EvalM.keeps_pure _)
    exact L.seq (h f [.string key, v]) fun answer => L.keeps (EvalM.keeps_pure _)
  | mapReduce =>
    refine L.seq (L.keeps (EvalM.keeps_ofExcept _)) fun (acc, entries, f) => ?_
    exact L.foldItems (fun acc (key, v) => h f [acc, .string key, v]) entries acc
  | print => exact L.seq (L.keeps (EvalM.keeps_print _)) fun _ => L.keeps (EvalM.keeps_pure _)
  | list => exact L.keeps (EvalM.keeps_pure _)
  | _ => exact L.keeps (EvalM.keeps_ofExcept _)

/-! ### Evaluation -/

/-- **Evaluation respects the relation**, and so does every application, whatever frame it is made from. -/
theorem eval_apply (L : FrameLaw R) : ∀ depth : Nat,
    (∀ {F : FrameId} {e : Expr} {names : List String}, e.lets ⊆ names → Along (R (some F) names) (eval depth F e)) ∧
    ∀ {top : Option FrameId} {names : List String} (caller : FrameId) (f : Function) (args : List Value),
      Along (R top names) (apply depth caller f args)
  | 0 => by
    refine ⟨fun _ _ => ?_, fun _ _ _ _ => ?_⟩
    · rw [eval]
      exact L.refl
    · rw [apply]
      exact L.refl
  | depth + 1 => by
    obtain ⟨ihe, iha⟩ := L.eval_apply depth
    refine ⟨fun {F e names} hlets => ?_, fun {top names} caller f args => ?_⟩
    · cases e with
      | ident name pos =>
        rw [eval]
        exact L.keeps (EvalM.keeps_lookup F name)
      | operator op pos =>
        rw [eval]
        exact L.seq (L.keeps EvalM.keeps_newMark) fun mark => L.keeps (EvalM.keeps_pure _)
      | fn params body pos =>
        rw [eval]
        exact L.seq (L.keeps EvalM.keeps_newMark) fun mark => L.keeps (EvalM.keeps_pure _)
      | call items pos =>
        rw [Expr.lets] at hlets
        cases items with
        | nil =>
          rw [eval]
          exact L.keeps (EvalM.keeps_pure _)
        | cons head args =>
          have hitem : ∀ e ∈ head :: args, Along (R (some F) names) (eval depth F e) :=
            fun e he => ihe fun name hn => hlets (Expr.lets_subset_letsAll he hn)
          rw [eval]
          refine L.seq (L.keeps (EvalM.keeps_checkBound F head)) fun _ => ?_
          refine L.seq (hitem head List.mem_cons_self) fun v => ?_
          refine L.seq (L.keeps (EvalM.keeps_ofExcept _)) fun f => ?_
          refine L.seq (L.mapItems fun e he => hitem e (List.mem_cons_of_mem _ he)) fun values => ?_
          exact iha F f values
      | cond test yes no pos =>
        rw [Expr.lets, List.append_subset, List.append_subset] at hlets
        obtain ⟨⟨htest, hyes⟩, hno⟩ := hlets
        rw [eval]
        refine L.seq (ihe htest) fun v => ?_
        split
        · exact ihe hyes
        · exact ihe hno
        · exact L.keeps (EvalM.keeps_fail _)
      | define name namePos value pos =>
        rw [Expr.lets, List.cons_subset] at hlets
        rw [eval]
        refine L.seq (ihe hlets.2) fun v => ?_
        exact L.seq (L.define hlets.1 v) fun _ => L.keeps (EvalM.keeps_pure v)
      | _ =>
        rw [eval]
        exact L.keeps (EvalM.keeps_pure _)
    · cases f with
      | builtin b =>
        rw [apply]
        by_cases hfits : b.fits depth args = true
        · rw [if_pos hfits]
          exact L.run (iha caller) b args
        · rw [if_neg hfits]
          exact fun _ => L.refl
      | operator op mark =>
        rw [apply]
        exact L.keeps (EvalM.keeps_ofExcept _)
      | closure c =>
        rw [apply]
        -- What the body defines is bound in the new frame, so the names of the caller play no part.
        exact L.enter fun F => L.lastValue .nil fun e he => ihe (Expr.lets_subset_letsAll he)

theorem eval (L : FrameLaw R) (depth : Nat) (F : FrameId) (e : Expr) (m : Machine) :
    R (some F) e.lets m.store ((MiniLisp.eval depth F e).after m).store :=
  (L.eval_apply depth).1 (List.Subset.refl _) m

theorem apply (L : FrameLaw R) (depth : Nat) (caller : FrameId) (f : Function) (args : List Value) (m : Machine) :
    R none [] m.store ((MiniLisp.apply depth caller f args).after m).store :=
  (L.eval_apply depth).2 caller f args m

end FrameLaw

/-! ## The law -/

namespace Store

/-- An evaluation makes bindings in its own frame only, and of the names that it defines. -/
theorem framed_law : FrameLaw Framed := ⟨.refl, .trans, .bind, .call⟩

/-- An evaluation is a history of the store, in front of whatever else is running. -/
theorem evolves_law : FrameLaw fun top _ s s' => ∀ st, Evolves (top.toList ++ st) s (top.toList ++ st) s' where
  refl := fun _ => .refl
  trans := fun h h' st => (h st).trans (h' st)
  bind := fun _ _ => .bind _ _ .refl
  call := fun h _ => .leave (Evolves.trans (.enter _ _ .refl) (h _))

end Store

/-- **Evaluation writes only the current frame.**  However an evaluation in the frame `F` ends, the other frames stay
as they are, every frame keeps its outer frames, and in `F` only names of `let` forms outside an `fn` are bound, new
ones last.  An application changes no frame that existed before.  Both are histories of the store in which only the
frames that were running run on, and in every history that begins when a call has returned the frames that were
created by it stay as they are. -/
theorem eval_writes_current_frame :
    (∀ (depth : Nat) (F : FrameId) (e : Expr) (m : Machine), F < m.store.frames.size →
      (∀ G < m.store.frames.size, G ≠ F → ((eval depth F e).after m).store.frame? G = m.store.frame? G) ∧
      (∀ G < m.store.frames.size, ((eval depth F e).after m).store.outer G = m.store.outer G) ∧
      (∀ name ∉ e.lets,
        (((eval depth F e).after m).store.bindings F).get? name = (m.store.bindings F).get? name) ∧
      ∃ new, (((eval depth F e).after m).store.bindings F).keys = (m.store.bindings F).keys ++ new ∧
        ∀ name ∈ new, name ∈ e.lets) ∧
    (∀ (depth : Nat) (caller : FrameId) (f : Function) (args : List Value) (m : Machine),
      ∀ G < m.store.frames.size, ((apply depth caller f args).after m).store.frame? G = m.store.frame? G) ∧
    (∀ (depth : Nat) (F : FrameId) (e : Expr) (m : Machine) (st : List FrameId),
      Store.Evolves (F :: st) m.store (F :: st) ((eval depth F e).after m).store) ∧
    (∀ (depth : Nat) (caller : FrameId) (f : Function) (args : List Value) (m : Machine) (st : List FrameId),
      Store.Evolves st m.store st ((apply depth caller f args).after m).store) ∧
    ∀ (depth : Nat) (caller : FrameId) (f : Function) (args : List Value) (m m' : Machine) (v : Value),
      apply depth caller f args m = .ok v m' →
      ∀ (st st' : List FrameId) (s : Store), (∀ F ∈ st, F < m.store.frames.size) → Store.Evolves st m'.store st' s →
      ∀ G, m.store.frames.size ≤ G → G < m'.store.frames.size → s.frame? G = m'.store.frame? G := by
  refine ⟨fun depth F e m hF => ?_, fun depth caller f args m G hG => ?_, fun depth F e m st => ?_,
    fun depth caller f args m st => ?_, fun depth caller f args m m' v _ st st' s hst h G hle hlt => ?_⟩
  · have h := Store.framed_law.eval depth F e m
    exact ⟨fun G hG hne => h.frame?_eq G hG fun e => hne (Option.some.inj e), h.outer_eq, h.get?_eq F rfl hF,
      h.keys_eq F rfl hF⟩
  · exact (Store.framed_law.apply depth caller f args m).frame?_eq G hG nofun
  · exact Store.evolves_law.eval depth F e m st
  · exact Store.evolves_law.apply depth caller f args m st
  · exact (h.frame?_eq hlt fun hG => Nat.not_lt.2 hle (hst G hG)).2.2

/-- What was bound before the depth ran out stays bound, and nothing else is. -/
theorem eval_exhausted_keys :
    0 < (⟨⟨#[⟨[], [], false⟩]⟩, #[], 0⟩ : Machine).store.frames.size ∧
    ∃ new, (((eval 3 0 (.cond (.define "x" {} (.bool true {}) {}) (.define "y" {} (.define "z" {} (.nil {}) {}) {})
        (.nil {}) {})).after ⟨⟨#[⟨[], [], false⟩]⟩, #[], 0⟩).store.bindings 0).keys = [] ++ new ∧
      ∀ name ∈ new, name ∈ ["x", "y", "z"] :=
  have h : 0 < (⟨⟨#[⟨[], [], false⟩]⟩, #[], 0⟩ : Machine).store.frames.size := by decide
  ⟨h, (eval_writes_current_frame.1 3 0 _ _ h).2.2.2⟩

end MiniLisp
