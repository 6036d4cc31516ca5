import MiniLisp.Proofs.Builtin.Agree
import MiniLisp.Proofs.Eval.Activation
/-!
# Lockstep — two evaluations side by side

A `Lockstep` says what is related in two machines: frames, functions, code, errors.  If the parts of an evaluation keep
it (`Lockstep.Lawful`), evaluations that start related end related: with values that agree, or with related errors, or
both out of depth (`Lawful.run`).  Frames and functions are related **as far as the first machine has come**, so what
is related may grow while evaluation goes on.

A property of one machine is the case in which both machines are the same.
-/
namespace MiniLisp

open Builtin (mapItems filterItems foldItems)

/-! ## One layer at a time -/

/-- Expressions with the same outermost form, whose parts are related.  The body of an `fn` form has a relation of its
own, since it runs in another frame. -/
inductive Expr.Layer (text : String → Prop) (place : Position → Position → Prop) (part inner : Expr → Expr → Prop) :
    Expr → Expr → Prop
  | ident {name : String} {p q : Position} : place p q → Layer text place part inner (.ident name p) (.ident name q)
  | number {x : Float} {p q : Position} : place p q → Layer text place part inner (.number x p) (.number x q)
  | string {t : String} {p q : Position} : text t → place p q → Layer text place part inner (.string t p) (.string t q)
  | bool {b : Bool} {p q : Position} : place p q → Layer text place part inner (.bool b p) (.bool b q)
  | nil {p q : Position} : place p q → Layer text place part inner (.nil p) (.nil q)
  | operator {op : Operator} {p q : Position} : place p q →
      Layer text place part inner (.operator op p) (.operator op q)
  | call {items items' : List Expr} {p q : Position} : List.Forall₂ part items items' → place p q →
      Layer text place part inner (.call items p) (.call items' q)
  | cond {test test' yes yes' no no' : Expr} {p q : Position} : part test test' → part yes yes' → part no no' →
      place p q → Layer text place part inner (.cond test yes no p) (.cond test' yes' no' q)
  | fn {params : List String} {body body' : List Expr} {p q : Position} : List.Forall₂ inner body body' → place p q →
      Layer text place part inner (.fn params body p) (.fn params body' q)
  | define {name : String} {np nq : Position} {value value' : Expr} {p q : Position} : part value value' →
      place p q → Layer text place part inner (.define name np value p) (.define name nq value' q)

/-- Functions of one kind.  Closures that were created in related frames have related bodies. -/
inductive Function.Layer {ι : Type} (place : ι → Position → Position → Prop) (frame : ι → FrameId → FrameId → Prop)
    (body : ι → Expr → Expr → Prop) : Function → Function → Prop
  | builtin (b : Builtin) : Layer place frame body (.builtin b) (.builtin b)
  | operator (op : Operator) (mark mark' : Nat) : Layer place frame body (.operator op mark) (.operator op mark')
  | closure {c d : Closure} (i : ι) : frame i c.frame d.frame → c.params = d.params →
      List.Forall₂ (body i) c.body d.body → place i c.pos d.pos → Layer place frame body (.closure c) (.closure d)

theorem Expr.Layer.pos {text : String → Prop} {place : Position → Position → Prop} {part inner : Expr → Expr → Prop}
    {e e' : Expr} (h : e.Layer text place part inner e') : place e.pos e'.pos := by
  cases h <;> assumption

/-- Expressions that stand in related places, and are the same name or are no names. -/
structure Expr.Fronts (place : Position → Position → Prop) (e e' : Expr) : Prop where
  pos : place e.pos e'.pos
  ident : ∀ {name p}, e = .ident name p → ∃ q, e' = .ident name q
  ident' : ∀ {name q}, e' = .ident name q → ∃ p, e = .ident name p

theorem Expr.Layer.fronts {text : String → Prop} {place : Position → Position → Prop} {part inner : Expr → Expr → Prop}
    {e e' : Expr} (h : e.Layer text place part inner e') : e.Fronts place e' := by
  refine ⟨h.pos, ?_, ?_⟩
  · rintro name p rfl
    cases h
    exact ⟨_, rfl⟩
  · rintro name q rfl
    cases h
    exact ⟨_, rfl⟩

theorem Expr.Layer.refl {text : String → Prop} {place : Position → Position → Prop} {part inner : Expr → Expr → Prop}
    (htext : ∀ t, text t) (hplace : ∀ p, place p p) (hpart : ∀ e, part e e) (hinner : ∀ e, inner e e) (e : Expr) :
    e.Layer text place part inner e := by
  cases e with
  | ident name p => exact .ident (hplace p)
  | number x p => exact .number (hplace p)
  | string t p => exact .string (htext t) (hplace p)
  | bool b p => exact .bool (hplace p)
  | nil p => exact .nil (hplace p)
  | operator op p => exact .operator (hplace p)
  | call items p => exact .call (List.forall₂_same.2 fun e _ => hpart e) (hplace p)
  | cond test yes no p => exact .cond (hpart test) (hpart yes) (hpart no) (hplace p)
  | fn params body p => exact .fn (List.forall₂_same.2 fun e _ => hinner e) (hplace p)
  | define name namePos value p => exact .define (hpart value) (hplace p)

/-- **Errors of evaluation that are the same but for their positions.** -/
inductive Error.Alike (place : Position → Position → Prop) : Error → Error → Prop
  | ofArguments {e : Error} : e.OfArguments → Alike place e e
  | type (expected actual : Kind) {p q : Position} : place p q →
      Alike place (.type expected actual (some p)) (.type expected actual (some q))
  | undefinedFunction (name : String) {p q : Position} : place p q →
      Alike place (.undefinedFunction name p) (.undefinedFunction name q)
  | argumentCount (expected actual : Nat) {p q : Position} : place p q →
      Alike place (.argumentCount expected actual p) (.argumentCount expected actual q)
  | readOnly (name : String) : Alike place (.readOnly name) (.readOnly name)
  | recursionTooDeep {p q : Position} : place p q → Alike place (.recursionTooDeep p) (.recursionTooDeep q)

theorem Error.Alike.eq {e e' : Error} (h : Error.Alike Eq e e') : e = e' := by
  cases h with
  | ofArguments _ | readOnly _ => rfl
  | type _ _ hpq | undefinedFunction _ hpq | argumentCount _ _ hpq | recursionTooDeep hpq => rw [hpq]

/-! ## What is related -/

/-- **What is related in two machines.**  Code stands in places of the kind `ι`; at `i : ι`, the bodies of its `fn`
forms stand at `inner i`. -/
structure Lockstep (ι : Type) where
  text : String → Prop
  place : ι → Position → Position → Prop
  code : ι → Expr → Expr → Prop
  inner : ι → ι
  frame : ι → Machine → FrameId → FrameId → Prop
  function : Machine → Function → Function → Prop
  error : Error → Error → Prop
  machine : Machine → Machine → Prop
  /-- Whether the first machine can become another. -/
  later : Machine → Machine → Prop
  /-- How much more depth the second evaluation has. -/
  slack : Nat
  /-- Errors of the first evaluation after which nothing is asked of the second. -/
  excused : Error → Prop := fun _ => False

namespace Machine

/-- A machine after a mark was given out. -/
def marked (m : Machine) : Machine := { m with nextMark := m.nextMark + 1 }

def bind (m : Machine) (F : FrameId) (name : String) (v : Value) : Machine :=
  { m with store := m.store.bind F name v }

def child (m : Machine) (outer : FrameId) (bindings : Entries Value) : Machine :=
  { m with store := (m.store.child outer bindings).2 }

def print (m : Machine) (text : String) : Machine := { m with printed := m.printed.push text }

end Machine

namespace Lockstep

variable {ι : Type} (L : Lockstep ι)

def value (m : Machine) : Value → Value → Prop := Value.Agree L.text (L.function m)

/-- A step of both machines. -/
structure Goes (m m' n' : Machine) : Prop where
  machine : L.machine m' n'
  later : L.later m m'

/-- **What the parts of an evaluation keep**, printing aside; of the code itself, it is known only where it stands and
which of it are names. -/
structure Loose : Prop where
  later_refl : ∀ m, L.later m m
  later_trans : ∀ {m m' m''}, L.later m m' → L.later m' m'' → L.later m m''
  frame_later : ∀ {i m m' F G}, L.later m m' → L.frame i m F G → L.frame i m' F G
  function_later : ∀ {m m' f g}, L.later m m' → L.function m f g → L.function m' f g
  text_join : ∀ texts : List String, (∀ text ∈ texts, L.text text) → L.text ("".intercalate texts)
  error_alike : ∀ {i e e'}, Error.Alike (L.place i) e e' → (∀ name, e ≠ .readOnly name) →
    (∀ pos, e ≠ .recursionTooDeep pos) → L.error e e'
  error_arguments : ∀ {e : Error}, e.OfArguments → L.error e e
  code_fronts : ∀ {i e e'}, L.code i e e' → e.Fronts (L.place i) e'
  function_layer : ∀ {m f g}, L.function m f g →
    f.Layer L.place (fun i => L.frame i m) (fun i => L.code (L.inner i)) g
  find? : ∀ {i m n F G name p q}, L.machine m n → L.frame i m F G → L.code i (.ident name p) (.ident name q) →
    (m.store.find? F name).isSome = (n.store.find? G name).isSome
  lookup : ∀ {i m n F G name p q}, L.machine m n → L.frame i m F G → L.code i (.ident name p) (.ident name q) →
    L.value m (m.store.lookup F name) (n.store.lookup G name)
  readOnly : ∀ {i m n F G}, L.machine m n → L.frame i m F G →
    m.store.readOnly F = n.store.readOnly G ∧
      ∀ name, m.store.readOnly F = true → L.error (.readOnly name) (.readOnly name)
  bind : ∀ {i m n F G name np nq e e' p q v w}, L.machine m n → L.frame i m F G →
    L.code i (.define name np e p) (.define name nq e' q) → m.store.readOnly F = false → L.value m v w →
    L.Goes m (m.bind F name v) (n.bind G name w)
  enter : ∀ {i m n F G es fs}, L.machine m n → L.frame i m F G →
    List.Forall₂ (EntryAgree (fun _ => True) (L.value m)) es fs →
    L.Goes m (m.child F es) (n.child G fs) ∧
      L.frame (L.inner i) (m.child F es) m.store.frames.size n.store.frames.size
  operator : ∀ {m n} (op : Operator), L.machine m n → L.Goes m m.marked n.marked ∧
    L.function m.marked (.operator op m.nextMark) (.operator op n.nextMark)
  closure : ∀ {i m n F G params body body' p q}, L.machine m n → L.frame i m F G →
    L.code i (.fn params body p) (.fn params body' q) → List.Forall₂ (L.code (L.inner i)) body body' →
    L.place i p q → L.Goes m m.marked n.marked ∧
    L.function m.marked (.closure ⟨m.nextMark, F, params, body, p⟩) (.closure ⟨n.nextMark, G, params, body', q⟩)

/-- **What the parts of an evaluation keep**, printing aside, where related code goes layer by layer. -/
structure Steady : Prop extends L.Loose where
  code_layer : ∀ {i e e'}, L.code i e e' → e.Layer L.text (L.place i) (L.code i) (L.code (L.inner i)) e'
  code_fronts := fun he => (code_layer he).fronts

/-- **What the parts of an evaluation keep.**  Related values are printed alike. -/
structure Lawful : Prop extends L.Steady where
  print : ∀ {m n args args'}, L.machine m n → List.Forall₂ (L.value m) args args' →
    L.Goes m (m.print (Builtin.line args)) (n.print (Builtin.line args))

/-- **How two evaluations end** that started in related machines, the first in `m`.  Nothing is said of an evaluation
that runs out of depth, unless both have the same, or ends with an error that excuses the second. -/
inductive Outcome (m : Machine) {α β : Type} (Q : Machine → α → β → Prop) :
    EStateM.Result Halt Machine α → EStateM.Result Halt Machine β → Prop
  | ok {a : α} {b : β} {m' n' : Machine} : L.Goes m m' n' → Q m' a b → Outcome m Q (.ok a m') (.ok b n')
  | failed {e e' : Error} {m' n' : Machine} : L.Goes m m' n' → L.error e e' →
      Outcome m Q (.error (.failed e) m') (.error (.failed e') n')
  | exhausted {m' : Machine} {r : EStateM.Result Halt Machine β} :
      (L.slack = 0 → ∃ n', r = .error .exhausted n' ∧ L.Goes m m' n') → Outcome m Q (.error .exhausted m') r
  | excused {e : Error} {m' : Machine} {r : EStateM.Result Halt Machine β} : L.excused e →
      Outcome m Q (.error (.failed e) m') r

/-- Related activations.  Functions may be called from frames that have nothing to do with each other. -/
inductive Activations (m : Machine) : Activation → Activation → Prop
  | expr {i : ι} {F G : FrameId} {e e' : Expr} : L.frame i m F G → L.code i e e' →
      Activations m (.expr F e) (.expr G e')
  | call (caller caller' : FrameId) {f g : Function} {args args' : List Value} : L.function m f g →
      List.Forall₂ (L.value m) args args' → Activations m (.call caller f args) (.call caller' g args')

/-- A relation that holds from now on, once it holds. -/
def Persistent {α β : Type} (P : Machine → α → β → Prop) : Prop := ∀ m m' a b, L.later m m' → P m a b → P m' a b

/-- Two ways to run activations, that end related if they start related. -/
def Runs (run run' : Activation → EvalM Value) : Prop :=
  ∀ m n a b, L.machine m n → L.Activations m a b → L.Outcome m L.value (run a m) (run' b n)

variable {L} {α β γ δ : Type} {P : Machine → α → β → Prop} {Q : Machine → γ → δ → Prop}

theorem Persistent.forall₂ (hP : L.Persistent P) : L.Persistent fun m => List.Forall₂ (P m) :=
  fun m m' _ _ hlater hall => hall.imp fun a b => hP m m' a b hlater

theorem Runs.expr {run run' : Activation → EvalM Value} (hrun : L.Runs run run') {i : ι} {F G : FrameId} (m n : Machine)
    (e e' : Expr) (hmn : L.machine m n) (he : L.frame i m F G ∧ L.code i e e') :
    L.Outcome m L.value (run (.expr F e) m) (run' (.expr G e') n) :=
  hrun m n _ _ hmn (.expr he.1 he.2)

namespace Loose

variable (h : L.Loose) {m n : Machine}

include h

/-! ## Computations -/

theorem goes_refl (hmn : L.machine m n) : L.Goes m m n := ⟨hmn, h.later_refl m⟩

theorem value_persistent : L.Persistent L.value := fun _ _ _ _ hlater hv => hv.mono fun _ _ => h.function_later hlater

/-- Code is code for good, and its frames stay related. -/
theorem code_persistent (i : ι) (F G : FrameId) : L.Persistent fun m e e' => L.frame i m F G ∧ L.code i e e' :=
  fun _ _ _ _ hlater he => ⟨h.frame_later hlater he.1, he.2⟩

theorem outcome_pure {a : γ} {b : δ} (hmn : L.machine m n) (hab : Q m a b) :
    L.Outcome m Q ((pure a : EvalM γ) m) ((pure b : EvalM δ) n) := .ok (h.goes_refl hmn) hab

theorem outcome_fail {e e' : Error} (hmn : L.machine m n) (he : L.error e e') :
    L.Outcome m Q ((EvalM.fail e : EvalM γ) m) ((EvalM.fail e' : EvalM δ) n) := .failed (h.goes_refl hmn) he

theorem outcome_answers {x : Except Error γ} {y : Except Error δ} (hmn : L.machine m n) (hxy : Answers (Q m) x y) :
    L.Outcome m Q (EvalM.ofExcept x m) (EvalM.ofExcept y n) := by
  cases hxy with
  | ok hab => exact h.outcome_pure hmn hab
  | error he => exact h.outcome_fail hmn (h.error_arguments he)

/-- What is said of a later machine is said of this one. -/
theorem outcome_later {m₀ : Machine} {r : EStateM.Result Halt Machine γ} {r' : EStateM.Result Halt Machine δ}
    (hlater : L.later m₀ m) (hr : L.Outcome m Q r r') : L.Outcome m₀ Q r r' := by
  have hgoes : ∀ {m' n'}, L.Goes m m' n' → L.Goes m₀ m' n' := fun hg => ⟨hg.machine, h.later_trans hlater hg.later⟩
  cases hr with
  | ok hg hab => exact .ok (hgoes hg) hab
  | failed hg he => exact .failed (hgoes hg) he
  | exhausted hr =>
    refine .exhausted fun hslack => ?_
    obtain ⟨n', hr', hg⟩ := hr hslack
    exact ⟨n', hr', hgoes hg⟩
  | excused he => exact .excused he

/-- Evaluations go on side by side, behind what the first of them has answered. -/
theorem outcome_bind_of_eq {x : EvalM α} {y : EvalM β} {f : α → EvalM γ} {g : β → EvalM δ}
    (hxy : L.Outcome m P (x m) (y n))
    (hfg : ∀ m' n' a b, x m = .ok a m' → L.Goes m m' n' → P m' a b → L.Outcome m' Q (f a m') (g b n')) :
    L.Outcome m Q ((x >>= f) m) ((y >>= g) n) := by
  rw [EvalM.bind_apply, EvalM.bind_apply]
  generalize x m = r at hxy hfg
  generalize y n = r' at hxy
  cases hxy with
  | ok hg hab => exact h.outcome_later hg.later (hfg _ _ _ _ rfl hg hab)
  | failed hg he => exact .failed hg he
  | exhausted hr =>
    refine .exhausted fun hslack => ?_
    obtain ⟨n', hr', hg⟩ := hr hslack
    exact ⟨n', by rw [hr'], hg⟩
  | excused he => exact .excused he

theorem outcome_bind {x : EvalM α} {y : EvalM β} {f : α → EvalM γ} {g : β → EvalM δ}
    (hxy : L.Outcome m P (x m) (y n))
    (hfg : ∀ m' n' a b, L.Goes m m' n' → P m' a b → L.Outcome m' Q (f a m') (g b n')) :
    L.Outcome m Q ((x >>= f) m) ((y >>= g) n) :=
  h.outcome_bind_of_eq hxy fun m' n' a b _ => hfg m' n' a b

/-- What is read from arguments leaves the machines as they are. -/
theorem outcome_ofExcept_bind {R : α → β → Prop} {x : Except Error α} {y : Except Error β} {f : α → EvalM γ}
    {g : β → EvalM δ} (hmn : L.machine m n) (hxy : Answers R x y)
    (hfg : ∀ a b, R a b → L.Outcome m Q (f a m) (g b n)) :
    L.Outcome m Q ((EvalM.ofExcept x >>= f) m) ((EvalM.ofExcept y >>= g) n) := by
  rw [EvalM.bind_apply, EvalM.bind_apply]
  cases hxy with
  | ok hab => exact hfg _ _ hab
  | error he => exact .failed (h.goes_refl hmn) (h.error_arguments he)

/-! ## Elements one by one -/

theorem outcome_mapItems (hP : L.Persistent P) (hQ : L.Persistent Q) {call : α → EvalM γ} {call' : β → EvalM δ}
    (hcall : ∀ m n a b, L.machine m n → P m a b → L.Outcome m Q (call a m) (call' b n)) :
    ∀ {as : List α} {bs : List β} {m n : Machine}, L.machine m n → List.Forall₂ (P m) as bs →
      L.Outcome m (fun m => List.Forall₂ (Q m)) (mapItems call as m) (mapItems call' bs n)
  | [], _, _, _, hmn, .nil => h.outcome_pure hmn .nil
  | a :: as, _, m, n, hmn, .cons hab habs => by
    rw [mapItems, mapItems]
    refine h.outcome_bind (hcall m n _ _ hmn hab) fun m' n' c d hg hcd => ?_
    have hrest := hP.forall₂ _ _ _ _ hg.later habs
    refine h.outcome_bind (outcome_mapItems hP hQ hcall hg.machine hrest) fun m'' n'' cs ds hg' hcds => ?_
    exact h.outcome_pure hg'.machine (.cons (hQ _ _ _ _ hg'.later hcd) hcds)

theorem outcome_filterItems (hP : L.Persistent P) {call : α → EvalM Value} {call' : β → EvalM Value}
    (hcall : ∀ m n a b, L.machine m n → P m a b → L.Outcome m L.value (call a m) (call' b n)) :
    ∀ {as : List α} {bs : List β} {m n : Machine}, L.machine m n → List.Forall₂ (P m) as bs →
      L.Outcome m (fun m => List.Forall₂ (P m)) (filterItems call as m) (filterItems call' bs n)
  | [], _, _, _, hmn, .nil => h.outcome_pure hmn .nil
  | a :: as, b :: bs, m, n, hmn, .cons hab habs => by
    rw [filterItems, filterItems]
    refine h.outcome_bind (hcall m n a b hmn hab) fun m₁ n₁ v w hg₁ hvw => ?_
    refine h.outcome_ofExcept_bind hg₁.machine (Builtin.verdict_agree hvw) fun keep keep' hkeep => ?_
    have hrest := hP.forall₂ _ _ _ _ hg₁.later habs
    refine h.outcome_bind (outcome_filterItems hP hcall hg₁.machine hrest) fun m₂ n₂ kept kept' hg₂ hkept => ?_
    refine h.outcome_pure hg₂.machine ?_
    obtain rfl := hkeep
    cases keep with
    | true => exact .cons (hP _ _ _ _ (h.later_trans hg₁.later hg₂.later) hab) hkept
    | false => exact hkept

theorem outcome_foldItems (hP : L.Persistent P) {call : Value → α → EvalM Value} {call' : Value → β → EvalM Value}
    (hcall : ∀ m n v w a b, L.machine m n → L.value m v w → P m a b → L.Outcome m L.value (call v a m) (call' w b n)) :
    ∀ {as : List α} {bs : List β} {v w : Value} {m n : Machine}, L.machine m n → L.value m v w →
      List.Forall₂ (P m) as bs → L.Outcome m L.value (foldItems call v as m) (foldItems call' w bs n)
  | [], _, _, _, _, _, hmn, hvw, .nil => h.outcome_pure hmn hvw
  | a :: as, b :: bs, v, w, m, n, hmn, hvw, .cons hab habs => by
    rw [foldItems, foldItems]
    refine h.outcome_bind (hcall m n v w a b hmn hvw hab) fun m' n' v' w' hg hvw' => ?_
    exact outcome_foldItems hP hcall hg.machine hvw' (hP.forall₂ _ _ _ _ hg.later habs)

theorem outcome_lastValue {P : Machine → Expr → Expr → Prop} (hP : L.Persistent P)
    {evalOne evalOne' : Expr → EvalM Value}
    (hone : ∀ m n e e', L.machine m n → P m e e' → L.Outcome m L.value (evalOne e m) (evalOne' e' n)) :
    ∀ {es es' : List Expr} {v w : Value} {m n : Machine}, L.machine m n → L.value m v w → List.Forall₂ (P m) es es' →
      L.Outcome m L.value (lastValue evalOne v es m) (lastValue evalOne' w es' n)
  | [], _, _, _, _, _, hmn, hvw, .nil => h.outcome_pure hmn hvw
  | e :: es, e' :: es', v, w, m, n, hmn, hvw, .cons he hes => by
    rw [lastValue, lastValue]
    refine h.outcome_bind (hone m n e e' hmn he) fun m' n' v' w' hg hvw' => ?_
    exact outcome_lastValue hP hone hg.machine hvw' (hP.forall₂ _ _ _ _ hg.later hes)

/-! ## Built-ins -/

theorem name_eq {f g : Function} (hfg : L.function m f g) : f.name = g.name := by
  cases h.function_layer hfg <;> rfl

theorem entry_persistent : L.Persistent fun m => EntryAgree L.text (L.value m) := fun m m' _ _ hlater he =>
  ⟨he.key_eq, he.key, h.value_persistent m m' _ _ hlater he.value⟩

/-- Related functions stay with what they are applied to. -/
theorem with_function (hP : L.Persistent P) (f g : Function) :
    L.Persistent fun m a b => L.function m f g ∧ P m a b :=
  fun m m' a b hlater hab => ⟨h.function_later hlater hab.1, hP m m' a b hlater hab.2⟩

theorem outcome_run {call call' : Function → List Value → EvalM Value}
    (hcall : ∀ m n f g args args', L.machine m n → L.function m f g → List.Forall₂ (L.value m) args args' →
      L.Outcome m L.value (call f args m) (call' g args' n)) (b : Builtin) (hb : b ≠ .print) {args args' : List Value}
    (hmn : L.machine m n) (hargs : List.Forall₂ (L.value m) args args') :
    L.Outcome m L.value (b.run call args m) (b.run call' args' n) := by
  have hitem := fun f g => h.with_function h.value_persistent f g
  have hentry := fun f g => h.with_function h.entry_persistent f g
  cases b with
  | concat => exact h.outcome_answers hmn (Builtin.concatenation_agree h.text_join hargs)
  | cons => exact h.outcome_answers hmn (Builtin.pairOf_agree hargs)
  | car => exact h.outcome_answers hmn (Builtin.leftOf_agree hargs)
  | cdr => exact h.outcome_answers hmn (Builtin.rightOf_agree hargs)
  | and => exact h.outcome_answers hmn (Builtin.conjunction_agree hargs)
  | or => exact h.outcome_answers hmn (Builtin.disjunction_agree hargs)
  | not => exact h.outcome_answers hmn (Builtin.negation_agree hargs)
  | strEq => exact h.outcome_answers hmn (Builtin.stringEquality_agree hargs)
  | list => exact h.outcome_pure hmn (.list hargs)
  | listGet => exact h.outcome_answers hmn (Builtin.element_agree hargs)
  | len => exact h.outcome_answers hmn (Builtin.length_agree hargs)
  | map => exact h.outcome_answers hmn (Builtin.mapOf_agree hargs)
  | mapGet => exact h.outcome_answers hmn (Builtin.valueUnder_agree hargs)
  | mapKeys => exact h.outcome_answers hmn (Builtin.keysOf_agree hargs)
  | mapValues => exact h.outcome_answers hmn (Builtin.valuesOf_agree hargs)
  | listFilter =>
    refine h.outcome_ofExcept_bind hmn (Builtin.list_function_agree _ hargs) fun a b hab => ?_
    obtain ⟨items, f⟩ := a
    obtain ⟨items', g⟩ := b
    have hitems := hab.1.imp fun v w hvw => And.intro hab.2 hvw
    refine h.outcome_bind (h.outcome_filterItems (hitem f g) ?_ hmn hitems) fun m' n' vs ws hg hvws => ?_
    · exact fun m n v w hmn hvw => hcall m n f g [v] [w] hmn hvw.1 (.cons hvw.2 .nil)
    · exact h.outcome_pure hg.machine (.list (hvws.imp fun v w hvw => hvw.2))
  | listMap =>
    refine h.outcome_ofExcept_bind hmn (Builtin.list_function_agree _ hargs) fun a b hab => ?_
    obtain ⟨items, f⟩ := a
    obtain ⟨items', g⟩ := b
    have hitems := hab.1.imp fun v w hvw => And.intro hab.2 hvw
    refine h.outcome_bind (h.outcome_mapItems (hitem f g) h.value_persistent ?_ hmn hitems)
      fun m' n' vs ws hg hvws => ?_
    · exact fun m n v w hmn hvw => hcall m n f g [v] [w] hmn hvw.1 (.cons hvw.2 .nil)
    · exact h.outcome_pure hg.machine (.list hvws)
  | listReduce =>
    refine h.outcome_ofExcept_bind hmn (Builtin.value_list_function_agree _ hargs) fun a b hab => ?_
    obtain ⟨acc, items, f⟩ := a
    obtain ⟨acc', items', g⟩ := b
    obtain ⟨hacc, hvws, hfg⟩ := hab
    have hitems := hvws.imp fun v w hvw => And.intro hfg hvw
    refine h.outcome_foldItems (hitem f g) ?_ hmn hacc hitems
    exact fun m n acc acc' v w hmn hacc hvw =>
      hcall m n f g [acc, v] [acc', w] hmn hvw.1 (.cons hacc (.cons hvw.2 .nil))
  | mapFilter =>
    refine h.outcome_ofExcept_bind hmn (Builtin.map_function_agree _ hargs) fun a b hab => ?_
    obtain ⟨entries, f⟩ := a
    obtain ⟨entries', g⟩ := b
    have hes := hab.1.imp fun e e' he => And.intro hab.2 he
    refine h.outcome_bind (h.outcome_filterItems (hentry f g) ?_ hmn hes) fun m' n' es es' hg hes' => ?_
    · exact fun m n e e' hmn he => hcall m n f g _ _ hmn he.1 he.2.args
    · exact h.outcome_pure hg.machine (Value.agree_map_iff.2 (hes'.imp fun e e' he => he.2))
  | mapMap =>
    refine h.outcome_ofExcept_bind hmn (Builtin.map_function_agree _ hargs) fun a b hab => ?_
    obtain ⟨entries, f⟩ := a
    obtain ⟨entries', g⟩ := b
    have hes := hab.1.imp fun e e' he => And.intro hab.2 he
    refine h.outcome_bind (h.outcome_mapItems (hentry f g) h.entry_persistent ?_ hmn hes)
      fun m' n' es es' hg hes' => ?_
    · refine fun m n e e' hmn he => ?_
      refine h.outcome_bind (hcall m n f g _ _ hmn he.1 he.2.args) fun m' n' v w hg hvw => ?_
      exact h.outcome_pure hg.machine ⟨he.2.key_eq, he.2.key, hvw⟩
    · exact h.outcome_pure hg.machine (Value.agree_map_iff.2 hes')
  | mapReduce =>
    refine h.outcome_ofExcept_bind hmn (Builtin.value_map_function_agree _ hargs) fun a b hab => ?_
    obtain ⟨acc, entries, f⟩ := a
    obtain ⟨acc', entries', g⟩ := b
    obtain ⟨hacc, hes, hfg⟩ := hab
    refine h.outcome_foldItems (hentry f g) ?_ hmn hacc (hes.imp fun e e' he => And.intro hfg he)
    exact fun m n acc acc' e e' hmn hacc he => hcall m n f g _ _ hmn he.1 (.cons hacc he.2.args)
  | print => exact absurd rfl hb

/-! ## Activations -/

theorem outcome_asFunction {i : ι} {p q : Position} {v w : Value} (hmn : L.machine m n) (hpq : L.place i p q)
    (hvw : L.value m v w) : L.Outcome m L.function (EvalM.ofExcept (asFunction (some p) v) m)
      (EvalM.ofExcept (asFunction (some q) w) n) := by
  have hfail : ∀ actual, L.Outcome m L.function (EvalM.ofExcept (.error (.type .function actual (some p))) m)
      (EvalM.ofExcept (.error (.type .function actual (some q))) n) := fun actual =>
    h.outcome_fail hmn (h.error_alike (.type .function actual hpq) nofun nofun)
  cases hvw with
  | function hfg => exact h.outcome_pure hmn hfg
  | _ => exact hfail _

theorem outcome_checkBound {i : ι} {F G : FrameId} {e e' : Expr} (hmn : L.machine m n) (hF : L.frame i m F G)
    (he : L.code i e e') : L.Outcome m (fun _ _ _ => True) (checkBound F e m) (checkBound G e' n) := by
  have hpure : L.Outcome m (fun _ _ _ => True) ((pure () : EvalM Unit) m) ((pure () : EvalM Unit) n) :=
    h.outcome_pure hmn trivial
  have hfronts := h.code_fronts he
  by_cases hname : ∃ name p, e = .ident name p
  · obtain ⟨name, p, rfl⟩ := hname
    obtain ⟨q, rfl⟩ := hfronts.ident rfl
    rw [checkBound_ident, checkBound_ident, ← h.find? hmn hF he]
    by_cases hbound : (m.store.find? F name).isSome = true
    · rw [if_pos hbound, if_pos hbound]
      exact hpure
    · rw [if_neg hbound, if_neg hbound]
      exact h.outcome_fail hmn (h.error_alike (.undefinedFunction name hfronts.pos) nofun nofun)
  · rw [checkBound_of_ne fun name p he => hname ⟨name, p, he⟩, checkBound_of_ne fun name q he' => hname ⟨name, ?_⟩]
    · exact hpure
    · exact hfronts.ident' he'

theorem outcome_define {i : ι} {F G : FrameId} {name : String} {np nq p q : Position} {e e' : Expr} {v w : Value}
    (hmn : L.machine m n) (hF : L.frame i m F G) (he : L.code i (.define name np e p) (.define name nq e' q))
    (hvw : L.value m v w) :
    L.Outcome m (fun _ _ _ => True) (EvalM.define F name v m) (EvalM.define G name w n) := by
  obtain ⟨hreadOnly, herror⟩ := h.readOnly hmn hF
  rw [EvalM.define_eq, EvalM.define_eq, Store.define, Store.define, ← hreadOnly]
  by_cases hro : m.store.readOnly F = true
  · rw [if_pos hro, if_pos hro]
    exact .failed (h.goes_refl hmn) (herror name hro)
  · rw [if_neg hro, if_neg hro]
    exact .ok (h.bind hmn hF he (Bool.eq_false_iff.2 hro) hvw) trivial

theorem outcome_enter {i : ι} {c d : Closure} {args args' : List Value} (hmn : L.machine m n)
    (hF : L.frame i m c.frame d.frame) (hparams : c.params = d.params) (hpos : L.place i c.pos d.pos)
    (hargs : List.Forall₂ (L.value m) args args') :
    L.Outcome m (L.frame (L.inner i)) (MiniLisp.enter c args m) (MiniLisp.enter d args' n) := by
  rw [MiniLisp.enter, MiniLisp.enter, hargs.length_eq, hparams]
  by_cases hlength : args'.length = d.params.length
  · rw [if_pos hlength, if_pos hlength]
    have hnames : ∀ name ∈ d.params, True := fun _ _ => trivial
    obtain ⟨hg, hframe⟩ := h.enter hmn hF (Entries.agree_ofPairs hnames hargs)
    exact .ok hg hframe
  · rw [if_neg hlength, if_neg hlength]
    exact h.outcome_fail hmn (h.error_alike (.argumentCount _ _ hpos) nofun nofun)

/-- Related values are printed alike. -/
theorem outcome_print {args args' : List Value} (caller caller' : FrameId) {run run' : Activation → EvalM Value}
    (hargs : List.Forall₂ (L.value m) args args')
    (hg : L.Goes m (m.print (Builtin.line args)) (n.print (Builtin.line args))) :
    L.Outcome m L.value (Activation.step run (.call caller (.builtin .print) args) m)
      (Activation.step run' (.call caller' (.builtin .print) args') n) := by
  rw [Activation.step, Activation.step, Builtin.run, Builtin.run, ← Builtin.line_agree (fun f g => h.name_eq) hargs]
  exact .ok hg .nil

/-- What is enough for an activation is enough for a related one. -/
theorem fits_eq (depth : Nat) {a b : Activation} (hab : L.Activations m a b) : a.fits depth = b.fits depth := by
  cases hab with
  | expr _ _ => rfl
  | call caller caller' hfg hargs =>
    cases h.function_layer hfg with
    | builtin b => exact Builtin.fits_agree depth b hargs
    | operator _ _ _ => rfl
    | closure _ _ _ _ _ => rfl

section Step

variable {run run' : Activation → EvalM Value} (hrun : L.Runs run run')

include hrun

theorem outcome_front {i : ι} {F G : FrameId} {head head' : Expr} {args args' : List Expr} (hmn : L.machine m n)
    (hF : L.frame i m F G) (hhead : L.code i head head') (hargs : List.Forall₂ (L.code i) args args') :
    L.Outcome m (fun m r r' => L.function m r.1 r'.1 ∧ List.Forall₂ (L.value m) r.2 r'.2)
      (Activation.front run F head args m) (Activation.front run' G head' args' n) := by
  refine h.outcome_bind (h.outcome_checkBound hmn hF hhead) fun m₁ n₁ _ _ hg₁ _ => ?_
  have hF₁ := h.frame_later hg₁.later hF
  refine h.outcome_bind (hrun m₁ n₁ _ _ hg₁.machine (.expr hF₁ hhead)) fun m₂ n₂ v w hg₂ hvw => ?_
  have hpos := (h.code_fronts hhead).pos
  refine h.outcome_bind (h.outcome_asFunction hg₂.machine hpos hvw) fun m₃ n₃ f g hg₃ hfg => ?_
  have hF₃ := h.frame_later hg₃.later (h.frame_later hg₂.later hF₁)
  refine h.outcome_bind (h.outcome_mapItems (h.code_persistent i F G) h.value_persistent hrun.expr hg₃.machine
    (hargs.imp fun e e' he => ⟨hF₃, he⟩)) fun m₄ n₄ vs ws hg₄ hvws => ?_
  exact h.outcome_pure hg₄.machine ⟨h.function_later hg₄.later hfg, hvws⟩

theorem outcome_callForm {i : ι} {F G : FrameId} {head head' : Expr} {args args' : List Expr} {p q : Position}
    (hmn : L.machine m n) (hF : L.frame i m F G) (hhead : L.code i head head')
    (hargs : List.Forall₂ (L.code i) args args') :
    L.Outcome m L.value (Activation.step run (.expr F (.call (head :: args) p)) m)
      (Activation.step run' (.expr G (.call (head' :: args') q)) n) := by
  rw [Activation.step_call, Activation.step_call]
  refine h.outcome_bind (h.outcome_front hrun hmn hF hhead hargs) fun m' n' r r' hg hr => ?_
  exact hrun m' n' _ _ hg.machine (.call F G hr.1 hr.2)

theorem outcome_condForm {i : ι} {F G : FrameId} {test test' yes yes' no no' : Expr} {p q : Position}
    (hmn : L.machine m n) (hF : L.frame i m F G) (htest : L.code i test test') (hyes : L.code i yes yes')
    (hno : L.code i no no') :
    L.Outcome m L.value (Activation.step run (.expr F (.cond test yes no p)) m)
      (Activation.step run' (.expr G (.cond test' yes' no' q)) n) := by
  refine h.outcome_bind (hrun m n _ _ hmn (.expr hF htest)) fun m' n' v w hg hvw => ?_
  have hF' := h.frame_later hg.later hF
  have hfail : ∀ actual, L.Outcome m' L.value (EvalM.fail (.type .bool actual (some test.pos)) m')
      (EvalM.fail (.type .bool actual (some test'.pos)) n') := fun actual =>
    h.outcome_fail hg.machine (h.error_alike (.type .bool actual (h.code_fronts htest).pos) nofun nofun)
  cases hvw with
  | bool b =>
    cases b with
    | true => exact hrun m' n' _ _ hg.machine (.expr hF' hyes)
    | false => exact hrun m' n' _ _ hg.machine (.expr hF' hno)
  | _ => exact hfail _

theorem outcome_defineForm {i : ι} {F G : FrameId} {name : String} {np nq p q : Position} {e e' : Expr}
    (hmn : L.machine m n) (hF : L.frame i m F G) (hform : L.code i (.define name np e p) (.define name nq e' q))
    (he : L.code i e e') :
    L.Outcome m L.value (Activation.step run (.expr F (.define name np e p)) m)
      (Activation.step run' (.expr G (.define name nq e' q)) n) := by
  refine h.outcome_bind (hrun m n _ _ hmn (.expr hF he)) fun m₁ n₁ v w hg₁ hvw => ?_
  have hF₁ := h.frame_later hg₁.later hF
  refine h.outcome_bind (h.outcome_define hg₁.machine hF₁ hform hvw) fun m₂ n₂ _ _ hg₂ _ => ?_
  exact h.outcome_pure hg₂.machine (h.value_persistent m₁ m₂ v w hg₂.later hvw)

theorem outcome_closure {i : ι} {c d : Closure} {caller caller' : FrameId} {args args' : List Value}
    (hmn : L.machine m n) (hF : L.frame i m c.frame d.frame) (hparams : c.params = d.params)
    (hbody : List.Forall₂ (L.code (L.inner i)) c.body d.body) (hpos : L.place i c.pos d.pos)
    (hargs : List.Forall₂ (L.value m) args args') :
    L.Outcome m L.value (Activation.step run (.call caller (.closure c) args) m)
      (Activation.step run' (.call caller' (.closure d) args') n) := by
  refine h.outcome_bind (h.outcome_enter hmn hF hparams hpos hargs) fun m' n' F G hg hF' => ?_
  exact h.outcome_lastValue (h.code_persistent (L.inner i) F G) hrun.expr hg.machine .nil
    (hbody.imp fun e e' he => ⟨hF', he⟩)

/-- An expression keeps what is related, if its parts do and are related. -/
theorem outcome_expr {i : ι} {F G : FrameId} {e e' : Expr} (hmn : L.machine m n) (hF : L.frame i m F G)
    (he : L.code i e e') (hlayer : e.Layer L.text (L.place i) (L.code i) (L.code (L.inner i)) e') :
    L.Outcome m L.value (Activation.step run (.expr F e) m) (Activation.step run' (.expr G e') n) := by
  cases hlayer with
  | ident hpq => exact .ok (h.goes_refl hmn) (h.lookup hmn hF he)
  | number hpq => exact h.outcome_pure hmn (.number _)
  | string htext hpq => exact h.outcome_pure hmn (.string htext)
  | bool hpq => exact h.outcome_pure hmn (.bool _)
  | nil hpq => exact h.outcome_pure hmn .nil
  | @operator op p q hpq =>
    obtain ⟨hg, hf⟩ := h.operator op hmn
    exact .ok hg (.function hf)
  | @fn params body body' p q hbody hpq =>
    obtain ⟨hg, hf⟩ := h.closure hmn hF he hbody hpq
    exact .ok hg (.function hf)
  | call hitems hpq =>
    cases hitems with
    | nil => exact h.outcome_pure hmn .nil
    | cons hhead hargs => exact h.outcome_callForm hrun hmn hF hhead hargs
  | cond htest hyes hno hpq => exact h.outcome_condForm hrun hmn hF htest hyes hno
  | define hvalue hpq => exact h.outcome_defineForm hrun hmn hF he hvalue

/-- A call keeps what is related, if those inside it do and it is none of `print`. -/
theorem outcome_call {caller caller' : FrameId} {f g : Function} {args args' : List Value} (hmn : L.machine m n)
    (hfg : L.function m f g) (hargs : List.Forall₂ (L.value m) args args') (hf : f ≠ .builtin .print) :
    L.Outcome m L.value (Activation.step run (.call caller f args) m)
      (Activation.step run' (.call caller' g args') n) := by
  cases h.function_layer hfg with
  | builtin b =>
    have hb : b ≠ .print := by
      rintro rfl
      exact hf rfl
    exact h.outcome_run (fun m n f g args args' hmn hfg hargs => hrun m n _ _ hmn (.call caller caller' hfg hargs)) b
      hb hmn hargs
  | operator op mark mark' => exact h.outcome_answers hmn (Operator.apply_agree op hargs)
  | closure i hF hparams hbody hpos => exact h.outcome_closure hrun hmn hF hparams hbody hpos hargs

end Step

end Loose

/-- **One activation keeps what is related**, if those inside it do and it is no call of `print`. -/
theorem Steady.outcome_step (h : L.Steady) {run run' : Activation → EvalM Value} (hrun : L.Runs run run') {m n : Machine}
    {a b : Activation} (hmn : L.machine m n) (hab : L.Activations m a b)
    (ha : ∀ caller args, a ≠ .call caller (.builtin .print) args) :
    L.Outcome m L.value (Activation.step run a m) (Activation.step run' b n) := by
  cases hab with
  | expr hF he => exact h.outcome_expr hrun hmn hF he (h.code_layer he)
  | @call caller caller' f g args args' hfg hargs =>
    refine h.outcome_call hrun hmn hfg hargs ?_
    rintro rfl
    exact ha caller args rfl


namespace Lawful

variable (h : L.Lawful) {m n : Machine}

include h

/-- **One activation keeps what is related**, if those inside it do. -/
theorem outcome_step {run run' : Activation → EvalM Value} (hrun : L.Runs run run') :
    L.Runs (Activation.step run) (Activation.step run') := by
  intro m n a b hmn hab
  by_cases ha : ∃ caller args, a = .call caller (.builtin .print) args
  · obtain ⟨caller, args, rfl⟩ := ha
    cases hab with
    | @call _ caller' _ g _ args' hfg hargs =>
      cases h.function_layer hfg with
      | builtin _ => exact h.outcome_print caller caller' hargs (h.print hmn hargs)
  · exact h.toSteady.outcome_step hrun hmn hab fun caller args ha' => ha ⟨caller, args, ha'⟩

/-- **Evaluations that start related end related**, whatever is watched in the first of them. -/
theorem run {watch : Activation → EvalM Unit}
    (hwatch : ∀ m n a b, L.machine m n → L.Activations m a b → watch a m = .ok () m) :
    ∀ depth : Nat, L.Runs (Activation.watched watch depth) (Activation.run (depth + L.slack))
  | 0, m, n, a, b, hmn, _ => by
    refine .exhausted fun hslack => ?_
    rw [hslack, Activation.run_zero]
    exact ⟨n, rfl, h.goes_refl hmn⟩
  | depth + 1, m, n, a, b, hmn, hab => by
    rw [Activation.watched_succ, Nat.add_right_comm, Activation.run_succ]
    by_cases hfits : a.fits depth = true
    · have hfits' := Activation.fits_of_le (Nat.le_add_right depth L.slack) (h.fits_eq depth hab ▸ hfits)
      rw [if_pos hfits, if_pos hfits', EvalM.bind_apply, hwatch m n a b hmn hab]
      exact h.outcome_step (run hwatch depth) m n a b hmn hab
    · rw [if_neg hfits]
      refine .exhausted fun hslack => ⟨n, ?_, h.goes_refl hmn⟩
      rw [hslack, Nat.add_zero, if_neg (h.fits_eq depth hab ▸ hfits)]
      rfl

theorem run_quiet {a b : Activation} (depth : Nat) (hmn : L.machine m n) (hab : L.Activations m a b) :
    L.Outcome m L.value (Activation.run depth a m) (Activation.run (depth + L.slack) b n) := by
  rw [← Activation.watched_quiet]
  exact h.run (fun _ _ _ _ _ _ => rfl) depth m n a b hmn hab

end Lawful

end Lockstep

end MiniLisp
