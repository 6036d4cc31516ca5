import MiniLisp.Program.Parse
import MiniLisp.Proofs.Expr.Like
/-!
# Twin — parsing two sequences of tokens side by side

Parsing asks a token for its kind and its text, and takes its position over into what it makes of it.  So tokens that
are related one by one, and have the same kinds and texts, are parsed alike: to expressions that differ in their
positions only, or to errors that name related tokens (`Program.steps_twin`).
-/
namespace MiniLisp

open Expr (Like AnyPlace)

/-- **Two answers of one kind**: results that `Q` relates, or errors that `E` relates. -/
inductive Both {α β : Type} (Q : α → β → Prop) (E : Error → Error → Prop) : Except Error α → Except Error β → Prop
  | ok {a : α} {b : β} : Q a b → Both Q E (.ok a) (.ok b)
  | error {e e' : Error} : E e e' → Both Q E (.error e) (.error e')

theorem Both.map {α β γ δ : Type} {Q : α → β → Prop} {Q' : γ → δ → Prop} {E : Error → Error → Prop}
    {x : Except Error α} {y : Except Error β} {f : α → γ} {g : β → δ} (h : Both Q E x y)
    (hfg : ∀ a b, Q a b → Q' (f a) (g b)) : Both Q' E (x.map f) (y.map g) := by
  cases h with
  | ok hab => exact .ok (hfg _ _ hab)
  | error he => exact .error he

theorem Both.imp {α β : Type} {Q Q' : α → β → Prop} {E E' : Error → Error → Prop} {x : Except Error α}
    {y : Except Error β} (h : Both Q E x y) (hQ : ∀ a b, Q a b → Q' a b) (hE : ∀ e e', E e e' → E' e e') :
    Both Q' E' x y := by
  cases h with
  | ok hab => exact .ok (hQ _ _ hab)
  | error he => exact .error (hE _ _ he)

/-- Two sequences of tokens that end alike. -/
inductive Ending.Twin : Ending → Ending → Prop
  | ended (pos pos' : Position) : Twin (.ended pos) (.ended pos')
  | refused (cause : Forbidden) : Twin (.refused cause) (.refused cause)

/-- **Errors that name related tokens.**  The others are those of how the tokens end. -/
inductive Error.Twin (R : Token → Token → Prop) (ending ending' : Ending) : Error → Error → Prop
  | parse {problem : ParseProblem} {t u : Token} : R t u →
      Twin R ending ending' (.parse problem t) (.parse problem u)
  | nestedTooDeeply {t u : Token} : R t u →
      Twin R ending ending' (.nestedTooDeeply t.pos.source) (.nestedTooDeeply u.pos.source)
  | unexpectedEnd {place : Unfinished} {pos pos' : Position} : ending = .ended pos → ending' = .ended pos' →
      Twin R ending ending' (.unexpectedEnd place pos) (.unexpectedEnd place pos')
  | forbidden {cause : Forbidden} : ending = .refused cause → ending' = .refused cause →
      Twin R ending ending' (.forbidden cause) (.forbidden cause)

/-- Shapes that are the same but for the words that open them. -/
inductive Form.Shape.Twin (R : Token → Token → Prop) : Form.Shape → Form.Shape → Prop
  | undecided : Twin R .undecided .undecided
  | call : Twin R .call .call
  | cond {t u : Token} : R t u → Twin R (.cond t) (.cond u)
  | define {t u : Token} : R t u → Twin R (.define t) (.define u)
  | fnHead : Twin R .fnHead .fnHead
  | fnParams (params : List String) : Twin R (.fnParams params) (.fnParams params)
  | fnBody (params : List String) : Twin R (.fnBody params) (.fnBody params)

structure Form.Twin (R : Token → Token → Prop) (f g : Form) : Prop where
  shape : f.shape.Twin R g.shape
  parts : List.Forall₂ (Like AnyPlace) f.parts g.parts

/-- **Programs that have read related tokens.** -/
structure Program.Twin (R : Token → Token → Prop) (p q : Program) : Prop where
  finished : List.Forall₂ (Like AnyPlace) p.finished q.finished
  forms : List.Forall₂ (Form.Twin R) p.forms q.forms

/-- Tokens that the parser does not tell apart. -/
structure Token.Alike (t u : Token) : Prop where
  kind : t.kind = u.kind
  text : t.text = u.text

variable {R : Token → Token → Prop} {ending ending' : Ending} {t u : Token} {e e' : Expr} {es es' : List Expr}

/-! ## Forms -/

namespace Form

variable {f g : Form}

theorem Twin.settle (h : f.Twin R g) : f.settle.Twin R g.settle := by
  obtain ⟨start, shape, parts⟩ := f
  obtain ⟨start', shape', parts'⟩ := g
  obtain ⟨hshape, hparts⟩ := h
  cases hshape with
  | undecided => exact ⟨.call, hparts⟩
  | call => exact ⟨.call, hparts⟩
  | cond htu => exact ⟨.cond htu, hparts⟩
  | define htu => exact ⟨.define htu, hparts⟩
  | fnHead => exact ⟨.fnHead, hparts⟩
  | fnParams params => exact ⟨.fnParams params, hparts⟩
  | fnBody params => exact ⟨.fnBody params, hparts⟩

theorem Twin.add (h : f.Twin R g) (he : Like AnyPlace e e') : (f.add e).Twin R (g.add e') :=
  ⟨h.settle.shape, .cons he h.parts⟩

theorem opened_twin (start start' : Position) : (opened start).Twin R (opened start') := ⟨.undecided, .nil⟩

theorem closeCond_twin (start start' : Position) (htu : R t u) (h : List.Forall₂ (Like AnyPlace) es es') :
    Both (Like AnyPlace) (Error.Twin R ending ending') (closeCond start t es) (closeCond start' u es') := by
  have hnil : Like AnyPlace (.nil start) (.nil start') := .nil trivial
  rcases h with _ | ⟨htest, _ | ⟨hyes, _ | ⟨hno, _ | _⟩⟩⟩
  · exact .error (.parse htu)
  · exact .ok (.cond htest hnil hnil trivial)
  · exact .ok (.cond htest hyes hnil trivial)
  · exact .ok (.cond htest hyes hno trivial)
  · exact .error (.parse htu)

theorem closeDefine_twin (start start' : Position) (htu : R t u) (h : List.Forall₂ (Like AnyPlace) es es') :
    Both (Like AnyPlace) (Error.Twin R ending ending') (closeDefine start t es) (closeDefine start' u es') := by
  have hcount := h.length_eq
  rcases h with _ | ⟨hname, _ | ⟨hvalue, _ | ⟨_, hrest⟩⟩⟩
  · exact .error (.parse htu)
  · cases hname <;> exact .error (.parse htu)
  · cases hname with
    | ident _ => exact .ok (.define trivial hvalue trivial)
    | _ => exact .error (.parse htu)
  · have hparts : ∀ (start : Position) (head : Token) (a b c : Expr) (rest : List Expr),
        closeDefine start head (a :: b :: c :: rest) =
          .error (.parse (.letCount (a :: b :: c :: rest).length) head) := by
      intro start head a b c rest
      cases a <;> rfl
    rw [hparts, hparts, hcount]
    exact .error (.parse htu)

theorem close_twin (h : f.Twin R g) : Both (Like AnyPlace) (Error.Twin R ending ending') f.close g.close := by
  obtain ⟨start, shape, parts⟩ := f
  obtain ⟨start', shape', parts'⟩ := g
  obtain ⟨hshape, hparts⟩ := h
  have hread : List.Forall₂ (Like AnyPlace) parts.reverse parts'.reverse := List.rel_reverse hparts
  cases hshape with
  | undecided | call | fnHead | fnParams params => exact .ok (.call hread trivial)
  | cond htu => exact closeCond_twin start start' htu hread
  | define htu => exact closeDefine_twin start start' htu hread
  | fnBody params => exact .ok (.fn hread trivial)

theorem unfinished_twin (h : f.Twin R g) {pos pos' : Position} (hending : ending = .ended pos)
    (hending' : ending' = .ended pos') : Error.Twin R ending ending' (f.unfinished pos) (g.unfinished pos') := by
  have hclose : Both (Like AnyPlace) (Error.Twin R ending ending') f.close g.close := close_twin h
  have hshape := h.shape
  obtain ⟨start, shape, parts⟩ := f
  obtain ⟨start', shape', parts'⟩ := g
  unfold unfinished
  generalize (Form.mk start shape parts).close = x at hclose ⊢
  generalize (Form.mk start' shape' parts').close = y at hclose ⊢
  cases hshape with
  | undecided | fnHead | fnParams params => exact .unexpectedEnd hending hending'
  | call | cond _ | define _ | fnBody params =>
    cases hclose with
    | ok _ => exact .unexpectedEnd hending hending'
    | error he => exact he

/-- Words that are alike open forms of one shape, or none. -/
theorem shapeOfWord?_twin (htu : R t u) (halike : t.Alike u) :
    Option.Rel (Shape.Twin R) (shapeOfWord? t) (shapeOfWord? u) := by
  unfold shapeOfWord?
  rw [halike.kind, halike.text]
  split
  · split
    · exact .some (.cond htu)
    · exact .some (.define htu)
    · exact .some .fnHead
    · exact .none
  · exact .none

end Form

/-! ## One token -/

namespace Program

variable {p q : Program} {behind : Option Forbidden}

theorem word_twin (halike : t.Alike u) : Like AnyPlace (word t) (word u) := by
  unfold word
  rw [halike.text]
  split
  · exact .nil trivial
  · exact .bool trivial
  · exact .bool trivial
  · exact .ident trivial

theorem operator_twin (htu : R t u) (halike : t.Alike u) :
    Both (Like AnyPlace) (Error.Twin R ending ending') (operator t) (operator u) := by
  unfold operator
  rw [halike.text]
  split
  · exact .ok (.operator trivial)
  · exact .error (.parse htu)

theorem number_twin (htu : R t u) (halike : t.Alike u) :
    Both (Like AnyPlace) (Error.Twin R ending ending') (number t) (number u) := by
  unfold number
  rw [halike.text]
  split
  · split
    · exact .ok (.number trivial)
    · exact .error (.parse htu)
  · exact .error (.parse htu)

theorem noticedLate_twin {α β : Type} {Q : α → β → Prop} {x : Except Error α} {y : Except Error β}
    (hbehind : ∀ cause ∈ behind, ending = .refused cause ∧ ending' = .refused cause)
    (h : Both Q (Error.Twin R ending ending') x y) :
    Both Q (Error.Twin R ending ending') (noticedLate behind x) (noticedLate behind y) := by
  cases h with
  | ok hab => exact .ok hab
  | error he =>
    cases behind with
    | none => exact .error he
    | some cause => exact .error (.forbidden (hbehind cause rfl).1 (hbehind cause rfl).2)

theorem Twin.add (h : p.Twin R q) (he : Like AnyPlace e e') : (p.add e).Twin R (q.add e') := by
  obtain ⟨finished, forms⟩ := p
  obtain ⟨finished', forms'⟩ := q
  obtain ⟨hfinished, hforms⟩ := h
  cases hforms with
  | nil => exact ⟨.cons he hfinished, .nil⟩
  | cons hf hfs => exact ⟨hfinished, .cons (hf.add he) hfs⟩

theorem openForm_twin (limit : Nat) (htu : R t u) (h : p.Twin R q) :
    Both (Program.Twin R) (Error.Twin R ending ending') (p.openForm limit t) (q.openForm limit u) := by
  unfold openForm
  rw [h.forms.length_eq]
  split
  · refine .ok ⟨h.finished, .cons (Form.opened_twin _ _) ?_⟩
    obtain ⟨finished, forms⟩ := p
    obtain ⟨finished', forms'⟩ := q
    cases h.forms with
    | nil => exact .nil
    | cons hf hfs => exact .cons hf.settle hfs
  · exact .error (.nestedTooDeeply htu)

theorem closeForm_twin (htu : R t u) (h : p.Twin R q) :
    Both (Program.Twin R) (Error.Twin R ending ending') (p.closeForm t) (q.closeForm u) := by
  obtain ⟨finished, forms⟩ := p
  obtain ⟨finished', forms'⟩ := q
  obtain ⟨hfinished, hforms⟩ := h
  cases hforms with
  | nil => exact .error (.parse htu)
  | cons hf hfs => exact (Form.close_twin hf).map fun _ _ he => Twin.add ⟨hfinished, hfs⟩ he

theorem item_twin (limit : Nat) (htu : R t u) (halike : t.Alike u)
    (hbehind : ∀ cause ∈ behind, ending = .refused cause ∧ ending' = .refused cause) (h : p.Twin R q) :
    Both (Program.Twin R) (Error.Twin R ending ending') (p.item limit behind t) (q.item limit behind u) := by
  unfold item
  rw [halike.kind]
  split
  · exact openForm_twin limit htu h
  · exact closeForm_twin htu h
  · exact .ok (h.add (word_twin halike))
  · exact noticedLate_twin hbehind ((operator_twin htu halike).map fun _ _ he => h.add he)
  · exact noticedLate_twin hbehind ((number_twin htu halike).map fun _ _ he => h.add he)
  · rw [halike.text]
    exact .ok (h.add (.string trivial))
  · exact .error (.parse htu)

theorem param_twin {f g : Form} (htu : R t u) (halike : t.Alike u)
    (hbehind : ∀ cause ∈ behind, ending = .refused cause ∧ ending' = .refused cause) (h : f.Twin R g)
    (params : List String) :
    Both (Form.Twin R) (Error.Twin R ending ending') (param behind f params t) (param behind g params u) := by
  unfold param
  rw [halike.kind, halike.text]
  split
  · exact .ok ⟨.fnParams _, h.parts⟩
  · exact .ok ⟨.fnBody _, h.parts⟩
  · exact noticedLate_twin hbehind (.error (.parse htu))

/-- **One step takes related tokens alike.** -/
theorem step_twin (limit : Nat) (htu : R t u) (halike : t.Alike u)
    (hbehind : ∀ cause ∈ behind, ending = .refused cause ∧ ending' = .refused cause) (h : p.Twin R q) :
    Both (Program.Twin R) (Error.Twin R ending ending') (p.step limit behind t) (q.step limit behind u) := by
  have hitem := item_twin limit htu halike hbehind h
  obtain ⟨finished, forms⟩ := p
  obtain ⟨finished', forms'⟩ := q
  obtain ⟨hfinished, hforms⟩ := h
  cases hforms with
  | nil => exact hitem
  | @cons f g fs gs hf hfs =>
    obtain ⟨start, shape, parts⟩ := f
    obtain ⟨start', shape', parts'⟩ := g
    unfold step
    cases hf.shape with
    | call | cond _ | define _ | fnBody params => exact hitem
    | fnHead =>
      dsimp only
      rw [halike.kind]
      split
      · exact .ok ⟨hfinished, .cons ⟨.fnParams [], hf.parts⟩ hfs⟩
      · exact .error (.parse htu)
    | fnParams params =>
      exact (param_twin htu halike hbehind hf params).map fun _ _ hfg => ⟨hfinished, .cons hfg hfs⟩
    | undecided =>
      have hword := Form.shapeOfWord?_twin htu halike
      dsimp only
      generalize Form.shapeOfWord? t = shape? at hword
      generalize Form.shapeOfWord? u = shape?' at hword
      cases hword with
      | none => exact hitem
      | some hshape => exact .ok ⟨hfinished, .cons ⟨hshape, hf.parts⟩ hfs⟩

/-! ## All tokens -/

theorem empty_twin : empty.Twin R empty := ⟨.nil, .nil⟩

theorem finish_twin (hending : ending.Twin ending') (h : p.Twin R q) :
    Both (List.Forall₂ (Like AnyPlace)) (Error.Twin R ending ending') (p.finish ending) (q.finish ending') := by
  obtain ⟨finished, forms⟩ := p
  obtain ⟨finished', forms'⟩ := q
  obtain ⟨hfinished, hforms⟩ := h
  cases hending with
  | refused cause => exact .error (.forbidden rfl rfl)
  | ended pos pos' =>
    cases hforms with
    | nil => exact .ok (List.rel_reverse hfinished)
    | cons hf _ => exact .error (Form.unfinished_twin hf rfl rfl)

/-- **Related tokens are parsed alike.** -/
theorem steps_twin (limit : Nat) (halike : ∀ t u, R t u → t.Alike u) (hending : ending.Twin ending') {ts us : List Token}
    (htokens : List.Forall₂ R ts us) (h : p.Twin R q) :
    Both (List.Forall₂ (Like AnyPlace)) (Error.Twin R ending ending') (steps limit ending p ts)
      (steps limit ending' q us) := by
  induction htokens generalizing p q with
  | nil => exact finish_twin hending h
  | @cons t u ts us htu htokens ih =>
    have hempty : us.isEmpty = ts.isEmpty := by cases htokens <;> rfl
    have hrefusal : ending'.refusal? = ending.refusal? := by cases hending <;> rfl
    have hbehind : ∀ cause ∈ (if ts.isEmpty then ending.refusal? else none),
        ending = .refused cause ∧ ending' = .refused cause := by
      intro cause hcause
      split at hcause
      · cases hending with
        | ended pos pos' => cases hcause
        | refused cause' =>
          obtain rfl := Option.some.inj hcause
          exact ⟨rfl, rfl⟩
      · cases hcause
    have hstep := step_twin limit htu (halike t u htu) hbehind h
    rw [steps, steps, hempty, hrefusal]
    generalize p.step limit (if ts.isEmpty then ending.refusal? else none) t = x at hstep
    generalize q.step limit (if ts.isEmpty then ending.refusal? else none) u = y at hstep
    cases hstep with
    | ok hpq => exact ih hpq
    | error he => exact .error he

end Program

end MiniLisp
