import MiniLisp.Proofs.Program.Phrase
/-!
# Accept — the parser reads every phrase

Where an expression may stand, the tokens of a grammatical phrase take a program to the same program with the
expression of the phrase (`accepts`), as long as the forms of the phrase do not exceed the limit.  No step on
the way can fail, so what stands behind the tokens plays no part.
-/
namespace MiniLisp

open Phrase (Grammatical tokensAll exprs)

/-! ## Open forms -/

namespace Form

variable {f : Form} {t : Token}

theorem shapeOfWord?_cond (h : t.IsWord "if") : shapeOfWord? t = some (.cond t) := by
  simp [shapeOfWord?, h.1, h.2]

theorem shapeOfWord?_fn (h : t.IsWord "fn") : shapeOfWord? t = some .fnHead := by
  simp [shapeOfWord?, h.1, h.2]

theorem shapeOfWord?_define (h : t.IsWord "let") : shapeOfWord? t = some (.define t) := by
  simp [shapeOfWord?, h.1, h.2]

theorem shapeOfWord?_none : shapeOfWord? t = none ↔ ¬t.Special := by
  refine ⟨fun h hs => ?_, fun h => ?_⟩
  · rcases hs with hw | hw | hw
    · rw [shapeOfWord?_cond hw] at h
      cases h
    · rw [shapeOfWord?_fn hw] at h
      cases h
    · rw [shapeOfWord?_define hw] at h
      cases h
  · unfold shapeOfWord?
    split
    · rename_i hk
      split
      · exact absurd (.inl ⟨hk, ‹_›⟩) h
      · exact absurd (.inr (.inr ⟨hk, ‹_›⟩)) h
      · exact absurd (.inr (.inl ⟨hk, ‹_›⟩)) h
      · rfl
    · rfl

/-- An expression that starts with `t` may stand in the form. -/
def Ready (f : Form) (t : Token) : Prop :=
  match f.shape with
  | .undecided => ¬t.Special
  | .fnHead | .fnParams _ => False
  | .call | .cond _ | .define _ | .fnBody _ => True

theorem Ready.add (h : f.Ready t) (e : Expr) (u : Token) : (f.add e).Ready u := by
  obtain ⟨start, shape, parts⟩ := f
  cases shape <;> first | exact h.elim | trivial

@[simp] theorem settle_settle (f : Form) : f.settle.settle = f.settle := by
  obtain ⟨start, shape, parts⟩ := f
  cases shape <;> rfl

@[simp] theorem settle_add (f : Form) (e : Expr) : f.settle.add e = f.add e := by
  rw [Form.add, settle_settle]
  obtain ⟨start, shape, parts⟩ := f
  cases shape <;> rfl

@[simp] theorem add_settle (f : Form) (e : Expr) : (f.add e).settle = f.add e := by
  obtain ⟨start, shape, parts⟩ := f
  cases shape <;> rfl

theorem foldl_add : ∀ {f : Form} (es : List Expr), f.settle = f →
    es.foldl Form.add f = { f with parts := es.reverse ++ f.parts }
  | _, [], _ => rfl
  | f, e :: es, h => by
    rw [List.foldl_cons, foldl_add es (add_settle f e), Form.add, h, List.reverse_cons, List.append_assoc]
    rfl

theorem not_special_of_closeParen (h : t.kind = .closeParen) : ¬t.Special := by
  rintro (hw | hw | hw) <;> rw [hw.1] at h <;> cases h

theorem ready_foldl_add (h : t.kind = .closeParen) : ∀ {f : Form} (es : List Expr), f.Ready t →
    (es.foldl Form.add f).Ready t
  | _, [], hf => hf
  | _, e :: es, hf => ready_foldl_add h es (hf.add e t)

theorem close_foldl_opened (start : Position) : ∀ es : List Expr,
    (es.foldl Form.add (opened start)).close = .ok (.call es start)
  | [] => rfl
  | e :: es => by
    rw [List.foldl_cons, foldl_add es (add_settle _ e)]
    simp [close, Form.add, settle, opened]

theorem closeCond_branches (start : Position) (head : Token) : ∀ {es : List Expr}, 1 ≤ es.length → es.length ≤ 3 →
    closeCond start head es = .ok (Phrase.branches start es)
  | [], h, _ => absurd h (by decide)
  | [_], _, _ => rfl
  | [_, _], _, _ => rfl
  | [_, _, _], _, _ => rfl
  | _ :: _ :: _ :: _ :: _, _, h => by
    simp only [List.length_cons] at h
    omega

end Form

/-! ## Steps -/

namespace Program

variable {limit : Nat} {ending : Ending} {p : Program} {t : Token} {ts : List Token}

/-- An expression that starts with `t` may stand behind what has been read. -/
def Ready (p : Program) (t : Token) : Prop := ∀ f ∈ p.forms.head?, f.Ready t

/-- A program where a form inside its innermost form is read. -/
def settled (p : Program) : List Form :=
  match p.forms with
  | [] => []
  | f :: fs => f.settle :: fs

theorem length_settled (p : Program) : p.settled.length = p.forms.length := by
  unfold settled
  split <;> simp_all

theorem add_settled (p : Program) (e : Expr) : add { p with forms := p.settled } e = p.add e := by
  obtain ⟨finished, forms⟩ := p
  cases forms <;> simp [settled, add]

theorem length_add (p : Program) (e : Expr) : (p.add e).forms.length = p.forms.length := by
  unfold add
  split <;> simp_all

theorem Ready.add (h : p.Ready t) (e : Expr) (u : Token) : (p.add e).Ready u := by
  obtain ⟨finished, forms⟩ := p
  cases forms with
  | nil => exact nofun
  | cons f fs =>
    intro g hg
    obtain rfl : f.add e = g := by simpa [Program.add] using hg
    exact (h f rfl).add e u

theorem foldl_add_cons (finished : List Expr) (fs : List Form) : ∀ (f : Form) (es : List Expr),
    es.foldl Program.add ⟨finished, f :: fs⟩ = ⟨finished, es.foldl Form.add f :: fs⟩
  | _, [] => rfl
  | f, e :: es => foldl_add_cons finished fs (f.add e) es

theorem step_of_ready (h : p.Ready t) (limit : Nat) (behind : Option Forbidden) :
    p.step limit behind t = p.item limit behind t := by
  obtain ⟨finished, forms⟩ := p
  cases forms with
  | nil => rfl
  | cons f fs =>
    have hf := h f rfl
    obtain ⟨start, shape, parts⟩ := f
    cases shape with
    | undecided =>
      have hn : Form.shapeOfWord? t = none := Form.shapeOfWord?_none.2 hf
      simp only [step, hn]
    | fnHead => exact hf.elim
    | fnParams _ => exact hf.elim
    | _ => rfl

/-- A step that succeeds whatever stands behind its token. -/
theorem steps_cons {p' : Program} (h : ∀ behind, p.step limit behind t = .ok p') :
    steps limit ending p (t :: ts) = steps limit ending p' ts := by
  rw [steps, h]
  rfl

theorem steps_item {p' : Program} (hr : p.Ready t) (h : ∀ behind, p.item limit behind t = .ok p') :
    steps limit ending p (t :: ts) = steps limit ending p' ts :=
  steps_cons fun behind => by rw [step_of_ready hr, h]

theorem steps_open (hr : p.Ready t) (hk : t.kind = .openParen) (hl : p.forms.length < limit) :
    steps limit ending p (t :: ts) = steps limit ending ⟨p.finished, .opened t.pos :: p.settled⟩ ts := by
  refine steps_item hr fun behind => ?_
  simp only [item, hk, openForm, hl, if_true]
  rfl

theorem steps_word {finished : List Expr} {start : Position} {fs : List Form} {shape : Form.Shape}
    (h : Form.shapeOfWord? t = some shape) :
    steps limit ending ⟨finished, .opened start :: fs⟩ (t :: ts) =
      steps limit ending ⟨finished, ⟨start, shape, []⟩ :: fs⟩ ts := by
  refine steps_cons fun behind => ?_
  simp only [step, Form.opened, h]

theorem steps_close {f : Form} {e : Expr} (hk : t.kind = .closeParen) (hf : f.Ready t) (hc : f.close = .ok e) :
    steps limit ending ⟨p.finished, f :: p.settled⟩ (t :: ts) = steps limit ending (p.add e) ts := by
  refine steps_item (by simpa [Ready] using hf) fun behind => ?_
  simp only [item, hk, closeForm, hc, Except.map, ← add_settled p e]

theorem steps_params {finished : List Expr} {start : Position} {fs : List Form} (hk : t.kind = .closeParen) :
    ∀ (names : List String) (params : List Token), (∀ u ∈ params, u.kind = .ident) →
    steps limit ending ⟨finished, ⟨start, .fnParams names, []⟩ :: fs⟩ (params ++ t :: ts) =
      steps limit ending ⟨finished, ⟨start, .fnBody (names ++ params.map Token.text), []⟩ :: fs⟩ ts
  | names, [], _ => by
    rw [List.nil_append, List.map_nil, List.append_nil]
    refine steps_cons fun behind => ?_
    simp only [step, param, hk, Except.map]
  | names, u :: params, hu => by
    have hstep : ∀ behind, step limit behind ⟨finished, ⟨start, .fnParams names, []⟩ :: fs⟩ u =
        .ok ⟨finished, ⟨start, .fnParams (names ++ [u.text]), []⟩ :: fs⟩ := by
      intro behind
      simp only [step, param, hu u List.mem_cons_self, Except.map]
    rw [List.cons_append, steps_cons hstep,
      steps_params hk (names ++ [u.text]) params fun v hv => hu v (List.mem_cons_of_mem _ hv)]
    simp

/-! ## Phrases -/

/-- **The tokens of a phrase are read as its expression**, wherever an expression may stand. -/
def Accepts (limit : Nat) (ending : Ending) (q : Phrase) : Prop :=
  ∀ {p : Program}, (∀ t ∈ q.tokens.head?, p.Ready t) → p.forms.length + q.depth ≤ limit →
    ∀ ts, steps limit ending p (q.tokens ++ ts) = steps limit ending (p.add q.expr) ts

theorem steps_tokensAll : ∀ {ps : List Phrase} {p : Program}, (∀ q ∈ ps, Accepts limit ending q) →
    (∀ q ∈ ps, Grammatical q) → (∀ t ∈ (tokensAll ps).head?, p.Ready t) →
    p.forms.length + Phrase.depthAll ps ≤ limit →
    ∀ ts, steps limit ending p (tokensAll ps ++ ts) = steps limit ending ((exprs ps).foldl add p) ts
  | [], _, _, _, _, _, _ => rfl
  | q :: ps, p, ih, hg, hr, hd, ts => by
    obtain ⟨t, us, he, -, -⟩ := (hg q List.mem_cons_self).exists_first
    have ht : p.Ready t := hr t (by rw [tokensAll, he]; rfl)
    have hready : ∀ u ∈ q.tokens.head?, p.Ready u := by
      rw [he]
      rintro u ⟨⟩
      exact ht
    rw [Phrase.depthAll] at hd
    rw [tokensAll, List.append_assoc, ih q List.mem_cons_self hready (by omega), exprs, List.foldl_cons]
    refine steps_tokensAll (fun q' hq' => ih q' (List.mem_cons_of_mem _ hq'))
      (fun q' hq' => hg q' (List.mem_cons_of_mem _ hq')) (fun u _ => ht.add _ u) ?_ ts
    rw [length_add]
    omega

theorem steps_parts {f : Form} {ps : List Phrase} (ih : ∀ q ∈ ps, Accepts limit ending q)
    (hg : ∀ q ∈ ps, Grammatical q) (hf : ∀ t, f.Ready t) (hs : f.settle = f)
    (hd : p.forms.length + 1 + Phrase.depthAll ps ≤ limit) (ts : List Token) :
    steps limit ending ⟨p.finished, f :: p.settled⟩ (tokensAll ps ++ ts) =
      steps limit ending ⟨p.finished, { f with parts := (exprs ps).reverse ++ f.parts } :: p.settled⟩ ts := by
  have hd' : (f :: p.settled).length + Phrase.depthAll ps ≤ limit := by
    rw [List.length_cons, length_settled]
    exact hd
  rw [steps_tokensAll (p := ⟨p.finished, f :: p.settled⟩) ih hg (fun t _ => by simpa [Ready] using hf t) hd',
    foldl_add_cons, Form.foldl_add _ hs]

/-- **Every phrase is accepted.** -/
theorem accepts {q : Phrase} (hq : Grammatical q) : Accepts limit ending q := by
  induction hq with
  | atom ha =>
    intro p hr _ ts
    exact steps_item (hr _ rfl) fun behind => item_of_atom ha limit behind p
  | @call opening closing items ho hc hhead hitems ih =>
    intro p hr hd ts
    rw [Phrase.depth] at hd
    -- Only the first token could be taken for the word of a special form.
    have hready : ∀ t ∈ (tokensAll items).head?, Ready ⟨p.finished, .opened opening.pos :: p.settled⟩ t := by
      intro t ht
      simpa [Ready, Form.Ready, Form.opened] using hhead t ht
    have hdepth : (Form.opened opening.pos :: p.settled).length + Phrase.depthAll items ≤ limit := by
      rw [List.length_cons, length_settled]
      omega
    rw [Phrase.tokens, List.cons_append, steps_open (hr _ rfl) ho (by omega), List.append_assoc,
      steps_tokensAll ih hitems hready hdepth, foldl_add_cons]
    exact steps_close hc (Form.ready_foldl_add hc _ (Form.not_special_of_closeParen hc))
      (Form.close_foldl_opened opening.pos (exprs items))
  | @cond opening word closing parts ho hw hc hmin hmax hparts ih =>
    intro p hr hd ts
    rw [Phrase.depth] at hd
    have hclose : Form.close ⟨opening.pos, .cond word, (exprs parts).reverse ++ []⟩ =
        .ok (Phrase.branches opening.pos (exprs parts)) := by
      rw [List.append_nil, Form.close, List.reverse_reverse]
      exact Form.closeCond_branches _ _ (by rwa [Phrase.length_exprs]) (by rwa [Phrase.length_exprs])
    rw [Phrase.tokens, List.cons_append, steps_open (hr _ rfl) ho (by omega), List.cons_append,
      steps_word (Form.shapeOfWord?_cond hw), List.append_assoc,
      steps_parts (p := p) (f := ⟨opening.pos, .cond word, []⟩) ih hparts (fun _ => trivial) rfl (by omega)]
    exact steps_close hc trivial hclose
  | @fn opening word paramsOpening paramsClosing closing params body ho hw hpo hparams hpc hc hbody ih =>
    intro p hr hd ts
    rw [Phrase.depth] at hd
    have hhead : ∀ behind, step limit behind ⟨p.finished, ⟨opening.pos, .fnHead, []⟩ :: p.settled⟩ paramsOpening =
        .ok ⟨p.finished, ⟨opening.pos, .fnParams [], []⟩ :: p.settled⟩ := by
      intro behind
      simp only [step, hpo, if_true]
    have hclose : Form.close ⟨opening.pos, .fnBody ([] ++ params.map Token.text), (exprs body).reverse ++ []⟩ =
        .ok (.fn (params.map Token.text) (exprs body) opening.pos) := by
      rw [List.append_nil, List.nil_append, Form.close, List.reverse_reverse]
    rw [Phrase.tokens, List.cons_append, steps_open (hr _ rfl) ho (by omega), List.cons_append,
      steps_word (Form.shapeOfWord?_fn hw), List.cons_append, steps_cons hhead, List.append_assoc, List.cons_append,
      steps_params hpc [] params hparams, List.append_assoc,
      steps_parts (p := p) (f := ⟨opening.pos, .fnBody ([] ++ params.map Token.text), []⟩) ih hbody
        (fun _ => trivial) rfl (by omega)]
    exact steps_close hc trivial hclose
  | @define opening word name closing value ho hw hn hc hv ih =>
    intro p hr hd ts
    rw [Phrase.depth] at hd
    have hname : ∀ behind, item limit behind ⟨p.finished, ⟨opening.pos, .define word, []⟩ :: p.settled⟩ name =
        .ok ⟨p.finished, ⟨opening.pos, .define word, [.ident name.text name.pos]⟩ :: p.settled⟩ :=
      fun behind => item_of_atom (.ident hn) limit behind _
    have hdepth : (⟨opening.pos, .define word, [.ident name.text name.pos]⟩ :: p.settled).length + value.depth ≤
        limit := by
      rw [List.length_cons, length_settled]
      omega
    rw [Phrase.tokens, List.cons_append, steps_open (hr _ rfl) ho (by omega), List.cons_append,
      steps_word (Form.shapeOfWord?_define hw), List.cons_append, steps_item (by simp [Ready, Form.Ready]) hname,
      List.append_assoc, ih (by simp [Ready, Form.Ready]) hdepth]
    show steps limit ending ⟨p.finished, ⟨opening.pos, .define word, [value.expr, .ident name.text name.pos]⟩ ::
      p.settled⟩ _ = _
    exact steps_close hc trivial rfl

end Program

end MiniLisp
