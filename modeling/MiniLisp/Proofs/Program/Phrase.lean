import Mathlib.Data.List.Basic
import MiniLisp.Program.Parse
/-!
# Phrase — the grammar of programs

A `Phrase` is a tree over tokens: a token that is an expression by itself, or one of the four forms with all its
tokens.  From left to right it spells its tokens, and it stands for one expression.  `Grammatical` says which trees
belong to the language.  The grammar is unambiguous: a list of tokens is spelled by at most one list of grammatical
phrases (`tokensAll_inj`).
-/
namespace MiniLisp

/-! ## Tokens -/

namespace Token

def IsWord (t : Token) (text : String) : Prop := t.kind = .ident ∧ t.text = text

/-- The words that open a special form. -/
def Special (t : Token) : Prop := t.IsWord "if" ∨ t.IsWord "fn" ∨ t.IsWord "let"

theorem IsWord.text_inj {t : Token} {a b : String} (ha : t.IsWord a) (hb : t.IsWord b) : a = b := by
  rw [← ha.2, hb.2]

/-- An identifier that is not a literal. -/
def IsName (t : Token) : Prop := t.kind = .ident ∧ t.text ≠ "nil" ∧ t.text ≠ "true" ∧ t.text ≠ "false"

/-- If the token is a string literal, its text has a quote at each end. -/
def Quoted (t : Token) : Prop := t.kind = .string → ∃ body, t.text.toList = '"' :: (body ++ ['"'])

end Token

/-- **The expressions of one token.** -/
inductive Atom : Token → Expr → Prop
  | nil {pos : Position} : Atom ⟨.ident, "nil", pos⟩ (.nil pos)
  | true {pos : Position} : Atom ⟨.ident, "true", pos⟩ (.bool true pos)
  | false {pos : Position} : Atom ⟨.ident, "false", pos⟩ (.bool false pos)
  | ident {t : Token} : t.IsName → Atom t (.ident t.text t.pos)
  | operator {op : Operator} {pos : Position} : Atom ⟨.operator, op.spelling, pos⟩ (.operator op pos)
  | number {text : String} {x : Float} {pos : Position} : Number.read? text.toList = some x → Number.isFinite x →
      Atom ⟨.number, text, pos⟩ (.number x pos)
  | string {text body : String} {pos : Position} : text.toList = '"' :: (body.toList ++ ['"']) →
      Atom ⟨.string, text, pos⟩ (.string body pos)

theorem Operator.ofSpelling?_spelling (op : Operator) : Operator.ofSpelling? op.spelling = some op := by
  cases op <;> decide

theorem Operator.spelling_of_ofSpelling? {text : String} {op : Operator} (h : Operator.ofSpelling? text = some op) :
    op.spelling = text := by
  simpa using List.find?_some h

namespace Program

variable {t : Token} {e : Expr}

theorem atom_word (h : t.kind = .ident) : Atom t (word t) := by
  obtain ⟨kind, text, pos⟩ := t
  subst h
  unfold word
  split
  · rename_i ht
    subst ht
    exact .nil
  · rename_i ht
    subst ht
    exact .true
  · rename_i ht
    subst ht
    exact .false
  · rename_i hnil htrue hfalse
    exact .ident ⟨rfl, hnil, htrue, hfalse⟩

theorem word_eq_ident (h : t.IsName) : word t = .ident t.text t.pos := by
  unfold word
  split
  · exact absurd ‹_› h.2.1
  · exact absurd ‹_› h.2.2.1
  · exact absurd ‹_› h.2.2.2
  · rfl

theorem unquoted_eq {text : String} {body : List Char} (h : text.toList = '"' :: (body ++ ['"'])) :
    unquoted text = String.ofList body := by
  rw [unquoted, h, List.drop_succ_cons, List.drop_zero, List.dropLast_concat]

/-- **The parser reads an expression of one token as the grammar does**, whatever stands behind the token. -/
theorem item_of_atom (h : Atom t e) (limit : Nat) (behind : Option Forbidden) (p : Program) :
    p.item limit behind t = .ok (p.add e) := by
  cases h with
  | nil => rfl
  | true => rfl
  | false => rfl
  | ident hn => simp only [item, hn.1, word_eq_ident hn]
  | operator => simp only [item, operator, Operator.ofSpelling?_spelling, Except.map, noticedLate]
  | number hx hf => simp only [item, number, hx, hf, if_true, Except.map, noticedLate]
  | string htext => simp only [item, unquoted_eq htext, String.ofList_toList]

/-- Apart from the parentheses, a token that is read is an expression. -/
theorem atom_of_item {limit : Nat} {behind : Option Forbidden} {p p' : Program} (h : p.item limit behind t = .ok p')
    (hopen : t.kind ≠ .openParen) (hclose : t.kind ≠ .closeParen) : ∃ e, p' = p.add e ∧ (t.Quoted → Atom t e) := by
  obtain ⟨kind, text, pos⟩ := t
  cases kind with
  | openParen => exact absurd rfl hopen
  | closeParen => exact absurd rfl hclose
  | ident =>
    obtain rfl := Except.ok.inj h
    exact ⟨_, rfl, fun _ => atom_word rfl⟩
  | operator =>
    simp only [item, operator] at h
    cases hop : Operator.ofSpelling? text with
    | none => simp [hop, Except.map, noticedLate] at h
    | some op =>
      simp only [hop, Except.map, noticedLate] at h
      obtain rfl := Except.ok.inj h
      obtain rfl := Operator.spelling_of_ofSpelling? hop
      exact ⟨_, rfl, fun _ => .operator⟩
  | number =>
    simp only [item, number] at h
    cases hx : Number.read? text.toList with
    | none => simp [hx, Except.map, noticedLate] at h
    | some x =>
      by_cases hf : Number.isFinite x = true
      · simp only [hx, hf, if_true, Except.map, noticedLate] at h
        obtain rfl := Except.ok.inj h
        exact ⟨_, rfl, fun _ => .number hx hf⟩
      · simp [hx, hf, Except.map, noticedLate] at h
  | string =>
    obtain rfl := Except.ok.inj h
    refine ⟨_, rfl, fun hquoted => ?_⟩
    obtain ⟨body, hbody⟩ := hquoted rfl
    rw [unquoted_eq hbody]
    exact .string (by rw [String.toList_ofList]; exact hbody)
  | invalid => cases h

end Program

theorem Atom.unique {t : Token} {e e' : Expr} (h : Atom t e) (h' : Atom t e') : e = e' := by
  have hr : (.ok (Program.empty.add e) : Except Error Program) = .ok (Program.empty.add e') := by
    rw [← Program.item_of_atom h 0 none, ← Program.item_of_atom h' 0 none]
  simpa [Program.empty, Program.add] using hr

theorem Atom.not_paren {t : Token} {e : Expr} (h : Atom t e) : t.kind ≠ .openParen ∧ t.kind ≠ .closeParen := by
  cases h with
  | ident hn => simp [hn.1]
  | _ => exact ⟨nofun, nofun⟩

theorem Atom.pos_eq {t : Token} {e : Expr} (h : Atom t e) : t.pos = e.pos := by
  cases h <;> rfl

/-! ## Phrases -/

inductive Phrase where
  | atom (t : Token) (e : Expr)
  | call (opening : Token) (items : List Phrase) (closing : Token)
  | cond (opening word : Token) (parts : List Phrase) (closing : Token)
  | fn (opening word paramsOpening : Token) (params : List Token) (paramsClosing : Token) (body : List Phrase)
      (closing : Token)
  | define (opening word name : Token) (value : Phrase) (closing : Token)

namespace Phrase

mutual

def tokens : Phrase → List Token
  | .atom t _ => [t]
  | .call opening items closing => opening :: (tokensAll items ++ [closing])
  | .cond opening word parts closing => opening :: word :: (tokensAll parts ++ [closing])
  | .fn opening word paramsOpening params paramsClosing body closing =>
    opening :: word :: paramsOpening :: (params ++ paramsClosing :: (tokensAll body ++ [closing]))
  | .define opening word name value closing => opening :: word :: name :: (tokens value ++ [closing])

def tokensAll : List Phrase → List Token
  | [] => []
  | p :: ps => tokens p ++ tokensAll ps

end

/-- An `if` of one to three parts; a missing branch is a nil at the position of the form. -/
def branches (start : Position) (es : List Expr) : Expr :=
  .cond (es.getD 0 (.nil start)) (es.getD 1 (.nil start)) (es.getD 2 (.nil start)) start

mutual

/-- The expression that a phrase stands for. -/
def expr : Phrase → Expr
  | .atom _ e => e
  | .call opening items _ => .call (exprs items) opening.pos
  | .cond opening _ parts _ => branches opening.pos (exprs parts)
  | .fn opening _ _ params _ body _ => .fn (params.map Token.text) (exprs body) opening.pos
  | .define opening _ name value _ => .define name.text name.pos (expr value) opening.pos

def exprs : List Phrase → List Expr
  | [] => []
  | p :: ps => expr p :: exprs ps

end

mutual

/-- How many forms of a phrase are open at once. -/
def depth : Phrase → Nat
  | .atom _ _ => 0
  | .call _ items _ => depthAll items + 1
  | .cond _ _ parts _ => depthAll parts + 1
  | .fn _ _ _ _ _ body _ => depthAll body + 1
  | .define _ _ _ value _ => depth value + 1

def depthAll : List Phrase → Nat
  | [] => 0
  | p :: ps => max (depth p) (depthAll ps)

end

/-- **The phrases of the language.**  Parentheses stand where they should, and the words and the numbers of parts
are those of the form. -/
inductive Grammatical : Phrase → Prop
  | atom {t : Token} {e : Expr} : Atom t e → Grammatical (.atom t e)
  | call {opening closing : Token} {items : List Phrase} : opening.kind = .openParen → closing.kind = .closeParen →
      (∀ t ∈ (tokensAll items).head?, ¬t.Special) → (∀ p ∈ items, Grammatical p) →
      Grammatical (.call opening items closing)
  | cond {opening word closing : Token} {parts : List Phrase} : opening.kind = .openParen → word.IsWord "if" →
      closing.kind = .closeParen → 1 ≤ parts.length → parts.length ≤ 3 → (∀ p ∈ parts, Grammatical p) →
      Grammatical (.cond opening word parts closing)
  | fn {opening word paramsOpening paramsClosing closing : Token} {params : List Token} {body : List Phrase} :
      opening.kind = .openParen → word.IsWord "fn" → paramsOpening.kind = .openParen →
      (∀ t ∈ params, t.kind = .ident) → paramsClosing.kind = .closeParen → closing.kind = .closeParen →
      (∀ p ∈ body, Grammatical p) → Grammatical (.fn opening word paramsOpening params paramsClosing body closing)
  | define {opening word name closing : Token} {value : Phrase} : opening.kind = .openParen → word.IsWord "let" →
      name.IsName → closing.kind = .closeParen → Grammatical value →
      Grammatical (.define opening word name value closing)

/-! ## Lists of phrases -/

variable {p : Phrase} {ps qs : List Phrase}

theorem tokensAll_append : ∀ ps qs : List Phrase, tokensAll (ps ++ qs) = tokensAll ps ++ tokensAll qs
  | [], _ => rfl
  | p :: ps, qs => by rw [List.cons_append, tokensAll, tokensAll, tokensAll_append ps qs, List.append_assoc]

theorem tokensAll_concat (ps : List Phrase) (p : Phrase) : tokensAll (ps ++ [p]) = tokensAll ps ++ p.tokens := by
  rw [tokensAll_append, tokensAll, tokensAll, List.append_nil]

theorem exprs_append : ∀ ps qs : List Phrase, exprs (ps ++ qs) = exprs ps ++ exprs qs
  | [], _ => rfl
  | p :: ps, qs => by rw [List.cons_append, exprs, exprs, exprs_append ps qs, List.cons_append]

theorem reverse_exprs_concat (ps : List Phrase) (p : Phrase) :
    (exprs (ps ++ [p])).reverse = p.expr :: (exprs ps).reverse := by
  rw [exprs_append, exprs, exprs, List.reverse_append]
  rfl

theorem length_exprs : ∀ ps : List Phrase, (exprs ps).length = ps.length
  | [] => rfl
  | p :: ps => by rw [exprs, List.length_cons, List.length_cons, length_exprs ps]

theorem exists_pair_of_exprs {e₁ e₂ : Expr} : ∀ {ps : List Phrase}, exprs ps = [e₁, e₂] →
    ∃ p₁ p₂, ps = [p₁, p₂] ∧ p₁.expr = e₁ ∧ p₂.expr = e₂
  | [], h => nomatch h
  | [_], h => nomatch h
  | [p₁, p₂], h => by
    obtain ⟨h₁, h₂, -⟩ : p₁.expr = e₁ ∧ p₂.expr = e₂ ∧ True := by simpa [exprs] using h
    exact ⟨p₁, p₂, rfl, h₁, h₂⟩
  | _ :: _ :: _ :: _, h => by simp [exprs] at h

theorem depthAll_append : ∀ ps qs : List Phrase, depthAll (ps ++ qs) = max (depthAll ps) (depthAll qs)
  | [], _ => by simp [depthAll]
  | p :: ps, qs => by rw [List.cons_append, depthAll, depthAll, depthAll_append ps qs, Nat.max_assoc]

theorem depthAll_le {n : Nat} : ∀ {ps : List Phrase}, depthAll ps ≤ n ↔ ∀ p ∈ ps, p.depth ≤ n
  | [] => by simp [depthAll]
  | p :: ps => by rw [depthAll, Nat.max_le, depthAll_le, List.forall_mem_cons]

/-! ## The first token -/

/-- **A phrase starts at its expression's position**, with a token that cannot close a form. -/
theorem Grammatical.exists_first (h : Grammatical p) :
    ∃ t ts, p.tokens = t :: ts ∧ t.pos = p.expr.pos ∧ t.kind ≠ .closeParen := by
  cases h with
  | atom ha => exact ⟨_, [], rfl, ha.pos_eq, ha.not_paren.2⟩
  | call ho _ _ _ => exact ⟨_, _, rfl, rfl, by simp [ho]⟩
  | cond ho _ _ _ _ _ => exact ⟨_, _, rfl, rfl, by simp [ho]⟩
  | fn ho _ _ _ _ _ _ => exact ⟨_, _, rfl, rfl, by simp [ho]⟩
  | define ho _ _ _ _ => exact ⟨_, _, rfl, rfl, by simp [ho]⟩

theorem tokensAll_ne_nil (hne : ps ≠ []) (hps : ∀ p ∈ ps, Grammatical p) : tokensAll ps ≠ [] := by
  obtain ⟨p, ps, rfl⟩ := List.exists_cons_of_ne_nil hne
  obtain ⟨t, ts, ht, -, -⟩ := (hps p List.mem_cons_self).exists_first
  rw [tokensAll, ht]
  exact List.cons_ne_nil _ _

theorem Grammatical.exists_name {name : String} {pos : Position} (h : Grammatical p) (he : p.expr = .ident name pos) :
    ∃ t : Token, t.IsName ∧ t.text = name ∧ t.pos = pos ∧ p.tokens = [t] := by
  cases h with
  | @atom t e ha =>
    cases ha with
    | ident hn =>
      obtain ⟨rfl, rfl⟩ := Expr.ident.inj he
      exact ⟨t, hn, rfl, rfl, rfl⟩
    | _ => cases he
  | _ => cases he

/-- No phrase starts here: the tokens are at an end or at a closing parenthesis. -/
def Stops (ts : List Token) : Prop := ∀ t ∈ ts.head?, t.kind = .closeParen

theorem stops_nil : Stops [] := nofun

theorem stops_cons {t : Token} {ts : List Token} (h : t.kind = .closeParen) : Stops (t :: ts) := by
  simpa [Stops] using h

theorem Grammatical.not_stops (h : Grammatical p) (ts : List Token) : ¬Stops (p.tokens ++ ts) := by
  obtain ⟨t, us, he, -, hk⟩ := h.exists_first
  rw [he]
  intro hs
  exact hk (hs t rfl)

/-! ## Unambiguity -/

theorem word_unique {opening opening' word word' : Token} {a b : String} {r s : List Token} (hw : word.IsWord a)
    (hw' : word'.IsWord b) (h : opening :: word :: r = opening' :: word' :: s) : a = b := by
  obtain ⟨-, htail⟩ := List.cons.inj h
  obtain ⟨rfl, -⟩ := List.cons.inj htail
  exact hw.text_inj hw'

/-- Behind the opening parenthesis of a call stands no word of a special form. -/
theorem not_special_of_call {opening opening' closing word : Token} {items : List Phrase} {r s : List Token}
    (hhead : ∀ t ∈ (tokensAll items).head?, ¬t.Special) (hclose : closing.kind = .closeParen)
    (h : opening :: (tokensAll items ++ [closing]) ++ r = opening' :: word :: s) : ¬word.Special := by
  rw [List.cons_append, List.append_assoc] at h
  obtain ⟨-, htail⟩ := List.cons.inj h
  cases hi : tokensAll items with
  | nil =>
    rw [hi] at htail
    obtain ⟨rfl, -⟩ := List.cons.inj htail
    rintro (hw | hw | hw) <;> rw [hw.1] at hclose <;> cases hclose
  | cons t ts =>
    rw [hi] at htail
    obtain ⟨rfl, -⟩ := List.cons.inj htail
    exact hhead t (by rw [hi]; rfl)

/-- Lists of phrases are told apart by their tokens if the phrases of the one list are. -/
theorem tokensAll_unique {r s : List Token} (hr : Stops r) (hs : Stops s) : ∀ {ps qs : List Phrase},
    (∀ p ∈ ps, Grammatical p) → (∀ q ∈ qs, Grammatical q) →
    (∀ p ∈ ps, ∀ {q : Phrase}, Grammatical q → ∀ {r s : List Token}, p.tokens ++ r = q.tokens ++ s → p = q ∧ r = s) →
    tokensAll ps ++ r = tokensAll qs ++ s → ps = qs ∧ r = s
  | [], [], _, _, _, h => ⟨rfl, h⟩
  | [], q :: qs, _, hqs, _, h => by
    rw [tokensAll, tokensAll, List.nil_append, List.append_assoc] at h
    rw [h] at hr
    exact absurd hr ((hqs q (by simp)).not_stops _)
  | p :: ps, [], hps, _, _, h => by
    rw [tokensAll, tokensAll, List.nil_append, List.append_assoc] at h
    rw [← h] at hs
    exact absurd hs ((hps p (by simp)).not_stops _)
  | p :: ps, q :: qs, hps, hqs, ih, h => by
    rw [tokensAll, tokensAll, List.append_assoc, List.append_assoc] at h
    obtain ⟨rfl, htail⟩ := ih p List.mem_cons_self (hqs q List.mem_cons_self) h
    obtain ⟨rfl, hrest⟩ := tokensAll_unique hr hs (fun p hp => hps p (List.mem_cons_of_mem _ hp))
      (fun q hq => hqs q (List.mem_cons_of_mem _ hq)) (fun p hp => ih p (List.mem_cons_of_mem _ hp)) htail
    exact ⟨rfl, hrest⟩

theorem parts_unique {closing closing' : Token} {r s : List Token} (hc : closing.kind = .closeParen)
    (hc' : closing'.kind = .closeParen) (hps : ∀ p ∈ ps, Grammatical p) (hqs : ∀ q ∈ qs, Grammatical q)
    (ih : ∀ p ∈ ps, ∀ {q : Phrase}, Grammatical q → ∀ {r s : List Token}, p.tokens ++ r = q.tokens ++ s →
      p = q ∧ r = s)
    (h : tokensAll ps ++ closing :: r = tokensAll qs ++ closing' :: s) : ps = qs ∧ closing = closing' ∧ r = s := by
  obtain ⟨hparts, hrest⟩ := tokensAll_unique (stops_cons hc) (stops_cons hc') hps hqs ih h
  exact ⟨hparts, List.cons.inj hrest⟩

/-- Parameters end at the first token that is no identifier. -/
theorem params_unique {closing closing' : Token} {r s : List Token} (hc : closing.kind = .closeParen)
    (hc' : closing'.kind = .closeParen) : ∀ {params params' : List Token}, (∀ t ∈ params, t.kind = .ident) →
    (∀ t ∈ params', t.kind = .ident) → params ++ closing :: r = params' ++ closing' :: s →
    params = params' ∧ closing = closing' ∧ r = s
  | [], [], _, _, h => ⟨rfl, List.cons.inj h⟩
  | [], t :: _, _, ht, h => by
    rw [(List.cons.inj h).1, ht t List.mem_cons_self] at hc
    cases hc
  | t :: _, [], ht, _, h => by
    rw [← (List.cons.inj h).1, ht t List.mem_cons_self] at hc'
    cases hc'
  | t :: params, t' :: params', ht, ht', h => by
    obtain ⟨rfl, htail⟩ := List.cons.inj h
    obtain ⟨rfl, hrest⟩ := params_unique hc hc' (fun u hu => ht u (List.mem_cons_of_mem _ hu))
      (fun u hu => ht' u (List.mem_cons_of_mem _ hu)) htail
    exact ⟨rfl, hrest⟩

/-- **The phrase at the front of a list of tokens is determined by them.** -/
theorem Grammatical.unique (hp : Grammatical p) : ∀ {q : Phrase}, Grammatical q →
    ∀ {r s : List Token}, p.tokens ++ r = q.tokens ++ s → p = q ∧ r = s := by
  -- By induction on one phrase; the first two tokens rule out all forms of the other but its own.
  induction hp with
  | @atom t e ha =>
    intro q hq r s h
    cases hq with
    | atom ha' =>
      obtain ⟨rfl, rfl⟩ := List.cons.inj h
      exact ⟨by rw [ha.unique ha'], rfl⟩
    | call ho _ _ _ => exact absurd ((List.cons.inj h).1 ▸ ho) ha.not_paren.1
    | cond ho _ _ _ _ _ => exact absurd ((List.cons.inj h).1 ▸ ho) ha.not_paren.1
    | fn ho _ _ _ _ _ _ => exact absurd ((List.cons.inj h).1 ▸ ho) ha.not_paren.1
    | define ho _ _ _ _ => exact absurd ((List.cons.inj h).1 ▸ ho) ha.not_paren.1
  | call ho hc hhead hitems ih =>
    intro q hq r s h
    cases hq with
    | atom ha => exact absurd ((List.cons.inj h).1 ▸ ho) ha.not_paren.1
    | call ho' hc' _ hitems' =>
      simp only [tokens, List.cons_append, List.append_assoc, List.nil_append, List.cons.injEq] at h
      obtain ⟨rfl, hrest⟩ := h
      obtain ⟨rfl, rfl, rfl⟩ := parts_unique hc hc' hitems hitems' ih hrest
      exact ⟨rfl, rfl⟩
    | cond ho' hw _ _ _ _ => exact absurd (.inl hw) (not_special_of_call hhead hc h)
    | fn ho' hw _ _ _ _ _ => exact absurd (.inr (.inl hw)) (not_special_of_call hhead hc h)
    | define ho' hw _ _ _ => exact absurd (.inr (.inr hw)) (not_special_of_call hhead hc h)
  | cond ho hw hc _ _ hparts ih =>
    intro q hq r s h
    cases hq with
    | atom ha => exact absurd ((List.cons.inj h).1 ▸ ho) ha.not_paren.1
    | call ho' hc' hhead _ => exact absurd (.inl hw) (not_special_of_call hhead hc' h.symm)
    | cond ho' hw' hc' _ _ hparts' =>
      simp only [tokens, List.cons_append, List.append_assoc, List.nil_append, List.cons.injEq] at h
      obtain ⟨rfl, rfl, hrest⟩ := h
      obtain ⟨rfl, rfl, rfl⟩ := parts_unique hc hc' hparts hparts' ih hrest
      exact ⟨rfl, rfl⟩
    | fn ho' hw' _ _ _ _ _ => exact absurd (word_unique hw hw' h) (by decide)
    | define ho' hw' _ _ _ => exact absurd (word_unique hw hw' h) (by decide)
  | fn ho hw hpo hparams hpc hc hbody ih =>
    intro q hq r s h
    cases hq with
    | atom ha => exact absurd ((List.cons.inj h).1 ▸ ho) ha.not_paren.1
    | call ho' hc' hhead _ => exact absurd (.inr (.inl hw)) (not_special_of_call hhead hc' h.symm)
    | cond ho' hw' hc' _ _ _ => exact absurd (word_unique hw hw' h) (by decide)
    | fn ho' hw' hpo' hparams' hpc' hc' hbody' =>
      simp only [tokens, List.cons_append, List.append_assoc, List.nil_append, List.cons.injEq] at h
      obtain ⟨rfl, rfl, rfl, htail⟩ := h
      obtain ⟨rfl, rfl, hrest⟩ := params_unique hpc hpc' hparams hparams' htail
      obtain ⟨rfl, rfl, rfl⟩ := parts_unique hc hc' hbody hbody' ih hrest
      exact ⟨rfl, rfl⟩
    | define ho' hw' _ _ _ => exact absurd (word_unique hw hw' h) (by decide)
  | define ho hw hn hc hv ih =>
    intro q hq r s h
    cases hq with
    | atom ha => exact absurd ((List.cons.inj h).1 ▸ ho) ha.not_paren.1
    | call ho' hc' hhead _ => exact absurd (.inr (.inr hw)) (not_special_of_call hhead hc' h.symm)
    | cond ho' hw' hc' _ _ _ => exact absurd (word_unique hw hw' h) (by decide)
    | fn ho' hw' _ _ _ _ _ => exact absurd (word_unique hw hw' h) (by decide)
    | define ho' hw' hn' hc' hv' =>
      simp only [tokens, List.cons_append, List.append_assoc, List.nil_append, List.cons.injEq] at h
      obtain ⟨rfl, rfl, rfl, htail⟩ := h
      obtain ⟨rfl, hrest⟩ := ih hv' htail
      obtain ⟨rfl, rfl⟩ := List.cons.inj hrest
      exact ⟨rfl, rfl⟩

/-- **The grammar is unambiguous**: a list of tokens is spelled by one list of phrases at most. -/
theorem tokensAll_inj (hps : ∀ p ∈ ps, Grammatical p) (hqs : ∀ q ∈ qs, Grammatical q)
    (h : tokensAll ps = tokensAll qs) : ps = qs :=
  (tokensAll_unique (r := []) (s := []) stops_nil stops_nil hps hqs (fun p hp => (hps p hp).unique) (by rw [h])).1

end Phrase

end MiniLisp
