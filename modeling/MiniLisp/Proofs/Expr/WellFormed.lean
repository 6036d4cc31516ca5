import MiniLisp.Expr.Code
import MiniLisp.Proofs.Program.Derive
/-!
# WellFormed — the expressions that can be written

An expression is well-formed if its text stands for it: names are identifiers, numbers are finite, strings hold
nothing that would end them, and no call begins with the word of a special form.  Positions play no part.  Parsing
makes nothing else (`wellFormed_of_parse`).
-/
namespace MiniLisp

open Lexeme (Starts)
open Phrase (Grammatical tokensAll exprs)

namespace Expr

/-- A name that an expression can have: an identifier that is not a literal. -/
def Name (name : String) : Prop :=
  Word .ident name.toList ∧ name ≠ "nil" ∧ name ≠ "true" ∧ name ≠ "false"

/-- The expression is the word of a special form. -/
def SpecialWord (e : Expr) : Prop := ∃ name pos, e = .ident name pos ∧ (name = "if" ∨ name = "fn" ∨ name = "let")

/-- **The expressions that can be written.** -/
inductive WellFormed : Expr → Prop
  | ident {name : String} {pos : Position} : Name name → WellFormed (.ident name pos)
  | number {x : Float} {pos : Position} : Number.isFinite x = true → WellFormed (.number x pos)
  | string {text : String} {pos : Position} : '"' ∉ text.toList → '\n' ∉ text.toList → '\x00' ∉ text.toList →
      WellFormed (.string text pos)
  | bool {b : Bool} {pos : Position} : WellFormed (.bool b pos)
  | nil {pos : Position} : WellFormed (.nil pos)
  | operator {op : Operator} {pos : Position} : WellFormed (.operator op pos)
  | call {items : List Expr} {pos : Position} : (∀ e ∈ items.head?, ¬e.SpecialWord) →
      (∀ e ∈ items, WellFormed e) → WellFormed (.call items pos)
  | cond {test yes no : Expr} {pos : Position} : WellFormed test → WellFormed yes → WellFormed no →
      WellFormed (.cond test yes no pos)
  | fn {params : List String} {body : List Expr} {pos : Position} : (∀ p ∈ params, Word .ident p.toList) →
      (∀ e ∈ body, WellFormed e) → WellFormed (.fn params body pos)
  | define {name : String} {namePos : Position} {value : Expr} {pos : Position} : Name name → WellFormed value →
      WellFormed (.define name namePos value pos)

mutual

/-- How many forms of an expression are open at once where it is written. -/
def height : Expr → Nat
  | .ident _ _ | .number _ _ | .string _ _ | .bool _ _ | .nil _ | .operator _ _ => 0
  | .call items _ => heightAll items + 1
  | .cond test yes no _ => max (height test) (max (height yes) (height no)) + 1
  | .fn _ body _ => heightAll body + 1
  | .define _ _ value _ => height value + 1

def heightAll : List Expr → Nat
  | [] => 0
  | e :: es => max (height e) (heightAll es)

end

theorem heightAll_le {n : Nat} : ∀ {es : List Expr}, heightAll es ≤ n ↔ ∀ e ∈ es, e.height ≤ n
  | [] => by simp [heightAll]
  | e :: es => by rw [heightAll, Nat.max_le, heightAll_le, List.forall_mem_cons]

/-! ## Positions -/

theorem mapPosAll_eq (f : Position → Position) : ∀ es : List Expr, mapPosAll f es = es.map (mapPos f)
  | [] => rfl
  | e :: es => by rw [mapPosAll, mapPosAll_eq f es, List.map_cons]

theorem mem_of_map_erase {es es' : List Expr} (h : es'.map erase = es.map erase) :
    ∀ e ∈ es, ∃ e' ∈ es', e'.erase = e.erase := by
  intro e he
  have hmem : e.erase ∈ es'.map erase := by
    rw [h]
    exact List.mem_map_of_mem he
  exact List.mem_map.1 hmem

theorem SpecialWord.of_erase {e e' : Expr} (h : e.SpecialWord) (he : e'.erase = e.erase) : e'.SpecialWord := by
  obtain ⟨name, pos, rfl, hn⟩ := h
  cases e' with
  | ident name' pos' =>
    obtain rfl : name' = name := (Expr.ident.inj he).1
    exact ⟨_, _, rfl, hn⟩
  | _ => cases he

/-- **Expressions that differ in positions only are well-formed together.** -/
theorem WellFormed.of_erase {e' : Expr} (h : e'.WellFormed) : ∀ {e : Expr}, e'.erase = e.erase → e.WellFormed := by
  induction h with
  | ident hn =>
    intro e he
    cases e with
    | ident _ _ =>
      obtain ⟨rfl, -⟩ := Expr.ident.inj he
      exact .ident hn
    | _ => cases he
  | number hx =>
    intro e he
    cases e with
    | number _ _ =>
      obtain ⟨rfl, -⟩ := Expr.number.inj he
      exact .number hx
    | _ => cases he
  | string hq hn hz =>
    intro e he
    cases e with
    | string _ _ =>
      obtain ⟨rfl, -⟩ := Expr.string.inj he
      exact .string hq hn hz
    | _ => cases he
  | bool =>
    intro e he
    cases e with
    | bool _ _ => exact .bool
    | _ => cases he
  | nil =>
    intro e he
    cases e with
    | nil _ => exact .nil
    | _ => cases he
  | operator =>
    intro e he
    cases e with
    | operator _ _ => exact .operator
    | _ => cases he
  | @call items _ hhead _ ih =>
    intro e he
    cases e with
    | call items' _ =>
      obtain ⟨hitems, -⟩ := Expr.call.inj he
      rw [mapPosAll_eq, mapPosAll_eq] at hitems
      refine .call (fun e₁ he₁ hs => ?_) fun e₁ he₁ => ?_
      · have hfirst : (items.map erase).head? = (items'.map erase).head? := congrArg List.head? hitems
        rw [List.head?_map, List.head?_map, Option.mem_def.1 he₁] at hfirst
        obtain ⟨e₂, he₂, heq⟩ := Option.map_eq_some_iff.1 hfirst
        exact hhead e₂ he₂ (hs.of_erase heq)
      · obtain ⟨e₂, he₂, heq⟩ := mem_of_map_erase hitems e₁ he₁
        exact ih e₂ he₂ heq
    | _ => cases he
  | cond _ _ _ iht ihy ihn =>
    intro e he
    cases e with
    | cond _ _ _ _ =>
      obtain ⟨ht, hy, hn, -⟩ := Expr.cond.inj he
      exact .cond (iht ht) (ihy hy) (ihn hn)
    | _ => cases he
  | fn hparams _ ih =>
    intro e he
    cases e with
    | fn _ body' _ =>
      obtain ⟨rfl, hbody, -⟩ := Expr.fn.inj he
      rw [mapPosAll_eq, mapPosAll_eq] at hbody
      refine .fn hparams fun e₁ he₁ => ?_
      obtain ⟨e₂, he₂, heq⟩ := mem_of_map_erase hbody e₁ he₁
      exact ih e₂ he₂ heq
    | _ => cases he
  | define hn _ ih =>
    intro e he
    cases e with
    | define _ _ _ _ =>
      obtain ⟨rfl, -, hvalue, -⟩ := Expr.define.inj he
      exact .define hn (ih hvalue)
    | _ => cases he

end Expr

/-! ## What is parsed -/

/-- The text of a token is one that a token of its kind can have, and holds no NUL. -/
def Token.Written (t : Token) : Prop :=
  ∃ cs rest, t.text = String.ofList cs ∧ Starts (cs ++ rest) ⟨t.kind, cs⟩ ∧ '\x00' ∉ cs

namespace Token.Written

variable {t : Token}

theorem word (h : t.Written) (hk : t.kind = .ident) : Word .ident t.text.toList := by
  obtain ⟨cs, rest, htext, hs, -⟩ := h
  rw [htext, String.toList_ofList]
  exact hs.ident_word hk

/-- A string literal ends at the first quote, and lies in one row. -/
theorem not_mem_body (h : t.Written) (hk : t.kind = .string) {body : List Char}
    (hbody : t.text.toList = '"' :: (body ++ ['"'])) :
    '"' ∉ body ∧ '\n' ∉ body ∧ '\x00' ∉ body := by
  obtain ⟨cs, rest, htext, hs, hz⟩ := h
  obtain ⟨body', rfl, hq, hn⟩ : ∃ body, cs = '"' :: body ++ ['"'] ∧ '"' ∉ body ∧ '\n' ∉ body := hs.string_text hk
  rw [htext, String.toList_ofList, List.cons_append, List.cons.injEq, List.append_left_inj] at hbody
  obtain rfl := hbody.2
  exact ⟨hq, hn, fun hm => hz (by simp [hm])⟩

end Token.Written

theorem Token.IsName.name {t : Token} (h : t.IsName) (hw : t.Written) : Expr.Name t.text :=
  ⟨hw.word h.1, h.2⟩

theorem Atom.wellFormed {t : Token} {e : Expr} (h : Atom t e) (hw : t.Written) : e.WellFormed := by
  cases h with
  | nil => exact .nil
  | true => exact .bool
  | false => exact .bool
  | ident hn => exact .ident (hn.name hw)
  | operator => exact .operator
  | number _ hf => exact .number hf
  | string htext =>
    obtain ⟨hq, hn, hz⟩ := hw.not_mem_body rfl htext
    exact .string hq hn hz

theorem Phrase.mem_exprs {e : Expr} : ∀ {ps : List Phrase}, e ∈ exprs ps → ∃ q ∈ ps, q.expr = e
  | q :: ps, h => by
    rcases List.mem_cons.1 h with rfl | h
    · exact ⟨q, List.mem_cons_self, rfl⟩
    · obtain ⟨q', hq', rfl⟩ := mem_exprs h
      exact ⟨q', List.mem_cons_of_mem _ hq', rfl⟩

theorem Phrase.tokens_subset : ∀ {ps : List Phrase} {q : Phrase}, q ∈ ps → q.tokens ⊆ tokensAll ps
  | p :: ps, q, h => by
    rcases List.mem_cons.1 h with rfl | h
    · exact List.subset_append_left _ _
    · exact List.Subset.trans (tokens_subset h) (List.subset_append_right _ _)

theorem Phrase.wellFormed_branches (start : Position) {es : List Expr} (h : ∀ e ∈ es, e.WellFormed) :
    (branches start es).WellFormed := by
  have hpart : ∀ i, (es.getD i (.nil start)).WellFormed := by
    intro i
    rw [List.getD_eq_getElem?_getD]
    cases hi : es[i]? with
    | none => exact .nil
    | some e => exact h e (List.mem_of_getElem? hi)
  exact .cond (hpart 0) (hpart 1) (hpart 2)

/-- **A phrase stands for a well-formed expression.** -/
theorem Phrase.Grammatical.wellFormed {q : Phrase} (hq : Grammatical q) :
    (∀ t ∈ q.tokens, t.Written) → q.expr.WellFormed := by
  induction hq with
  | atom ha =>
    intro hw
    exact ha.wellFormed (hw _ (List.mem_singleton.2 rfl))
  | @call opening closing items ho hc hhead hitems ih =>
    intro hw
    refine .call (fun e he hs => ?_) fun e he => ?_
    · obtain ⟨name, pos, rfl, hname⟩ := hs
      cases items with
      | nil => cases he
      | cons q qs =>
        have hq : q.expr = .ident name pos := Option.some.inj he
        obtain ⟨t, hn, rfl, -, hts⟩ := (hitems q List.mem_cons_self).exists_name hq
        refine hhead t (by rw [tokensAll, hts]; rfl) ?_
        rcases hname with h | h | h
        · exact .inl ⟨hn.1, h⟩
        · exact .inr (.inl ⟨hn.1, h⟩)
        · exact .inr (.inr ⟨hn.1, h⟩)
    · obtain ⟨q, hq, rfl⟩ := mem_exprs he
      exact ih q hq fun t ht => hw t (by simp [tokens, tokens_subset hq ht])
  | @cond opening word closing parts ho hword hc _ _ hparts ih =>
    intro hw
    refine wellFormed_branches _ fun e he => ?_
    obtain ⟨q, hq, rfl⟩ := mem_exprs he
    exact ih q hq fun t ht => hw t (by simp [tokens, tokens_subset hq ht])
  | @fn opening word paramsOpening paramsClosing closing params body ho hword hpo hparams hpc hc hbody ih =>
    intro hw
    refine .fn (fun p hp => ?_) fun e he => ?_
    · obtain ⟨t, ht, rfl⟩ := List.mem_map.1 hp
      exact (hw t (by simp [tokens, ht])).word (hparams t ht)
    · obtain ⟨q, hq, rfl⟩ := mem_exprs he
      exact ih q hq fun t ht => hw t (by simp [tokens, tokens_subset hq ht])
  | define ho hword hn hc hv ih =>
    intro hw
    exact .define (hn.name (hw _ (by simp [tokens]))) (ih fun t ht => hw t (by simp [tokens, ht]))

/-- **The expression of a phrase is no higher than the phrase is deep.** -/
theorem Phrase.Grammatical.height_le {q : Phrase} (hq : Grammatical q) : q.expr.height ≤ q.depth := by
  have hall : ∀ {qs : List Phrase}, (∀ q ∈ qs, q.expr.height ≤ q.depth) → ∀ e ∈ exprs qs, e.height ≤ depthAll qs := by
    intro qs h e he
    obtain ⟨q, hq, rfl⟩ := mem_exprs he
    exact Nat.le_trans (h q hq) (depthAll_le.1 (Nat.le_refl _) q hq)
  induction hq with
  | atom ha => cases ha <;> exact Nat.le_refl 0
  | call _ _ _ _ ih => exact Nat.succ_le_succ (Expr.heightAll_le.2 (hall ih))
  | @cond opening _ _ parts _ _ _ _ _ _ ih =>
    have hpart : ∀ i, ((exprs parts).getD i (.nil opening.pos)).height ≤ depthAll parts := by
      intro i
      rw [List.getD_eq_getElem?_getD]
      cases hi : (exprs parts)[i]? with
      | none => exact Nat.zero_le _
      | some e => exact hall ih e (List.mem_of_getElem? hi)
    exact Nat.succ_le_succ (Nat.max_le.2 ⟨hpart 0, Nat.max_le.2 ⟨hpart 1, hpart 2⟩⟩)
  | fn _ _ _ _ _ _ _ ih => exact Nat.succ_le_succ (Expr.heightAll_le.2 (hall ih))
  | define _ _ _ _ _ ih => exact Nat.succ_le_succ ih

theorem Program.height_le_of_parse {limit : Nat} {source text : String} {es : List Expr}
    (h : Program.parse limit source text = .ok es) : ∀ e ∈ es, e.height ≤ limit := by
  obtain ⟨qs, hqs, -, rfl⟩ := exists_phrases_of_parse h
  intro e he
  obtain ⟨q, hq, rfl⟩ := Phrase.mem_exprs he
  exact Nat.le_trans (hqs q hq).grammatical.height_le (hqs q hq).depth_le

/-- **What a source is parsed to is well-formed.** -/
theorem Program.wellFormed_of_parse {limit : Nat} {source text : String} {es : List Expr}
    (h : Program.parse limit source text = .ok es) : ∀ e ∈ es, e.WellFormed := by
  obtain ⟨qs, hqs, hts, rfl⟩ := exists_phrases_of_parse h
  intro e he
  obtain ⟨q, hq, rfl⟩ := Phrase.mem_exprs he
  refine (hqs q hq).grammatical.wellFormed fun t ht => ?_
  have hmem : t ∈ (TokenReader.ofText source text.toList).drain.1 := hts ▸ Phrase.tokens_subset hq ht
  obtain ⟨cs, rest, htext, hs, hsuffix⟩ := TokenReader.starts_of_mem_drain hmem
  refine ⟨cs, rest, htext, hs, fun hz => ?_⟩
  exact Scanner.not_mem_permitted _ (hsuffix.subset (List.mem_append_left _ hz))

end MiniLisp
