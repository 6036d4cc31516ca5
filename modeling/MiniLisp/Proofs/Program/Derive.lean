import MiniLisp.Proofs.Program.Accept
import MiniLisp.Proofs.Token.Lexing
/-!
# Derive — what the parser has read

At every moment the tokens behind the parser are finished phrases, followed by the beginnings of the forms that are
open (`Program.Read`).  Every step keeps this, so a program that is parsed is spelled by phrases (`exists_phrases`).
Together with the other direction: a source is parsed to exactly the expressions that its tokens derive.
-/
namespace MiniLisp

open Phrase (Grammatical tokensAll exprs depthAll tokensAll_concat reverse_exprs_concat)

/-! ## Phrases that fit -/

namespace Phrase

/-- A phrase of the language with at most `n` forms open at once. -/
structure Fits (n : Nat) (q : Phrase) : Prop where
  grammatical : Grammatical q
  depth_le : q.depth ≤ n

variable {n : Nat} {q : Phrase} {ps : List Phrase}

theorem fits_concat (hps : ∀ q ∈ ps, q.Fits n) (hq : q.Fits n) : ∀ q' ∈ ps ++ [q], q'.Fits n :=
  List.forall_mem_append.2 ⟨hps, List.forall_mem_singleton.2 hq⟩

theorem grammatical_of_fits (h : ∀ q ∈ ps, q.Fits n) : ∀ q ∈ ps, Grammatical q := fun q hq => (h q hq).grammatical

theorem depthAll_of_fits (h : ∀ q ∈ ps, q.Fits n) : depthAll ps ≤ n := depthAll_le.2 fun q hq => (h q hq).depth_le

end Phrase

open Phrase (fits_concat grammatical_of_fits depthAll_of_fits)

/-! ## Open forms -/

namespace Form

/-- **What has been read of an open form**, with at most `n` forms open inside of it. -/
inductive Read (n : Nat) : Form → List Token → Prop
  | opened {opening : Token} : opening.kind = .openParen → Read n (.opened opening.pos) [opening]
  | call {opening : Token} {items : List Phrase} : opening.kind = .openParen → items ≠ [] →
      (∀ t ∈ (tokensAll items).head?, ¬t.Special) → (∀ q ∈ items, q.Fits n) →
      Read n ⟨opening.pos, .call, (exprs items).reverse⟩ (opening :: tokensAll items)
  | cond {opening word : Token} {parts : List Phrase} : opening.kind = .openParen → word.IsWord "if" →
      (∀ q ∈ parts, q.Fits n) →
      Read n ⟨opening.pos, .cond word, (exprs parts).reverse⟩ (opening :: word :: tokensAll parts)
  | define {opening word : Token} {parts : List Phrase} : opening.kind = .openParen → word.IsWord "let" →
      (∀ q ∈ parts, q.Fits n) →
      Read n ⟨opening.pos, .define word, (exprs parts).reverse⟩ (opening :: word :: tokensAll parts)
  | fnHead {opening word : Token} : opening.kind = .openParen → word.IsWord "fn" →
      Read n ⟨opening.pos, .fnHead, []⟩ [opening, word]
  | fnParams {opening word paramsOpening : Token} {params : List Token} : opening.kind = .openParen →
      word.IsWord "fn" → paramsOpening.kind = .openParen → (∀ t ∈ params, t.kind = .ident) →
      Read n ⟨opening.pos, .fnParams (params.map Token.text), []⟩ (opening :: word :: paramsOpening :: params)
  | fnBody {opening word paramsOpening paramsClosing : Token} {params : List Token} {body : List Phrase} :
      opening.kind = .openParen → word.IsWord "fn" → paramsOpening.kind = .openParen →
      (∀ t ∈ params, t.kind = .ident) → paramsClosing.kind = .closeParen → (∀ q ∈ body, q.Fits n) →
      Read n ⟨opening.pos, .fnBody (params.map Token.text), (exprs body).reverse⟩
        (opening :: word :: paramsOpening :: (params ++ paramsClosing :: tokensAll body))

variable {n : Nat} {f : Form} {us : List Token} {q : Phrase} {t : Token}

theorem Read.exists_opening (h : Read n f us) : ∃ opening vs, us = opening :: vs := by
  cases h <;> exact ⟨_, _, rfl⟩

theorem Read.add (h : Read n f us) (hq : q.Fits n) (hr : ∀ t ∈ q.tokens.head?, f.Ready t) :
    Read n (f.add q.expr) (us ++ q.tokens) := by
  obtain ⟨t, ts, ht, -, -⟩ := hq.grammatical.exists_first
  have hready : f.Ready t := hr t (by rw [ht]; rfl)
  cases h with
  | @opened opening ho =>
    have hhead : ∀ u ∈ (tokensAll [q]).head?, ¬u.Special := by
      rw [tokensAll, tokensAll, List.append_nil, ht]
      rintro u ⟨⟩
      exact hready
    have := Read.call (n := n) ho (List.cons_ne_nil q []) hhead (by simpa using hq)
    rw [tokensAll, tokensAll, List.append_nil] at this
    exact this
  | @call opening items ho hne hhead hitems =>
    have hhead' : ∀ u ∈ (tokensAll (items ++ [q])).head?, ¬u.Special := by
      rw [tokensAll_concat, List.head?_append_of_ne_nil _ (Phrase.tokensAll_ne_nil hne (grammatical_of_fits hitems))]
      exact hhead
    have := Read.call ho (by simp) hhead' (fits_concat hitems hq)
    rw [tokensAll_concat, reverse_exprs_concat] at this
    exact this
  | cond ho hw hparts =>
    have := Read.cond ho hw (fits_concat hparts hq)
    rw [tokensAll_concat, reverse_exprs_concat] at this
    exact this
  | define ho hw hparts =>
    have := Read.define ho hw (fits_concat hparts hq)
    rw [tokensAll_concat, reverse_exprs_concat] at this
    exact this
  | fnHead _ _ => exact hready.elim
  | fnParams _ _ _ _ => exact hready.elim
  | fnBody ho hw hpo hparams hpc hbody =>
    have := Read.fnBody ho hw hpo hparams hpc (fits_concat hbody hq)
    rw [tokensAll_concat, reverse_exprs_concat] at this
    rw [List.cons_append, List.cons_append, List.cons_append, List.append_assoc, List.cons_append]
    exact this

theorem branches_of_closeCond {start : Position} {head : Token} {e : Expr} : ∀ {es : List Expr},
    closeCond start head es = .ok e → 1 ≤ es.length ∧ es.length ≤ 3 ∧ Phrase.branches start es = e
  | [], h => nomatch h
  | [_], h => ⟨by simp, by simp, Except.ok.inj h⟩
  | [_, _], h => ⟨by simp, by simp, Except.ok.inj h⟩
  | [_, _, _], h => ⟨by simp, by simp, Except.ok.inj h⟩
  | _ :: _ :: _ :: _ :: _, h => nomatch h

theorem exists_of_closeDefine {start : Position} {head : Token} {e : Expr} {es : List Expr}
    (h : closeDefine start head es = .ok e) :
    ∃ name namePos value, es = [.ident name namePos, value] ∧ e = .define name namePos value start := by
  unfold closeDefine at h
  split at h
  · exact ⟨_, _, _, rfl, (Except.ok.inj h).symm⟩
  · cases h
  · cases h

theorem Read.of_word {opening : Token} {shape : Shape} (ho : opening.kind = .openParen)
    (h : shapeOfWord? t = some shape) : Read n ⟨opening.pos, shape, []⟩ [opening, t] := by
  have hs : t.Special := by
    by_contra hs
    rw [shapeOfWord?_none.2 hs] at h
    cases h
  rcases hs with hw | hw | hw
  · rw [shapeOfWord?_cond hw] at h
    obtain rfl := Option.some.inj h
    exact @Read.cond _ _ _ [] ho hw nofun
  · rw [shapeOfWord?_fn hw] at h
    obtain rfl := Option.some.inj h
    exact .fnHead ho hw
  · rw [shapeOfWord?_define hw] at h
    obtain rfl := Option.some.inj h
    exact @Read.define _ _ _ [] ho hw nofun

theorem Read.param {start : Position} {names : List String} {behind : Option Forbidden} {f' : Form}
    (h : Read n ⟨start, .fnParams names, []⟩ us)
    (hp : Program.param behind ⟨start, .fnParams names, []⟩ names t = .ok f') : Read n f' (us ++ [t]) := by
  cases h with
  | @fnParams opening word paramsOpening params ho hw hpo hparams =>
    unfold Program.param at hp
    cases hk : t.kind with
    | ident =>
      rw [hk] at hp
      obtain rfl := Except.ok.inj hp
      have hparams' : ∀ u ∈ params ++ [t], u.kind = .ident :=
        List.forall_mem_append.2 ⟨hparams, List.forall_mem_singleton.2 hk⟩
      have hf := Read.fnParams (n := n) ho hw hpo hparams'
      rw [List.map_append] at hf
      exact hf
    | closeParen =>
      rw [hk] at hp
      obtain rfl := Except.ok.inj hp
      exact @Read.fnBody _ _ _ _ _ _ [] ho hw hpo hparams hk nofun
    | _ =>
      rw [hk] at hp
      cases hp

/-- **A form that is closed has been read as a phrase.** -/
theorem Read.close {e : Expr} (h : Read n f us) (ht : t.kind = .closeParen) (hr : f.Ready t) (hc : f.close = .ok e) :
    ∃ q : Phrase, q.Fits (n + 1) ∧ q.expr = e ∧ q.tokens = us ++ [t] := by
  cases h with
  | @opened opening ho =>
    obtain rfl := Except.ok.inj hc
    exact ⟨.call opening [] t, ⟨.call ho ht nofun nofun, by simp [Phrase.depth, depthAll]⟩, rfl, rfl⟩
  | @call opening items ho hne hhead hitems =>
    simp only [Form.close, List.reverse_reverse] at hc
    obtain rfl := Except.ok.inj hc
    refine ⟨.call opening items t, ⟨.call ho ht hhead (grammatical_of_fits hitems), ?_⟩, rfl, rfl⟩
    exact Nat.succ_le_succ (depthAll_of_fits hitems)
  | @cond opening word parts ho hw hparts =>
    simp only [Form.close, List.reverse_reverse] at hc
    obtain ⟨hmin, hmax, rfl⟩ := branches_of_closeCond hc
    rw [Phrase.length_exprs] at hmin hmax
    refine ⟨.cond opening word parts t,
      ⟨.cond ho hw ht hmin hmax (grammatical_of_fits hparts), ?_⟩, rfl, rfl⟩
    exact Nat.succ_le_succ (depthAll_of_fits hparts)
  | @define opening word parts ho hw hparts =>
    simp only [Form.close, List.reverse_reverse] at hc
    obtain ⟨name, namePos, value, hparts', rfl⟩ := exists_of_closeDefine hc
    obtain ⟨q₁, q₂, rfl, he₁, rfl⟩ := Phrase.exists_pair_of_exprs hparts'
    have hq₂ : q₂.Fits n := hparts q₂ (by simp)
    obtain ⟨nameToken, hn, rfl, rfl, hts⟩ := (hparts q₁ (by simp)).grammatical.exists_name he₁
    refine ⟨.define opening word nameToken q₂ t,
      ⟨.define ho hw hn ht hq₂.grammatical, Nat.succ_le_succ hq₂.depth_le⟩, rfl, ?_⟩
    simp [Phrase.tokens, tokensAll, hts]
  | fnHead _ _ => exact hr.elim
  | fnParams _ _ _ _ => exact hr.elim
  | @fnBody opening word paramsOpening paramsClosing params body ho hw hpo hparams hpc hbody =>
    simp only [Form.close, List.reverse_reverse] at hc
    obtain rfl := Except.ok.inj hc
    refine ⟨.fn opening word paramsOpening params paramsClosing body t,
      ⟨.fn ho hw hpo hparams hpc ht (grammatical_of_fits hbody), ?_⟩, rfl, by simp [Phrase.tokens]⟩
    exact Nat.succ_le_succ (depthAll_of_fits hbody)

end Form

/-! ## Programs -/

namespace Program

/-- **What has been read of a program**: phrases, and the beginning of each form that is open.  The innermost form
stands where an expression may stand. -/
inductive Read (limit : Nat) : Program → List Token → Prop
  | top {qs : List Phrase} : (∀ q ∈ qs, q.Fits limit) → Read limit ⟨(exprs qs).reverse, []⟩ (tokensAll qs)
  | inside {p : Program} {ts us : List Token} {f : Form} : Read limit p ts → p.forms.length < limit →
      (∀ t ∈ us.head?, p.Ready t) → f.Read (limit - (p.forms.length + 1)) us →
      Read limit ⟨p.finished, f :: p.settled⟩ (ts ++ us)

variable {limit : Nat} {ending : Ending} {behind : Option Forbidden} {p p' : Program} {t : Token} {ts : List Token}

theorem Read.add {q : Phrase} (h : Read limit p ts) (hq : q.Fits (limit - p.forms.length))
    (hr : ∀ t ∈ q.tokens.head?, p.Ready t) : Read limit (p.add q.expr) (ts ++ q.tokens) := by
  cases h with
  | @top qs hqs =>
    have : Read limit ⟨(exprs (qs ++ [q])).reverse, []⟩ _ := .top (fits_concat hqs hq)
    rw [tokensAll_concat, reverse_exprs_concat] at this
    exact this
  | @inside p ts us f hp hl hopen hf =>
    have hq' : q.Fits (limit - (p.forms.length + 1)) := by simpa [length_settled] using hq
    have hf' := hf.add hq' fun u hu => hr u hu f rfl
    have hopen' : ∀ u ∈ (us ++ q.tokens).head?, p.Ready u := by
      obtain ⟨opening, vs, rfl⟩ := hf.exists_opening
      exact hopen
    rw [List.append_assoc]
    exact .inside hp hl hopen' hf'

/-- A token that stands where an expression may stand. -/
theorem Read.item (h : Read limit p ts) (hquoted : t.Quoted) (hr : p.Ready t) (hi : p.item limit behind t = .ok p') :
    Read limit p' (ts ++ [t]) := by
  by_cases hopen : t.kind = .openParen
  · simp only [Program.item, hopen, openForm] at hi
    by_cases hl : p.forms.length < limit
    · rw [if_pos hl] at hi
      obtain rfl := Except.ok.inj hi
      exact .inside h hl (by rintro u ⟨⟩; exact hr) (.opened hopen)
    · rw [if_neg hl] at hi
      cases hi
  · by_cases hclose : t.kind = .closeParen
    · simp only [Program.item, hclose, closeForm] at hi
      cases h with
      | top _ => cases hi
      | @inside p ts us f hp hl hready hf =>
        cases he : f.close with
        | error cause => simp [he, Except.map] at hi
        | ok e =>
          simp only [he, Except.map] at hi
          obtain rfl := Except.ok.inj hi
          obtain ⟨q, hq, rfl, hts⟩ := hf.close hclose (hr f rfl) he
          -- The form that is closed is one level of the phrase that it has become.
          have hq' : q.Fits (limit - p.forms.length) := by
            rwa [show limit - p.forms.length = limit - (p.forms.length + 1) + 1 by omega]
          obtain ⟨opening, vs, rfl⟩ := hf.exists_opening
          rw [add_settled, List.append_assoc, ← hts]
          exact hp.add hq' (by rw [hts]; exact hready)
    · obtain ⟨e, rfl, ha⟩ := atom_of_item hi hopen hclose
      have hq : (Phrase.atom t e).Fits (limit - p.forms.length) := ⟨.atom (ha hquoted), Nat.zero_le _⟩
      exact h.add hq (by rintro u ⟨⟩; exact hr)

/-- **Every step keeps what has been read.** -/
theorem Read.step (h : Read limit p ts) (hquoted : t.Quoted) (hs : p.step limit behind t = .ok p') :
    Read limit p' (ts ++ [t]) := by
  by_cases hr : p.Ready t
  · rw [step_of_ready hr] at hs
    exact h.item hquoted hr hs
  cases h with
  | top _ => exact absurd nofun hr
  | @inside p ts us f hp hl hready hf =>
    have hrf : ¬f.Ready t := fun h => hr (by rintro g ⟨⟩; exact h)
    rw [List.append_assoc]
    cases hf with
    | @opened opening ho =>
      have hword : t.Special := not_not.1 hrf
      cases hshape : Form.shapeOfWord? t with
      | none => exact absurd hword (Form.shapeOfWord?_none.1 hshape)
      | some shape =>
        simp only [Program.step, Form.opened, hshape] at hs
        obtain rfl := Except.ok.inj hs
        exact .inside hp hl hready (.of_word ho hshape)
    | fnHead ho hw =>
      simp only [Program.step] at hs
      by_cases hpo : t.kind = .openParen
      · rw [if_pos hpo] at hs
        obtain rfl := Except.ok.inj hs
        exact .inside hp hl hready (@Form.Read.fnParams _ _ _ _ [] ho hw hpo (List.forall_mem_nil _))
      · rw [if_neg hpo] at hs
        cases hs
    | @fnParams opening word paramsOpening params ho hw hpo hparams =>
      simp only [Program.step] at hs
      cases hparam : Program.param behind ⟨opening.pos, .fnParams (params.map Token.text), []⟩
          (params.map Token.text) t with
      | error cause =>
        rw [hparam] at hs
        cases hs
      | ok f' =>
        rw [hparam] at hs
        obtain rfl := Except.ok.inj hs
        exact .inside hp hl hready (Form.Read.param (.fnParams ho hw hpo hparams) hparam)
    | _ => exact absurd trivial hrf

theorem Read.exists_phrases {es : List Expr} : ∀ {us ts : List Token} {p : Program}, Read limit p ts →
    (∀ u ∈ us, u.Quoted) → steps limit ending p us = .ok es →
    ∃ qs : List Phrase, (∀ q ∈ qs, q.Fits limit) ∧ tokensAll qs = ts ++ us ∧ exprs qs = es
  | [], ts, p, h, _, hs => by
    rw [steps] at hs
    cases ending with
    | refused cause => cases hs
    | ended pos =>
      cases h with
      | @top qs hqs => exact ⟨qs, hqs, by simp, by simpa [finish] using hs⟩
      | inside _ _ _ _ => cases hs
  | t :: us, ts, p, h, hquoted, hs => by
    obtain ⟨ht, hus⟩ := List.forall_mem_cons.1 hquoted
    rw [steps] at hs
    cases hstep : p.step limit (if us.isEmpty then ending.refusal? else none) t with
    | error cause =>
      rw [hstep] at hs
      cases hs
    | ok p' =>
      rw [hstep] at hs
      obtain ⟨qs, hqs, hts, hes⟩ := (h.step ht hstep).exists_phrases hus hs
      exact ⟨qs, hqs, by simpa using hts, hes⟩

/-! ## Parsing -/

theorem quoted_of_mem_drain {source : String} {text : List Char} :
    ∀ t ∈ (TokenReader.ofText source text).drain.1, t.Quoted := by
  intro t ht hk
  obtain ⟨cs, rest, htext, hstarts, -⟩ := TokenReader.starts_of_mem_drain ht
  obtain ⟨body, hbody, -⟩ := hstarts.string_text hk
  exact ⟨body, by rw [htext, String.toList_ofList]; exact hbody⟩

/-- **What is parsed is spelled by phrases of the language**, whatever the source holds. -/
theorem exists_phrases_of_parse {source text : String} {es : List Expr} (h : parse limit source text = .ok es) :
    ∃ qs : List Phrase, (∀ q ∈ qs, q.Fits limit) ∧
      tokensAll qs = (TokenReader.ofText source text.toList).drain.1 ∧ exprs qs = es :=
  have hread : Read limit ⟨(exprs []).reverse, []⟩ (tokensAll []) := .top nofun
  hread.exists_phrases quoted_of_mem_drain h

theorem foldl_add_nil : ∀ es finished : List Expr, es.foldl Program.add ⟨finished, []⟩ = ⟨es.reverse ++ finished, []⟩
  | [], _ => rfl
  | e :: es, finished => by
    rw [List.foldl_cons, List.reverse_cons, List.append_assoc]
    exact foldl_add_nil es (e :: finished)

theorem steps_phrases {qs : List Phrase} (hqs : ∀ q ∈ qs, q.Fits limit) (pos : Position) :
    steps limit (.ended pos) empty (tokensAll qs) = .ok (exprs qs) := by
  have hd : empty.forms.length + depthAll qs ≤ limit := by simpa [empty] using depthAll_of_fits hqs
  have hready : ∀ t ∈ (tokensAll qs).head?, empty.Ready t := by
    intro t _ f hf
    cases hf
  have hsteps := @steps_tokensAll _ (.ended pos) _ _ (fun q hq => accepts (hqs q hq).grammatical)
    (grammatical_of_fits hqs) hready hd []
  rw [List.append_nil] at hsteps
  rw [hsteps, empty, foldl_add_nil]
  simp [steps, finish]

/-- A source without a NUL is parsed to the expressions of the phrases that spell its tokens. -/
theorem parse_of_phrases {source text : String} (h : '\x00' ∉ text.toList) {qs : List Phrase}
    (hqs : ∀ q ∈ qs, q.Fits limit) (hts : tokensAll qs = (TokenReader.ofText source text.toList).drain.1) :
    parse limit source text = .ok (exprs qs) := by
  obtain ⟨tokens, hl⟩ := exists_lexing source [] text.toList
  obtain ⟨pos, hd, -⟩ := TokenReader.drain_ofText h hl
  rw [parse, hd]
  obtain rfl : tokensAll qs = tokens := by rw [hts, hd]
  exact steps_phrases hqs pos

/-- **A source without a NUL is parsed exactly if phrases of the language spell its tokens, and to their expressions.**
There is one way at most to spell the tokens, and every phrase's expression stands where its first token does. -/
theorem parse_eq_ok_iff_phrases (limit : Nat) (source text : String) (h : '\x00' ∉ text.toList) :
    (∀ es, parse limit source text = .ok es ↔ ∃ qs : List Phrase, (∀ q ∈ qs, q.Fits limit) ∧
      tokensAll qs = (TokenReader.ofText source text.toList).drain.1 ∧ exprs qs = es) ∧
    (∀ qs qs' : List Phrase, (∀ q ∈ qs, Grammatical q) → (∀ q ∈ qs', Grammatical q) →
      tokensAll qs = (TokenReader.ofText source text.toList).drain.1 →
      tokensAll qs' = (TokenReader.ofText source text.toList).drain.1 → qs = qs') ∧
    (∀ q : Phrase, Grammatical q → ∃ t ts, q.tokens = t :: ts ∧ q.expr.pos = t.pos) ∧
    ((¬∃ qs : List Phrase, (∀ q ∈ qs, q.Fits limit) ∧
      tokensAll qs = (TokenReader.ofText source text.toList).drain.1) → ∃ e, parse limit source text = .error e) := by
  refine ⟨fun es => ⟨exists_phrases_of_parse, ?_⟩, fun qs qs' hqs hqs' hts hts' => ?_, fun q hq => ?_, fun hno => ?_⟩
  · rintro ⟨qs, hqs, hts, rfl⟩
    exact parse_of_phrases h hqs hts
  · exact Phrase.tokensAll_inj hqs hqs' (hts.trans hts'.symm)
  · obtain ⟨t, ts, hts, hpos, -⟩ := hq.exists_first
    exact ⟨t, ts, hts, hpos.symm⟩
  · cases hparse : parse limit source text with
    | error e => exact ⟨e, rfl⟩
    | ok es =>
      obtain ⟨qs, hqs, hts, -⟩ := exists_phrases_of_parse hparse
      exact absurd ⟨qs, hqs, hts⟩ hno

/-- The branches that an `if` lacks stand at its parenthesis. -/
theorem parse_condition_only :
    '\x00' ∉ "(if nil)".toList ∧ parse 1 "a" "(if nil)" =
      .ok [.cond (.nil ⟨"a", 1, 5⟩) (.nil ⟨"a", 1, 1⟩) (.nil ⟨"a", 1, 1⟩) ⟨"a", 1, 1⟩] :=
  have h : '\x00' ∉ "(if nil)".toList := by decide
  have hfits : ∀ q ∈ [Phrase.cond ⟨.openParen, "(", ⟨"a", 1, 1⟩⟩ ⟨.ident, "if", ⟨"a", 1, 2⟩⟩
      [.atom ⟨.ident, "nil", ⟨"a", 1, 5⟩⟩ (.nil ⟨"a", 1, 5⟩)] ⟨.closeParen, ")", ⟨"a", 1, 8⟩⟩], q.Fits 1 := by
    simpa using ⟨.cond rfl ⟨rfl, rfl⟩ rfl (by simp) (by simp) (by simpa using .atom .nil), by decide⟩
  ⟨h, ((parse_eq_ok_iff_phrases 1 "a" "(if nil)" h).1 _).2 ⟨_, hfits, by decide +kernel, rfl⟩⟩

end Program

end MiniLisp
