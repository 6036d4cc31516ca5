import MiniLisp.Proofs.Expr.WellFormed
import MiniLisp.Proofs.Number.ReadBack
/-!
# Printing — an expression is what its text is parsed to

The text of a well-formed expression is lexed into the tokens of one phrase, whatever stands in front of it and as
long as a boundary follows (`WellFormed.prints`), and that phrase stands for the expression.  With `WellFormed` as
the other direction, printing and parsing undo each other.
-/
namespace MiniLisp

open Lexeme (Starts)
open Phrase (Grammatical tokensAll exprs depthAll)

/-! ## Texts and their tokens -/

/-- **The text `cs` behind `before` is cut into the tokens `ts`**, if a boundary follows. -/
structure Spelled (source : String) (before cs : List Char) (ts : List Token) : Prop where
  lexing : ∀ {rest : List Char} {us : List Token}, AtBoundary rest → Lexing source (before ++ cs) rest us →
    Lexing source before (cs ++ rest) (ts ++ us)
  no_nul : '\x00' ∉ cs

theorem AtBoundary.append {cs rest : List Char} (h : AtBoundary cs) (hr : AtBoundary rest) : AtBoundary (cs ++ rest) := by
  cases cs with
  | nil => exact hr
  | cons c cs => exact atBoundary_cons.2 (atBoundary_cons.1 h)

namespace Spelled

variable {source : String} {before cs cs' : List Char} {ts ts' : List Token}

theorem nil : Spelled source before [] [] := ⟨fun _ h => by simpa using h, by simp⟩

theorem append (h : Spelled source before cs ts) (hb : AtBoundary cs') (h' : Spelled source (before ++ cs) cs' ts') :
    Spelled source before (cs ++ cs') (ts ++ ts') := by
  refine ⟨fun {rest us} hr hl => ?_, fun hz => ?_⟩
  · rw [← List.append_assoc] at hl
    rw [List.append_assoc, List.append_assoc]
    exact h.lexing (hb.append hr) (h'.lexing hr hl)
  · rcases List.mem_append.1 hz with hz | hz
    · exact h.no_nul hz
    · exact h'.no_nul hz

theorem token {kind : Token.Kind} (hk : kind ≠ .invalid) (hz : '\x00' ∉ cs)
    (hs : ∀ {rest : List Char}, AtBoundary rest → Starts (cs ++ rest) ⟨kind, cs⟩) :
    Spelled source before cs [⟨kind, String.ofList cs, .behind source before⟩] := by
  refine ⟨fun {rest us} hr hl => ?_, hz⟩
  have hgap : Lexing source (before ++ [] ++ cs) rest us := by rwa [List.append_nil]
  have := Lexing.token .nil (hs hr) hk hgap
  rwa [List.append_nil] at this

theorem word {kind : Token.Kind} {w : List Char} (h : Word kind w) :
    Spelled source before w [⟨kind, String.ofList w, .behind source before⟩] := by
  refine token (by rintro rfl; cases h) (h.not_mem (by decide)) fun {rest} hr => ?_
  have hrun : run (w ++ rest) = w := run_append h.not_boundary hr
  have : Starts (w ++ rest) ⟨kind, run (w ++ rest)⟩ := .word (hrun.symm ▸ h)
  rwa [hrun] at this

theorem string {body : List Char} (hq : '"' ∉ body) (hn : '\n' ∉ body) (hz : '\x00' ∉ body) :
    Spelled source before ('"' :: body ++ ['"'])
      [⟨.string, String.ofList ('"' :: body ++ ['"']), .behind source before⟩] := by
  refine token nofun (by simpa using hz) fun {rest} hr => ?_
  have : Starts ('"' :: (body ++ '"' :: rest)) _ := .string hq hn hr
  simpa using this

theorem openParen (h : Spelled source (before ++ ['(']) cs ts) :
    Spelled source before ('(' :: cs) (⟨.openParen, String.ofList ['('], .behind source before⟩ :: ts) := by
  refine ⟨fun {rest us} hr hl => ?_, fun hz => ?_⟩
  · have hrest : Lexing source (before ++ ['('] ++ cs) rest us := by simpa using hl
    have hgap : Lexing source (before ++ [] ++ ['(']) (cs ++ rest) (ts ++ us) := by
      rw [List.append_nil]
      exact h.lexing hr hrest
    have hstarts : Starts (['('] ++ (cs ++ rest)) ⟨.openParen, ['(']⟩ := .openParen _
    have := Lexing.token .nil hstarts nofun hgap
    rwa [List.append_nil] at this
  · rcases List.mem_cons.1 hz with hz | hz
    · cases hz
    · exact h.no_nul hz

theorem closeParen : Spelled source before [')'] [⟨.closeParen, String.ofList [')'], .behind source before⟩] :=
  token nofun (by decide) fun _ => .closeParen _

theorem blank {c : Char} (hc : Text.isBlank c = true) (h : Spelled source (before ++ [c]) cs ts) :
    Spelled source before (c :: cs) ts := by
  refine ⟨fun {rest us} hr hl => ?_, fun hz => ?_⟩
  · have hrest : Lexing source (before ++ [c] ++ cs) rest us := by simpa using hl
    exact @Lexing.prepend _ _ _ _ [c] (.blank hc .nil) (h.lexing hr hrest)
  · rcases List.mem_cons.1 hz with rfl | hz
    · exact absurd hc (by decide)
    · exact h.no_nul hz

theorem params : ∀ {names : List String}, (∀ name ∈ names, Word .ident name.toList) → ∀ before,
    ∃ us : List Token, (∀ t ∈ us, t.kind = .ident) ∧ us.map Token.text = names ∧
      Spelled source before (Expr.spaced (names.map String.toList)) us
  | [], _, _ => ⟨[], nofun, rfl, nil⟩
  | [name], h, before => by
    have hs : Spelled source before name.toList [⟨.ident, String.ofList name.toList, .behind source before⟩] :=
      word (h name List.mem_cons_self)
    refine ⟨[⟨.ident, String.ofList name.toList, .behind source before⟩], by simp, by simp, ?_⟩
    simpa [Expr.spaced] using hs
  | name :: name' :: names, h, before => by
    obtain ⟨us, hk, ht, hs⟩ := params (fun n hn => h n (List.mem_cons_of_mem _ hn)) (before ++ name.toList ++ [' '])
    have hb : AtBoundary (' ' :: Expr.spaced ((name' :: names).map String.toList)) := atBoundary_cons.2 (by decide)
    refine ⟨⟨.ident, String.ofList name.toList, .behind source before⟩ :: us, by simpa using hk, by simpa using ht, ?_⟩
    have := (word (h name List.mem_cons_self)).append hb (.blank (by decide) hs)
    simpa [Expr.spaced, List.intercalate] using this

end Spelled

/-! ## Texts and their phrases -/

/-- **The text `cs` is spelled by phrases that stand for the expressions `es`**, positions aside. -/
structure Prints (source : String) (before cs : List Char) (qs : List Phrase) (es : List Expr) : Prop where
  spelled : Spelled source before cs (tokensAll qs)
  grammatical : ∀ q ∈ qs, Grammatical q
  erase_eq : (exprs qs).map Expr.erase = es.map Expr.erase
  depth_eq : depthAll qs = Expr.heightAll es

namespace Prints

variable {source : String} {before cs cs' : List Char} {ts : List Token} {qs qs' : List Phrase} {es es' : List Expr}

theorem nil : Prints source before [] [] [] := ⟨.nil, nofun, rfl, rfl⟩

theorem heightAll_append : ∀ es es' : List Expr,
    Expr.heightAll (es ++ es') = max (Expr.heightAll es) (Expr.heightAll es')
  | [], _ => by simp [Expr.heightAll]
  | e :: es, es' => by
    rw [List.cons_append, Expr.heightAll, Expr.heightAll, heightAll_append es es', Nat.max_assoc]

theorem append (h : Prints source before cs qs es) (hb : AtBoundary cs') (h' : Prints source (before ++ cs) cs' qs' es') :
    Prints source before (cs ++ cs') (qs ++ qs') (es ++ es') where
  spelled := by
    rw [Phrase.tokensAll_append]
    exact h.spelled.append hb h'.spelled
  grammatical := List.forall_mem_append.2 ⟨h.grammatical, h'.grammatical⟩
  erase_eq := by rw [Phrase.exprs_append, List.map_append, List.map_append, h.erase_eq, h'.erase_eq]
  depth_eq := by rw [Phrase.depthAll_append, heightAll_append, h.depth_eq, h'.depth_eq]

theorem blank {c : Char} (hc : Text.isBlank c = true) (h : Prints source (before ++ [c]) cs qs es) :
    Prints source before (c :: cs) qs es :=
  ⟨h.spelled.blank hc, h.grammatical, h.erase_eq, h.depth_eq⟩

theorem single {q : Phrase} {e : Expr} (hs : Spelled source before cs q.tokens) (hg : Grammatical q)
    (he : q.expr.erase = e.erase) (hd : q.depth = e.height) : Prints source before cs [q] [e] where
  spelled := by rwa [tokensAll, tokensAll, List.append_nil]
  grammatical := by simpa using hg
  erase_eq := by simpa [exprs] using he
  depth_eq := by simpa [depthAll, Expr.heightAll] using hd

theorem atom {t : Token} {e e' : Expr} (hs : Spelled source before cs [t]) (ha : Atom t e')
    (he : e'.erase = e.erase) (hd : e.height = 0) : ∃ q, Prints source before cs [q] [e] :=
  ⟨.atom t e', single hs (.atom ha) he hd.symm⟩

/-! ### Lists -/

theorem atBoundary_following : ∀ es : List Expr, AtBoundary (Expr.following es)
  | [] => atBoundary_nil
  | _ :: _ => atBoundary_cons.2 (by decide)

theorem following : ∀ {es : List Expr}, (∀ e ∈ es, ∀ before, ∃ q, Prints source before e.chars [q] [e]) →
    ∀ before, ∃ qs, Prints source before (Expr.following es) qs es
  | [], _, _ => ⟨[], nil⟩
  | e :: es, ih, before => by
    obtain ⟨q, hq⟩ := ih e List.mem_cons_self (before ++ [' '])
    obtain ⟨qs, hqs⟩ := following (fun e he => ih e (List.mem_cons_of_mem _ he)) (before ++ [' '] ++ e.chars)
    exact ⟨q :: qs, .blank (by decide) (hq.append (atBoundary_following es) hqs)⟩

theorem joined {sep : Char} (hsep : Text.isBlank sep = true) : ∀ {es : List Expr},
    (∀ e ∈ es, ∀ before, ∃ q, Prints source before e.chars [q] [e]) →
    ∀ before, ∃ qs, Prints source before ([sep].intercalate (es.map Expr.chars)) qs es
  | [], _, _ => ⟨[], nil⟩
  | [e], ih, before => by
    obtain ⟨q, hq⟩ := ih e List.mem_cons_self before
    exact ⟨[q], by simpa using hq⟩
  | e :: e' :: es, ih, before => by
    obtain ⟨q, hq⟩ := ih e List.mem_cons_self before
    obtain ⟨qs, hqs⟩ := joined hsep (fun e he => ih e (List.mem_cons_of_mem _ he)) (before ++ e.chars ++ [sep])
    have hb : AtBoundary (sep :: [sep].intercalate ((e' :: es).map Expr.chars)) :=
      atBoundary_cons.2 (by simp [isBoundary, hsep])
    refine ⟨q :: qs, ?_⟩
    have := hq.append hb (.blank hsep hqs)
    simpa [List.intercalate] using this

/-! ### Forms -/

theorem atBoundary_close : AtBoundary [')'] := atBoundary_cons.2 (by decide)

/-- A phrase that starts with the word of a special form is the word. -/
theorem specialWord_of_special {q : Phrase} (hq : Grammatical q) {t : Token} (ht : t ∈ q.tokens.head?)
    (hs : t.Special) : q.expr.SpecialWord := by
  have hopen : t.kind ≠ .openParen := by
    rcases hs with hw | hw | hw <;> rw [hw.1] <;> nofun
  cases hq with
  | @atom t' e ha =>
    obtain rfl : t' = t := Option.some.inj ht
    cases ha with
    | ident hn => exact ⟨t'.text, t'.pos, rfl, hs.imp And.right (Or.imp And.right And.right)⟩
    | nil => rcases hs with hw | hw | hw <;> exact absurd hw.2 (by simp)
    | true => rcases hs with hw | hw | hw <;> exact absurd hw.2 (by simp)
    | false => rcases hs with hw | hw | hw <;> exact absurd hw.2 (by simp)
    | _ => rcases hs with hw | hw | hw <;> cases hw.1
  | call ho _ _ _ => exact absurd (Option.some.inj ht ▸ ho) hopen
  | cond ho _ _ _ _ _ => exact absurd (Option.some.inj ht ▸ ho) hopen
  | fn ho _ _ _ _ _ _ => exact absurd (Option.some.inj ht ▸ ho) hopen
  | define ho _ _ _ _ => exact absurd (Option.some.inj ht ▸ ho) hopen

theorem not_special (h : Prints source before cs qs es) (hes : ∀ e ∈ es.head?, ¬e.SpecialWord) :
    ∀ t ∈ (tokensAll qs).head?, ¬t.Special := by
  intro t ht hs
  obtain ⟨-, hg, he, -⟩ := h
  cases qs with
  | nil => cases ht
  | cons q qs =>
    cases es with
    | nil => cases he
    | cons e es =>
      have hq : Grammatical q := hg q List.mem_cons_self
      obtain ⟨u, us, hu, -, -⟩ := hq.exists_first
      have htq : t ∈ q.tokens.head? := by
        rw [tokensAll, hu] at ht
        rw [hu]
        exact ht
      exact hes e rfl ((specialWord_of_special hq htq hs).of_erase (List.cons.inj he).1.symm)

theorem call (pos : Position) (hes : ∀ e ∈ es.head?, ¬e.SpecialWord) (h : Prints source (before ++ ['(']) cs qs es) :
    ∃ q, Prints source before ('(' :: (cs ++ [')'])) [q] [.call es pos] := by
  have hspelled := Spelled.openParen (h.spelled.append atBoundary_close .closeParen)
  refine ⟨.call _ qs _, single hspelled ?_ ?_ ?_⟩
  · exact .call rfl rfl (h.not_special hes) h.grammatical
  · simp only [Expr.erase, Phrase.expr, Expr.mapPos, Expr.mapPosAll_eq]
    exact congrArg₂ Expr.call h.erase_eq rfl
  · rw [Phrase.depth, Expr.height, h.depth_eq]

theorem spelled_special {w : List Char} (hw : Word .ident w) (hb : AtBoundary cs)
    (h : Spelled source (before ++ ['('] ++ w) cs ts) : Spelled source before ('(' :: (w ++ cs))
      (⟨.openParen, String.ofList ['('], .behind source before⟩ ::
        ⟨.ident, String.ofList w, .behind source (before ++ ['('])⟩ :: ts) :=
  .openParen ((Spelled.word hw).append hb h)

theorem cond {test yes no : Expr} (pos : Position)
    (h : Prints source (before ++ ['('] ++ ['i', 'f']) (Expr.following [test, yes, no]) qs [test, yes, no]) :
    ∃ q, Prints source before (Expr.cond test yes no pos).chars [q] [.cond test yes no pos] := by
  have hw : Word .ident ['i', 'f'] := .of_letters (by decide)
  have hchars : (Expr.cond test yes no pos).chars =
      '(' :: (['i', 'f'] ++ (Expr.following [test, yes, no] ++ [')'])) := by
    simp [Expr.chars, Expr.following]
  have hlength : qs.length = 3 := by
    simpa [Phrase.length_exprs] using congrArg List.length h.erase_eq
  have hparts : AtBoundary (Expr.following [test, yes, no] ++ [')']) := (atBoundary_following _).append atBoundary_close
  have hspelled := spelled_special hw hparts (h.spelled.append atBoundary_close .closeParen)
  rw [hchars]
  refine ⟨.cond _ _ qs _, single hspelled ?_ ?_ ?_⟩
  · exact .cond rfl ⟨rfl, rfl⟩ rfl (by omega) (by omega) h.grammatical
  · have he := h.erase_eq
    obtain ⟨q₁, q₂, q₃, rfl⟩ := List.length_eq_three.1 hlength
    simp only [exprs, List.map_cons, List.map_nil, List.cons.injEq] at he
    obtain ⟨h₁, h₂, h₃, -⟩ := he
    show Expr.cond q₁.expr.erase q₂.expr.erase q₃.expr.erase {} = .cond test.erase yes.erase no.erase {}
    rw [h₁, h₂, h₃]
  · rw [Phrase.depth, Expr.height, h.depth_eq]
    simp [Expr.heightAll]

theorem fn {names : List String} (pos : Position) {us : List Token} (hk : ∀ t ∈ us, t.kind = .ident)
    (ht : us.map Token.text = names)
    (hs : Spelled source (before ++ ['('] ++ ['f', 'n'] ++ [' '] ++ ['(']) cs us)
    (h : Prints source (before ++ ['('] ++ ['f', 'n'] ++ [' '] ++ ['('] ++ cs ++ [')']) (Expr.following es) qs es) :
    ∃ q, Prints source before
      ('(' :: (['f', 'n'] ++ (' ' :: '(' :: (cs ++ ([')'] ++ (Expr.following es ++ [')'])))))) [q] [.fn names es pos] := by
  have hw : Word .ident ['f', 'n'] := .of_letters (by decide)
  have hbody : AtBoundary (Expr.following es ++ [')']) := (atBoundary_following es).append atBoundary_close
  have hend := Spelled.closeParen.append hbody (h.spelled.append atBoundary_close .closeParen)
  have hparams := Spelled.openParen (hs.append (atBoundary_close.append hbody) hend)
  have hspelled := spelled_special hw (atBoundary_cons.2 (by decide)) (hparams.blank (by decide))
  refine ⟨.fn _ _ _ us _ qs _, single hspelled ?_ ?_ ?_⟩
  · exact .fn rfl ⟨rfl, rfl⟩ rfl hk rfl rfl h.grammatical
  · simp only [Expr.erase, Phrase.expr, Expr.mapPos, Expr.mapPosAll_eq, ht]
    exact congrArg₂ (Expr.fn names) h.erase_eq rfl
  · rw [Phrase.depth, Expr.height, h.depth_eq]

theorem define {name : String} {value : Expr} (namePos pos : Position) (hn : Expr.Name name)
    (h : Prints source (before ++ ['('] ++ ['l', 'e', 't'] ++ [' '] ++ name.toList) (Expr.following [value]) qs [value]) :
    ∃ q, Prints source before
      ('(' :: (['l', 'e', 't'] ++ (' ' :: (name.toList ++ (Expr.following [value] ++ [')']))))) [q]
      [.define name namePos value pos] := by
  have hw : Word .ident ['l', 'e', 't'] := .of_letters (by decide)
  have hvalue : AtBoundary (Expr.following [value] ++ [')']) := (atBoundary_following _).append atBoundary_close
  obtain ⟨q, rfl⟩ : ∃ q, qs = [q] := List.length_eq_one_iff.1 (by
    simpa [Phrase.length_exprs] using congrArg List.length h.erase_eq)
  have he : q.expr.erase = value.erase := by simpa [exprs] using h.erase_eq
  have hd : q.depth = value.height := by simpa [depthAll, Expr.heightAll] using h.depth_eq
  have hs : Spelled source (before ++ ['('] ++ ['l', 'e', 't'] ++ [' '] ++ name.toList) (Expr.following [value])
      q.tokens := by simpa [tokensAll] using h.spelled
  have hname := (Spelled.word hn.1).append hvalue (hs.append atBoundary_close .closeParen)
  have hspelled := spelled_special hw (atBoundary_cons.2 (by decide)) (hname.blank (by decide))
  refine ⟨.define _ _ _ q _, single hspelled ?_ ?_ ?_⟩
  · refine .define rfl ⟨rfl, rfl⟩ ⟨rfl, ?_⟩ rfl (h.grammatical q List.mem_cons_self)
    simpa using hn.2
  · show Expr.define (String.ofList name.toList) {} q.expr.erase {} = .define name {} value.erase {}
    rw [he, String.ofList_toList]
  · rw [Phrase.depth, Expr.height, hd]

end Prints

/-! ## Printing -/

namespace Expr

theorem word_spelling (op : Operator) : Word .operator op.spelling.toList := by
  cases op <;> exact .operator (by simp [Operator.spelling]) (by simp [Operator.spelling, isOperatorChar])

/-- **A well-formed expression is spelled by one phrase**, wherever its text stands. -/
theorem WellFormed.prints {source : String} {e : Expr} (h : e.WellFormed) :
    ∀ before, ∃ q, Prints source before e.chars [q] [e] := by
  induction h with
  | @ident name pos hn =>
    intro before
    refine Prints.atom (.word hn.1) (.ident ⟨rfl, ?_⟩) ?_ rfl
    · simpa [chars] using hn.2
    · simp [erase, mapPos, chars]
  | @number x pos hx =>
    intro before
    have hread : Number.read? (String.ofList (Number.code x)).toList = some x := by
      rw [String.toList_ofList, Number.read?_code hx]
    exact Prints.atom (.word (Number.word_code hx)) (.number hread hx) rfl rfl
  | string hq hn hz =>
    intro before
    exact Prints.atom (.string hq hn hz) (.string (String.toList_ofList ..)) rfl rfl
  | @bool b pos =>
    intro before
    cases b with
    | true => exact Prints.atom (.word (.of_letters (by decide))) .true rfl rfl
    | false => exact Prints.atom (.word (.of_letters (by decide))) .false rfl rfl
  | nil =>
    intro before
    exact Prints.atom (.word (.of_letters (by decide))) .nil rfl rfl
  | @operator op pos =>
    intro before
    have hs : Spelled source before op.spelling.toList [⟨.operator, op.spelling, .behind source before⟩] := by
      simpa using Spelled.word (word_spelling op)
    exact Prints.atom hs .operator rfl rfl
  | @call items pos hhead hitems ih =>
    intro before
    cases items with
    | nil => exact Prints.call pos hhead .nil
    | cons e es =>
      obtain ⟨q, hq⟩ := ih e List.mem_cons_self (before ++ ['('])
      obtain ⟨qs, hqs⟩ := Prints.following (fun e he => ih e (List.mem_cons_of_mem _ he)) (before ++ ['('] ++ e.chars)
      have := Prints.call pos hhead (hq.append (Prints.atBoundary_following es) hqs)
      simpa [chars] using this
  | @cond test yes no pos ht hy hn iht ihy ihn =>
    intro before
    have ih : ∀ e ∈ [test, yes, no], ∀ before, ∃ q, Prints source before e.chars [q] [e] := by
      simpa using ⟨iht, ihy, ihn⟩
    obtain ⟨qs, hqs⟩ := Prints.following ih (before ++ ['('] ++ ['i', 'f'])
    exact hqs.cond pos
  | @fn names body pos hparams hbody ih =>
    intro before
    obtain ⟨us, hk, ht, hs⟩ := Spelled.params hparams (before ++ ['('] ++ ['f', 'n'] ++ [' '] ++ ['('])
    obtain ⟨qs, hqs⟩ := Prints.following ih
      (before ++ ['('] ++ ['f', 'n'] ++ [' '] ++ ['('] ++ spaced (names.map String.toList) ++ [')'])
    have := hqs.fn pos hk ht hs
    simpa [chars] using this
  | @define name namePos value pos hn hv ih =>
    intro before
    have ih' : ∀ e ∈ [value], ∀ before, ∃ q, Prints source before e.chars [q] [e] := by simpa using ih
    obtain ⟨qs, hqs⟩ := Prints.following ih' (before ++ ['('] ++ ['l', 'e', 't'] ++ [' '] ++ name.toList)
    have := hqs.define namePos pos hn
    simpa [chars, following] using this

/-- The texts of well-formed expressions, with a blank between them, are parsed to the expressions. -/
theorem parse_joined {sep : Char} (hsep : Text.isBlank sep = true) {limit : Nat} (source : String) {es : List Expr}
    (hes : ∀ e ∈ es, e.WellFormed ∧ e.height ≤ limit) :
    ∃ es', Program.parse limit source (String.ofList ([sep].intercalate (es.map chars))) = .ok es' ∧
      es'.map erase = es.map erase := by
  have hprints : ∀ e ∈ es, ∀ before, ∃ q, Prints source before e.chars [q] [e] := fun e he => (hes e he).1.prints
  obtain ⟨qs, hqs⟩ := Prints.joined hsep hprints []
  have hl : Lexing source [] ([sep].intercalate (es.map chars)) (tokensAll qs) := by
    simpa using hqs.spelled.lexing atBoundary_nil (.last (.gap .nil))
  obtain ⟨pos, hd, -⟩ := TokenReader.drain_ofText hqs.spelled.no_nul hl
  have hdepth : depthAll qs ≤ limit := by
    rw [hqs.depth_eq, heightAll_le]
    exact fun e he => (hes e he).2
  have hfits : ∀ q ∈ qs, q.Fits limit := fun q hq => ⟨hqs.grammatical q hq, Phrase.depthAll_le.1 hdepth q hq⟩
  refine ⟨exprs qs, Program.parse_of_phrases ?_ hfits ?_, hqs.erase_eq⟩
  · rw [String.toList_ofList]
    exact hqs.spelled.no_nul
  · rw [String.toList_ofList, hd]

/-- The text of one well-formed expression is parsed to the expression. -/
theorem parse_code {limit : Nat} (source : String) {e : Expr} (he : e.WellFormed) (hlimit : e.height ≤ limit) :
    ∃ e', Program.parse limit source e.code = .ok [e'] ∧ e'.erase = e.erase := by
  have hes : ∀ e' ∈ [e], e'.WellFormed ∧ e'.height ≤ limit := List.forall_mem_singleton.2 ⟨he, hlimit⟩
  have hblank : Text.isBlank ' ' = true := by decide
  obtain ⟨es', hparse, herase⟩ := parse_joined hblank source hes
  obtain ⟨e', rfl⟩ : ∃ e', es' = [e'] := List.length_eq_one_iff.1 (by simpa using congrArg List.length herase)
  exact ⟨e', by simpa [code, List.intercalate] using hparse, by simpa using herase⟩

/-- **Printing and parsing undo each other on well-formed expressions**, and only on these.  Positions aside, what is
read is equal to what was written, and so are its numbers to the bit. -/
theorem parse_chars_iff_wellFormed :
    (∀ (limit : Nat) (source text : String) (es : List Expr), Program.parse limit source text = .ok es →
      ∀ e ∈ es, e.WellFormed) ∧
    (∀ (limit : Nat) (source : String) (sep : Char) (es : List Expr), Text.isBlank sep = true →
      (∀ e ∈ es, e.WellFormed ∧ e.height ≤ limit) →
      ∃ es', Program.parse limit source (String.ofList ([sep].intercalate (es.map chars))) = .ok es' ∧
        es'.map erase = es.map erase) ∧
    ∀ (limit : Nat) (source : String) (e : Expr), e.height ≤ limit →
      ((∃ e', Program.parse limit source e.code = .ok [e'] ∧ e'.erase = e.erase) ↔ e.WellFormed) := by
  refine ⟨fun limit source text es => Program.wellFormed_of_parse,
    fun limit source sep es hsep => parse_joined hsep source, fun limit source e hlimit => ⟨?_, fun h => ?_⟩⟩
  · rintro ⟨e', hparse, he⟩
    exact (Program.wellFormed_of_parse hparse e' (List.mem_singleton.2 rfl)).of_erase he
  · have hes : ∀ e' ∈ [e], e'.WellFormed ∧ e'.height ≤ limit := by simpa using ⟨h, hlimit⟩
    have hblank : Text.isBlank ' ' = true := by decide
    obtain ⟨es', hparse, he⟩ := parse_joined hblank source hes
    obtain ⟨e', rfl⟩ : ∃ e', es' = [e'] := List.length_eq_one_iff.1 (by simpa using congrArg List.length he)
    refine ⟨e', by simpa [code, List.intercalate] using hparse, by simpa using he⟩

/-- The sign of zero is written and read. -/
theorem parse_negative_zero : (Expr.number (Number.ofBits true 0) {}).height ≤ 0 ∧
    ∃ e', Program.parse 0 "a" (Expr.number (Number.ofBits true 0) {}).code = .ok [e'] ∧
      e'.erase = .number (Number.ofBits true 0) {} :=
  have h : (Expr.number (Number.ofBits true 0) {}).height ≤ 0 := Nat.le_refl 0
  ⟨h, (parse_chars_iff_wellFormed.2.2 0 "a" _ h).2 (.number (by decide))⟩

end Expr

end MiniLisp
