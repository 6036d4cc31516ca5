import MiniLisp.Proofs.Eval.Lexical
import MiniLisp.Proofs.Eval.Sound
import MiniLisp.Proofs.Interpreter.Reached
import MiniLisp.Proofs.Program.Levels
/-!
# Lexical — how deep the expressions of sources are evaluated

Interpreters run sources, one after the other.  Whatever is evaluated then, and in whatever calls, lies in one of the
sources, and is evaluated in a frame that is one link further from the root than there are `fn` bodies around it.
-/
namespace MiniLisp

open Expr (Lies)

/-- An expression at the top of a source that an interpreter runs. -/
structure Given where
  interpreter : Interpreter
  source : String
  text : String
  expr : Expr

namespace Given

/-- The interpreter reads the expression from the source. -/
def Read (g : Given) : Prop := ∃ es, g.interpreter.parse g.source g.text = .ok es ∧ g.expr ∈ es

/-- The expressions of some sources, with the script frames that they are run in. -/
def tops (log : List Given) : List (FrameId × Expr) := log.map fun g => (g.interpreter.frame, g.expr)

/-- No two sources have one name.  One source may be run often. -/
def Named (log : List Given) : Prop := ∀ g ∈ log, ∀ g' ∈ log, g.source = g'.source → g.text = g'.text

/-- **The frame `F` is as deep as `e` lies**: some number of `fn` bodies are around `e` where it stands in a source,
the root is one link more away from `F`, and if there are none, then `F` is the script frame.  So there are at most two
frames more on the chain than `fn` forms are nested in the source.  If the names tell the sources apart, then `e` has
as many bodies around it wherever it stands. -/
def AsDeep (log : List Given) (s : Store) (F : FrameId) (e : Expr) : Prop :=
  (∃ g ∈ log, ∃ level, Lies level g.expr e ∧ (s.outer F).length = level + 1 ∧
    (s.outer F).getLast? = some Store.root ∧ (level = 0 → F = g.interpreter.frame) ∧
    (s.chain F).length ≤ g.expr.nesting + 2) ∧
  (Named log → ∀ g ∈ log, ∀ level, Lies level g.expr e → (s.outer F).length = level + 1)

/-- All closures in a value captured frames that are as deep as their forms lie. -/
def ClosuresAsDeep (log : List Given) (s : Store) (v : Value) : Prop :=
  ∀ c, .closure c ∈ v.functions → AsDeep log s c.frame (.fn c.params c.body c.pos)

variable {log : List Given} {s : Store} {F : FrameId} {e : Expr}

theorem named_singleton (g : Given) : Named [g] := by
  intro a ha b hb _
  rw [List.mem_singleton.1 ha, List.mem_singleton.1 hb]

theorem tops_subset_cons (g : Given) : tops log ⊆ tops (g :: log) := List.subset_cons_self _ _

/-- Where names tell sources apart, an expression lies at one level. -/
theorem level_unique (hread : ∀ g ∈ log, g.Read) (hnamed : Named log) {g g' : Given} (hg : g ∈ log) (hg' : g' ∈ log)
    {level level' : Nat} (h : Lies level g.expr e) (h' : Lies level' g'.expr e) : level = level' := by
  obtain ⟨es, hparse, he⟩ := hread g hg
  obtain ⟨es', hparse', he'⟩ := hread g' hg'
  have hsource : g.source = g'.source := by
    rw [← Program.source_of_lies hparse he h, ← Program.source_of_lies hparse' he' h']
  rw [Interpreter.parse, ← hsource, ← hnamed g hg g' hg' hsource] at hparse'
  exact Program.level_unique hparse hparse' he he' h h'

theorem asDeep_of_places (hread : ∀ g ∈ log, g.Read) (h : s.Places (tops log) F e) : AsDeep log s F e := by
  obtain ⟨top, htop, level, hlies, hnested⟩ := h
  obtain ⟨g, hg, rfl⟩ := List.mem_map.1 htop
  refine ⟨⟨g, hg, level, hlies, hnested.length_outer, ?_, ?_, ?_⟩, fun hnamed g' hg' level' hlies' => ?_⟩
  · have hroot := hnested.within.rooted.getLast?_chain
    have hne : s.outer F ≠ [] := List.ne_nil_of_length_eq_add_one hnested.length_outer
    rwa [Store.chain, List.getLast?_cons_of_ne_nil hne] at hroot
  · rintro rfl
    exact hnested.eq_script
  · have hle : level + e.nesting ≤ g.expr.nesting := hlies.le_nesting
    rw [Store.chain, List.length_cons, hnested.length_outer]
    omega
  · rw [hnested.length_outer, level_unique hread hnamed hg hg' hlies hlies']

theorem closuresAsDeep_of_lexical (hread : ∀ g ∈ log, g.Read) {v : Value} (h : v.Lexical (tops log) s) :
    ClosuresAsDeep log s v := fun c hc => asDeep_of_places hread (h (.closure c) hc)

end Given

/-- **The states that sources bring about**, with the interpreters that were created, the expressions that they have
run, and the values that they have answered. -/
inductive Ran : List Interpreter → List Given → List Value → Machine → Prop
  | initial : Ran [] [] [] .initial
  | create {is : List Interpreter} {log : List Given} {vs : List Value} {m : Machine} (limit : Nat) : Ran is log vs m →
      Ran ((Interpreter.create limit m).1 :: is) log vs (Interpreter.create limit m).2
  | ok {is : List Interpreter} {log : List Given} {vs : List Value} {m m' : Machine} {g : Given} {v : Value} :
      Ran is log vs m → g.interpreter ∈ is → g.Read → g.interpreter.evalExpr g.expr m = .ok v m' →
      Ran is (g :: log) (v :: vs) m'
  | error {is : List Interpreter} {log : List Given} {vs : List Value} {m m' : Machine} {g : Given} {error : Error} :
      Ran is log vs m → g.interpreter ∈ is → g.Read → g.interpreter.evalExpr g.expr m = .error error m' →
      Ran is (g :: log) vs m'

/-- A run that brings about a state, and what it answers.  What it has run is from one source. -/
def Brings (is : List Interpreter) (log : List Given) (vs : List Value) (i : Interpreter) (source text : String) :
    EStateM.Result Error Machine (List Value) → Prop
  | .ok ws m' => ∃ es : List Expr, Ran is (es.map (⟨i, source, text, ·⟩) ++ log) (ws.reverse ++ vs) m'
  | .error _ m' => ∃ (es : List Expr) (ws : List Value), Ran is (es.map (⟨i, source, text, ·⟩) ++ log) (ws ++ vs) m'

/-! ## One expression -/

/-- **What evaluating an expression does** to a machine whose closures have their places. -/
theorem Machine.Lexical.evalExpr {tops : List (FrameId × Expr)} {m : Machine} (h : m.Lexical tops) {i : Interpreter}
    {e : Expr} (htop : (i.frame, e) ∈ tops) (hi : m.store.Nested 0 i.frame i.frame) :
    match i.evalExpr e m with
    | .ok v m' => m'.Lexical tops ∧ m.store.Preserves m'.store ∧ v.Lexical tops m'.store
    | .error _ m' => m'.Lexical tops ∧ m.store.Preserves m'.store := by
  have hplace : (Activation.expr i.frame e).Lexical tops m.store := ⟨_, htop, 0, .refl e, hi⟩
  have hrun : eval (Interpreter.maxDepth i.limit) i.frame e m =
      Activation.run (Interpreter.maxDepth i.limit) (.expr i.frame e) m := rfl
  have hends := (h.run hplace (Interpreter.maxDepth i.limit)).1
  unfold Interpreter.evalExpr
  rw [hrun]
  generalize Activation.run (Interpreter.maxDepth i.limit) (.expr i.frame e) m = r at hends
  match r, hends with
  | .ok v m', hends => exact hends
  | .error (.failed error) m', hends => exact hends
  | .error .exhausted m', hends => exact hends

namespace Ran

open Given (tops)

variable {is : List Interpreter} {log : List Given} {vs : List Value} {m m' : Machine} {i : Interpreter}

theorem reached (h : Ran is log vs m) : Reached is vs m := by
  induction h with
  | initial => exact .initial
  | create limit _ ih => exact ih.create limit
  | ok _ hi _ heval ih => exact ih.ok hi heval
  | error _ hi _ heval ih => exact ih.error hi heval

theorem read (h : Ran is log vs m) : ∀ g ∈ log, g.Read := by
  induction h with
  | initial => exact nofun
  | create _ _ ih => exact ih
  | ok _ _ hread _ ih => exact List.forall_mem_cons.2 ⟨hread, ih⟩
  | error _ _ hread _ ih => exact List.forall_mem_cons.2 ⟨hread, ih⟩

/-- **All closures have their places**, in the machine and in what was answered. -/
theorem lexical (h : Ran is log vs m) : m.Lexical (tops log) ∧ (∀ i ∈ is, m.store.Nested 0 i.frame i.frame) ∧
    ∀ v ∈ vs, v.Lexical (tops log) m.store := by
  induction h with
  | initial =>
    refine ⟨Store.everywhere_initial fun b f hf => ?_, nofun, nofun⟩
    obtain rfl := List.mem_singleton.1 hf
    trivial
  | @create is log vs m limit h ih =>
    obtain ⟨hm, hscripts, hvs⟩ := ih
    have hroot := h.reached.sound.1.root
    have hkeeps : m.store.Preserves (m.store.child Store.root []).2 := .child
    have hnone : ∀ v ∈ Entries.values [], Value.Lexical (tops log) m.store v := fun _ hv => by cases hv
    refine ⟨(Store.Everywhere.child hm hnone).imp fun v hv => hv.mono hkeeps fun _ htop => htop, ?_, fun v hv => ?_⟩
    · exact List.forall_mem_cons.2 ⟨Store.nested_script hroot, fun i hi => (hscripts i hi).preserved hkeeps⟩
    · exact (hvs v hv).mono hkeeps fun _ htop => htop
  | @ok is log vs m m' g v _ hi _ heval ih =>
    obtain ⟨hm, hscripts, hvs⟩ := ih
    have hm : m.Lexical (tops (g :: log)) := hm.imp fun v hv => hv.mono .refl (Given.tops_subset_cons g)
    have hends := hm.evalExpr List.mem_cons_self (hscripts _ hi)
    rw [heval] at hends
    obtain ⟨hm', hkeeps, hv⟩ := hends
    refine ⟨hm', fun i hi => (hscripts i hi).preserved hkeeps, List.forall_mem_cons.2 ⟨hv, fun w hw => ?_⟩⟩
    exact (hvs w hw).mono hkeeps (Given.tops_subset_cons g)
  | @error is log vs m m' g error _ hi _ heval ih =>
    obtain ⟨hm, hscripts, hvs⟩ := ih
    have hm : m.Lexical (tops (g :: log)) := hm.imp fun v hv => hv.mono .refl (Given.tops_subset_cons g)
    have hends := hm.evalExpr List.mem_cons_self (hscripts _ hi)
    rw [heval] at hends
    obtain ⟨hm', hkeeps⟩ := hends
    refine ⟨hm', fun i hi => (hscripts i hi).preserved hkeeps, fun w hw => ?_⟩
    exact (hvs w hw).mono hkeeps (Given.tops_subset_cons g)

/-! ## Sources -/

theorem evalExprs (h : Ran is log vs m) (hi : i ∈ is) {source text : String} {es : List Expr}
    (hes : ∀ e ∈ es, (⟨i, source, text, e⟩ : Given).Read) : Brings is log vs i source text (i.evalExprs es m) :=
  Interpreter.evalExprs_induction
    (P := fun ws n => ∃ ds : List Expr, Ran is (ds.map (⟨i, source, text, ·⟩) ++ log) (ws ++ vs) n) ⟨[], h⟩
    (fun e he _ _ _ _ ⟨ds, hn⟩ heval => ⟨e :: ds, hn.ok hi (hes e he) heval⟩)
    fun e he ws _ _ _ ⟨ds, hn⟩ heval => ⟨e :: ds, ws, hn.error hi (hes e he) heval⟩

/-- **A source that an interpreter runs** brings about a state, however it ends. -/
theorem evalAll (h : Ran is log vs m) (hi : i ∈ is) (source text : String) :
    Brings is log vs i source text (i.evalAll source text m) := by
  unfold Interpreter.evalAll
  cases hparse : i.parse source text with
  | ok es => exact h.evalExprs hi fun e he => ⟨es, hparse, he⟩
  | error e => exact ⟨[], [], h⟩

end Ran

/-- **Every expression is evaluated as deep as it lies.**  In every state that sources bring about, each closure that
is bound anywhere or was answered captured a frame that is as deep as its form lies in the source that it came from.
While an expression of a further source is run, at whatever depth, everything that is evaluated is evaluated in such a
frame, and the closures that are called, passed on or bound captured such frames.  So no chain of frames is longer than
the source makes it, however deep calls are nested. -/
theorem ran_as_deep {is : List Interpreter} {log : List Given} {vs : List Value} {m : Machine} (h : Ran is log vs m) :
    (∀ F v, v ∈ (m.store.bindings F).values ∨ v ∈ vs → Given.ClosuresAsDeep log m.store v) ∧
    (∀ g : Given, g.interpreter ∈ is → g.Read → ∀ depth, Activation.Throughout (fun a n =>
      (∀ F e, a = .expr F e → Given.AsDeep (g :: log) n.store F e) ∧
      (∀ caller f args, a = .call caller f args →
        ∀ v ∈ Value.function f :: args, Given.ClosuresAsDeep (g :: log) n.store v) ∧
      ∀ F, ∀ v ∈ (n.store.bindings F).values, Given.ClosuresAsDeep (g :: log) n.store v)
      depth (.expr g.interpreter.frame g.expr) m) ∧
    ∀ i ∈ is, ∀ source text, Brings is log vs i source text (i.evalAll source text m) := by
  obtain ⟨hm, hscripts, hvs⟩ := h.lexical
  refine ⟨fun F v hv => ?_, fun g hi hg depth => ?_, fun i hi => h.evalAll hi⟩
  · exact Given.closuresAsDeep_of_lexical h.read (hv.elim (hm F v) (hvs v))
  · have hread : ∀ g' ∈ g :: log, g'.Read := List.forall_mem_cons.2 ⟨hg, h.read⟩
    have hm : m.Lexical (Given.tops (g :: log)) := hm.imp fun v hv => hv.mono .refl (Given.tops_subset_cons g)
    have hplace : (Activation.expr g.interpreter.frame g.expr).Lexical (Given.tops (g :: log)) m.store :=
      ⟨_, List.mem_cons_self, 0, .refl g.expr, hscripts _ hi⟩
    refine (hm.run hplace depth).2.mono fun a n hn => ⟨?_, ?_, fun F v hv => ?_⟩
    · rintro F e rfl
      exact Given.asDeep_of_places hread hn.2
    · rintro caller f args rfl
      refine List.forall_mem_cons.2 ⟨?_, fun v hv => Given.closuresAsDeep_of_lexical hread (hn.2.2 v hv)⟩
      exact Given.closuresAsDeep_of_lexical hread (List.forall_mem_singleton.2 hn.2.1)
    · exact Given.closuresAsDeep_of_lexical hread (hn.1 F v hv)

/-- The closure that a call answers captured the frame of the call, two links from the root. -/
theorem ran_as_deep_call : ∃ (g : Given) (c : Closure) (m : Machine), g.text = "((fn (x) (fn () x)) nil)" ∧
    Ran [⟨1, 30⟩] [g] [.function (.closure c)] m ∧ (m.store.outer c.frame).length = 2 := by
  have hparse : (⟨1, 30⟩ : Interpreter).parse "a" "((fn (x) (fn () x)) nil)" =
      .ok [.call [.fn ["x"] [.fn [] [.ident "x" ⟨"a", 1, 17⟩] ⟨"a", 1, 10⟩] ⟨"a", 1, 2⟩, .nil ⟨"a", 1, 21⟩]
        ⟨"a", 1, 1⟩] := by
    have hdrain : (TokenReader.ofText "a" "((fn (x) (fn () x)) nil)".toList).drain =
        ([⟨.openParen, "(", ⟨"a", 1, 1⟩⟩, ⟨.openParen, "(", ⟨"a", 1, 2⟩⟩, ⟨.ident, "fn", ⟨"a", 1, 3⟩⟩,
          ⟨.openParen, "(", ⟨"a", 1, 6⟩⟩, ⟨.ident, "x", ⟨"a", 1, 7⟩⟩, ⟨.closeParen, ")", ⟨"a", 1, 8⟩⟩,
          ⟨.openParen, "(", ⟨"a", 1, 10⟩⟩, ⟨.ident, "fn", ⟨"a", 1, 11⟩⟩, ⟨.openParen, "(", ⟨"a", 1, 14⟩⟩,
          ⟨.closeParen, ")", ⟨"a", 1, 15⟩⟩, ⟨.ident, "x", ⟨"a", 1, 17⟩⟩, ⟨.closeParen, ")", ⟨"a", 1, 18⟩⟩,
          ⟨.closeParen, ")", ⟨"a", 1, 19⟩⟩, ⟨.ident, "nil", ⟨"a", 1, 21⟩⟩, ⟨.closeParen, ")", ⟨"a", 1, 24⟩⟩],
          .ended ⟨"a", 1, 24⟩) := by decide +kernel
    rw [Interpreter.parse, Program.parse, hdrain]
    rfl
  have hran := (Ran.initial.create 30).ok (g := ⟨⟨1, 30⟩, "a", "((fn (x) (fn () x)) nil)", _⟩) List.mem_cons_self
    ⟨_, hparse, List.mem_cons_self⟩ rfl
  have hdeep := (ran_as_deep hran).1 0 _ (.inr List.mem_cons_self) _ List.mem_cons_self
  have hlies : Lies 1 _ (.fn [] [.ident "x" ⟨"a", 1, 17⟩] ⟨"a", 1, 10⟩) :=
    ⟨[.item [] [.nil ⟨"a", 1, 21⟩] ⟨"a", 1, 1⟩, .body ["x"] [] [] ⟨"a", 1, 2⟩], rfl, rfl⟩
  exact ⟨_, _, _, rfl, hran, hdeep.2 (Given.named_singleton _) _ List.mem_cons_self 1 hlies⟩

end MiniLisp
