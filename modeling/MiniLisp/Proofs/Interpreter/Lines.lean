import MiniLisp.CommandLine.Run
import MiniLisp.Proofs.Eval.Calls
import MiniLisp.Proofs.Eval.OneLine
import MiniLisp.Proofs.Interpreter.Sequence
/-!
# Lines — a line for each call of `print`

Interpreters are fed with sources, one after the other.  In every state that this brings about, all strings are of one
line, and what has been printed is a line for each call of `print` that was completed so far.
-/
namespace MiniLisp

open CommandLine (printedText)

/-- The expression was read from some source. -/
def Expr.FromSource (e : Expr) : Prop := ∃ limit source text es, Program.parse limit source text = .ok es ∧ e ∈ es

theorem Expr.FromSource.oneLine {e : Expr} (h : e.FromSource) : e.OneLine := by
  obtain ⟨limit, source, text, es, hparse, he⟩ := h
  exact Program.oneLine_of_parse hparse e he

/-- How many calls of `print` are completed when an interpreter evaluates an expression. -/
def Interpreter.prints (i : Interpreter) (e : Expr) (m : Machine) : Nat :=
  Activation.prints (maxDepth i.limit) (.expr i.frame e) m

/-- **The states that sources bring about**, with the interpreters that were created, the values that they have
answered, and the number of calls of `print` that have been completed. -/
inductive Fed : List Interpreter → List Value → Nat → Machine → Prop
  | initial : Fed [] [] 0 .initial
  | create {is : List Interpreter} {vs : List Value} {calls : Nat} {m : Machine} (limit : Nat) : Fed is vs calls m →
      Fed ((Interpreter.create limit m).1 :: is) vs calls (Interpreter.create limit m).2
  | ok {is : List Interpreter} {vs : List Value} {calls : Nat} {m m' : Machine} {i : Interpreter} {e : Expr}
      {v : Value} : Fed is vs calls m → i ∈ is → e.FromSource → i.evalExpr e m = .ok v m' →
      Fed is (v :: vs) (calls + i.prints e m) m'
  | error {is : List Interpreter} {vs : List Value} {calls : Nat} {m m' : Machine} {i : Interpreter} {e : Expr}
      {error : Error} : Fed is vs calls m → i ∈ is → e.FromSource → i.evalExpr e m = .error error m' →
      Fed is vs (calls + i.prints e m) m'

/-- A run that brings about a state, and what it answers. -/
def Feeds (is : List Interpreter) (vs : List Value) : EStateM.Result Error Machine (List Value) → Prop
  | .ok ws m' => ∃ calls, Fed is (ws.reverse ++ vs) calls m'
  | .error _ m' => ∃ ws calls, Fed is (ws ++ vs) calls m'

/-! ## One expression -/

/-- **What evaluating an expression does to a machine of one-line strings.** -/
theorem Machine.OneLine.evalExpr {m : Machine} (h : m.OneLine) {e : Expr} (he : e.OneLine) (i : Interpreter) :
    match i.evalExpr e m with
    | .ok v m' => m'.OneLine ∧ m'.printed.size = m.printed.size + i.prints e m ∧ v.OneLine
    | .error _ m' => m'.OneLine ∧ m'.printed.size = m.printed.size + i.prints e m := by
  have hrun : eval (Interpreter.maxDepth i.limit) i.frame e m =
      Activation.run (Interpreter.maxDepth i.limit) (.expr i.frame e) m := rfl
  have hends := (h.run (a := .expr i.frame e) he (Interpreter.maxDepth i.limit)).1
  have hsize := Activation.size_printed (Interpreter.maxDepth i.limit) (.expr i.frame e) m
  unfold EvalM.after at hsize
  unfold Interpreter.evalExpr Interpreter.prints
  rw [hrun]
  generalize Activation.run (Interpreter.maxDepth i.limit) (.expr i.frame e) m = r at hends hsize
  match r, hends, hsize with
  | .ok v m', ⟨hm', hv⟩, hsize => exact ⟨hm', hsize, hv⟩
  | .error (.failed error) m', hm', hsize => exact ⟨hm', hsize⟩
  | .error .exhausted m', hm', hsize => exact ⟨hm', hsize⟩

namespace Fed

variable {is : List Interpreter} {vs : List Value} {calls : Nat} {m m' : Machine} {i : Interpreter} {e : Expr}

/-- **Strings stay on one line, and each call of `print` prints one text.** -/
theorem oneLine (h : Fed is vs calls m) : m.OneLine ∧ m.printed.size = calls ∧ ∀ v ∈ vs, v.OneLine := by
  induction h with
  | initial => exact ⟨Machine.oneLine_initial, rfl, nofun⟩
  | create limit _ ih =>
    obtain ⟨hm, hsize, hvs⟩ := ih
    exact ⟨hm.child nofun, hsize, hvs⟩
  | @ok is vs calls m m' i e v _ _ he heval ih =>
    obtain ⟨hm, hsize, hvs⟩ := ih
    have hends := hm.evalExpr he.oneLine i
    rw [heval, hsize] at hends
    obtain ⟨hm', hsize', hv⟩ := hends
    exact ⟨hm', hsize', List.forall_mem_cons.2 ⟨hv, hvs⟩⟩
  | @error is vs calls m m' i e error _ _ he heval ih =>
    obtain ⟨hm, hsize, hvs⟩ := ih
    have hends := hm.evalExpr he.oneLine i
    rw [heval, hsize] at hends
    exact ⟨hends.1, hends.2, hvs⟩

/-! ## Programs -/

theorem evalExprs (h : Fed is vs calls m) (hi : i ∈ is) {es : List Expr} (hes : ∀ e ∈ es, e.FromSource) :
    Feeds is vs (i.evalExprs es m) :=
  Interpreter.evalExprs_induction (P := fun ws n => ∃ calls, Fed is (ws ++ vs) calls n) ⟨calls, h⟩
    (fun e he _ _ _ _ ⟨_, hn⟩ heval => ⟨_, hn.ok hi (hes e he) heval⟩)
    fun e he ws _ _ _ ⟨_, hn⟩ heval => ⟨ws, _, hn.error hi (hes e he) heval⟩

/-- **A source that an interpreter is fed with** brings about a state, however it ends. -/
theorem evalAll (h : Fed is vs calls m) (hi : i ∈ is) (source text : String) :
    Feeds is vs (i.evalAll source text m) := by
  unfold Interpreter.evalAll
  cases hparse : i.parse source text with
  | ok es => exact h.evalExprs hi fun e he => ⟨_, _, _, es, hparse, he⟩
  | error e => exact ⟨[], calls, h⟩

end Fed

/-- **Strings stay on one line, and each call of `print` writes a line.**  In every state that sources bring about, no
string and no key that is bound in a frame or was answered, at whatever depth of a value, holds a quote, a newline or a
NUL, and neither does a literal in the body of a closure.  The same is true whenever anything is evaluated on the way;
and a call of `print` on the way ends, and has written one line.  So there are as many newlines on standard output as
calls of `print` were completed. -/
theorem fed_one_line {is : List Interpreter} {vs : List Value} {calls : Nat} {m : Machine} (h : Fed is vs calls m) :
    (∀ F v, v ∈ (m.store.bindings F).values ∨ v ∈ vs → (∀ text ∈ v.strings, Text.OneLine text) ∧
      ∀ c, .closure c ∈ v.functions → ∀ e ∈ c.body, ∀ text ∈ e.strings, Text.OneLine text) ∧
    (∀ i ∈ is, ∀ e : Expr, e.FromSource → ∀ depth, Activation.Throughout
      (fun a n => n.OneLine ∧ a.OneLine ∧ a.WritesLine n) depth (.expr i.frame e) m) ∧
    (∀ text ∈ m.printed, Text.Line text) ∧ m.printed.size = calls ∧ (printedText m).toList.count '\n' = calls ∧
    ∀ i ∈ is, ∀ source text, Feeds is vs (i.evalAll source text m) := by
  obtain ⟨hm, hsize, hvs⟩ := h.oneLine
  refine ⟨fun F v hv => ?_, fun i _ e he depth => ?_, hm.printed, hsize, ?_, fun i hi => h.evalAll hi⟩
  · have hv : v.OneLine := hv.elim (hm.bound F v) (hvs v)
    exact ⟨hv.1, fun c hc => hv.2 _ hc⟩
  · exact (hm.run (a := .expr i.frame e) he.oneLine depth).2.mono fun a n ha => ⟨ha.1, ha.2, ha.2.writesLine n⟩
  · rw [printedText, Text.count_newline_join fun text ht => hm.printed text (Array.mem_toList_iff.1 ht),
      Array.length_toList, hsize]

/-- A program that joins two strings and prints them writes one line. -/
theorem fed_one_line_concat : ∃ m, Fed [⟨1, 30⟩] [.nil] 1 m ∧ printedText m = "\"ab\"\n" ∧
    (printedText m).toList.count '\n' = 1 := by
  have hparse : Program.parse 10 "a" "(print (concat \"a\" \"b\"))" =
      .ok [.call [.ident "print" ⟨"a", 1, 2⟩, .call [.ident "concat" ⟨"a", 1, 9⟩, .string "a" ⟨"a", 1, 16⟩,
        .string "b" ⟨"a", 1, 20⟩] ⟨"a", 1, 8⟩] ⟨"a", 1, 1⟩] := by
    have hdrain : (TokenReader.ofText "a" "(print (concat \"a\" \"b\"))".toList).drain =
        ([⟨.openParen, "(", ⟨"a", 1, 1⟩⟩, ⟨.ident, "print", ⟨"a", 1, 2⟩⟩, ⟨.openParen, "(", ⟨"a", 1, 8⟩⟩,
          ⟨.ident, "concat", ⟨"a", 1, 9⟩⟩, ⟨.string, "\"a\"", ⟨"a", 1, 16⟩⟩, ⟨.string, "\"b\"", ⟨"a", 1, 20⟩⟩,
          ⟨.closeParen, ")", ⟨"a", 1, 23⟩⟩, ⟨.closeParen, ")", ⟨"a", 1, 24⟩⟩], .ended ⟨"a", 1, 24⟩) := by decide +kernel
    rw [Program.parse, hdrain]
    rfl
  have h := (Fed.initial.create 30).ok List.mem_cons_self ⟨_, _, _, _, hparse, List.mem_cons_self⟩ rfl
  exact ⟨_, h, rfl, (fed_one_line h).2.2.2.2.1⟩

end MiniLisp
