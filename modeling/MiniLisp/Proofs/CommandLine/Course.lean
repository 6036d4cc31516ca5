import MiniLisp.CommandLine.Run
import MiniLisp.Proofs.Eval.Beside
import MiniLisp.Proofs.Interpreter.Sequence
import MiniLisp.Proofs.Text.Line
/-!
# Course — a file on the command line, and in an interpreter

The command evaluates the expressions of a file one by one, with an empty page for each, and writes what they print and
their values in between.  An interpreter that evaluates the file comes to the same: to the same values and the same
error, at the same expression, and what is printed is the same (`CommandLine.run_eq`).
-/
namespace MiniLisp

/-- **The course of a program**: the text that is printed by each expression with a value, and the value; and if one
fails, the text that it prints before, and the error. -/
inductive Interpreter.Course (i : Interpreter) :
    Machine → List Expr → List (String × Value) → Option (String × Error) → Machine → Prop
  | nil {m : Machine} : Course i m [] [] none m
  | ok {e : Expr} {es : List Expr} {v : Value} {texts : Array String} {done : List (String × Value)}
      {failure : Option (String × Error)} {m m' m'' : Machine} : i.evalExpr e m = .ok v m' →
      m'.printed = m.printed ++ texts → Course i m' es done failure m'' →
      Course i m (e :: es) (("".intercalate texts.toList, v) :: done) failure m''
  | error {e : Expr} {es : List Expr} {error : Error} {texts : Array String} {m m' : Machine} :
      i.evalExpr e m = .error error m' → m'.printed = m.printed ++ texts →
      Course i m (e :: es) [] (some ("".intercalate texts.toList, error)) m'

namespace Interpreter

variable {i : Interpreter} {m m' : Machine} {es : List Expr} {done : List (String × Value)}

/-- **What has been printed before makes no difference** to what an expression prints, nor to anything else. -/
theorem evalExpr_printed (i : Interpreter) (e : Expr) (m : Machine) :
    i.evalExpr e m = match i.evalExpr e { m with printed := #[] } with
      | .ok v m' => .ok v { m' with printed := m.printed ++ m'.printed }
      | .error error m' => .error error { m' with printed := m.printed ++ m'.printed } := by
  let behind : Array String → Array String → Prop := fun printed printed' => printed' = m.printed ++ printed
  have hlawful : (Lockstep.beside behind 0).Lawful := Lockstep.beside_lawful fun printed printed' text h => by
    show printed'.push text = m.printed ++ printed.push text
    rw [h, Array.append_push]
  have hmachine : (Lockstep.beside behind 0).machine { m with printed := #[] } m :=
    ⟨m.printed, rfl, Array.append_empty.symm⟩
  have hout := hlawful.run_quiet (maxDepth i.limit) hmachine (Lockstep.activations_beside (.expr i.frame e))
  have heval : ∀ n, eval (maxDepth i.limit) i.frame e n =
      Activation.run (maxDepth i.limit) (.expr i.frame e) n := fun _ => rfl
  unfold evalExpr
  simp only [heval]
  generalize Activation.run (maxDepth i.limit) (.expr i.frame e) { m with printed := #[] } = r at hout ⊢
  have hrest : Activation.run (maxDepth i.limit) (.expr i.frame e) m =
      Activation.run (maxDepth i.limit + (Lockstep.beside behind 0).slack) (.expr i.frame e) m := rfl
  rw [hrest]
  generalize Activation.run (maxDepth i.limit + _) (.expr i.frame e) m = r' at hout ⊢
  cases hout with
  | ok hg hv =>
    obtain ⟨printed, rfl, rfl⟩ := hg.machine
    obtain rfl := Lockstep.value_beside.1 hv
    rfl
  | failed hg he =>
    obtain ⟨printed, rfl, rfl⟩ := hg.machine
    obtain rfl := he
    rfl
  | exhausted hr =>
    obtain ⟨n', rfl, hg⟩ := hr rfl
    obtain ⟨printed, rfl, rfl⟩ := hg.machine
    rfl
  | excused he => exact False.elim he

/-- What a program that has taken its course answers, if it is evaluated as a whole. -/
def answerOf (done : List (String × Value)) (m : Machine) :
    Option (String × Error) → EStateM.Result Error Machine (List Value)
  | none => .ok (done.map Prod.snd) m
  | some (_, error) => .error error m

theorem Course.evalExprs_eq {failure : Option (String × Error)} (h : i.Course m es done failure m') :
    i.evalExprs es m = answerOf done m' failure := by
  induction h with
  | nil => rfl
  | @ok e es v texts done failure m m' m'' he _ _ ih =>
    rw [evalExprs_cons, he]
    dsimp only
    rw [ih]
    cases failure <;> rfl
  | error he _ =>
    rw [evalExprs_cons, he]
    rfl

theorem evalFile_of_ok {path : String} {file : File} (h : i.parseFile path file = .ok es) (m : Machine) :
    i.evalFile path file m = match i.evalExprs es m with
      | .ok vs m' => .ok vs m'
      | .error e m' => .error (.program e) m' := by
  unfold evalFile
  cases hes : i.evalExprs es m with
  | ok vs m' => simp only [h, hes]
  | error e m' => simp only [h, hes]

theorem evalFile_of_error {path : String} {file : File} {error : FileError} (h : i.parseFile path file = .error error)
    (m : Machine) : i.evalFile path file m = .error error m := by
  unfold evalFile
  rw [h]

end Interpreter

namespace CommandLine

open Interpreter (Course)

/-! ## What is written and logged -/

/-- What is written of expressions that have values: what each prints, and behind it, if values are shown, the value on
a line of its own.  Nil is not shown. -/
def written (showVals : Bool) (done : List (String × Value)) : String :=
  "".intercalate (done.map fun (text, v) =>
    if showVals = true ∧ v.kind ≠ .nil then text ++ v.inspect ++ "\n" else text)

/-- What is logged of expressions that are evaluated. -/
def evaluatingLog (level : LogLevel) (es : List Expr) : String :=
  if level = .notset ∨ level = .debug then
    "".intercalate (es.map fun e => "Interpreter: DEBUG: evaluating " ++ e.code ++ "\n")
  else ""

/-- What is logged of a file that has been parsed. -/
def parsedLog (level : LogLevel) (path : String) (es : List Expr) : String :=
  if level = .notset ∨ level = .debug then
    "Interpreter: DEBUG: parsed " ++ toString es.length ++ " expressions from " ++ path ++ "\n"
  else ""

/-- The last line of the log, if a run fails. -/
def failedLog (level : LogLevel) (what path : String) (error : FileError) : String :=
  if level = .critical then ""
  else "glisp: ERROR: " ++ what ++ " error in '" ++ path ++ "': " ++ error.message ++ "\n"

theorem written_cons (showVals : Bool) (text : String) (v : Value) (done : List (String × Value)) :
    written showVals ((text, v) :: done) = text ++ shown showVals v ++ written showVals done := by
  have hshown : (if showVals = true ∧ v.kind ≠ .nil then text ++ v.inspect ++ "\n" else text) =
      text ++ shown showVals v := by
    cases showVals <;> cases v <;> simp [shown, Value.kind, String.append_assoc]
  unfold written
  rw [List.map_cons, Text.join_cons]
  exact congrArg (· ++ _) hshown

theorem logged_debug (level : LogLevel) (text : String) : logged level interpreterLogger .debug text =
    if level = .notset ∨ level = .debug then "Interpreter: DEBUG: " ++ text ++ "\n" else "" := by
  cases level <;> rfl

theorem logged_error (level : LogLevel) (text : String) : logged level programName .error text =
    if level = .critical then "" else "glisp: ERROR: " ++ text ++ "\n" := by
  cases level <;> rfl

theorem evaluatingLog_cons (level : LogLevel) (e : Expr) (es : List Expr) : evaluatingLog level (e :: es) =
    logged level interpreterLogger .debug ("evaluating " ++ e.code) ++ evaluatingLog level es := by
  rw [logged_debug]
  unfold evaluatingLog
  by_cases h : level = .notset ∨ level = .debug
  · rw [if_pos h, if_pos h, if_pos h, List.map_cons, Text.join_cons, ← String.append_assoc]
    rfl
  · rw [if_neg h, if_neg h, if_neg h, String.empty_append]

theorem evaluatingLog_nil (level : LogLevel) : evaluatingLog level [] = "" := ite_self _

theorem parsedLog_eq (level : LogLevel) (path : String) (es : List Expr) : parsedLog level path es =
    logged level interpreterLogger .debug ("parsed " ++ toString es.length ++ " expressions from " ++ path) := by
  simp only [parsedLog, logged_debug, ← String.append_assoc]
  rfl

theorem failedLog_eq (level : LogLevel) (what path : String) (error : FileError) : failedLog level what path error =
    logged level programName .error (what ++ " error in '" ++ path ++ "': " ++ error.message) := by
  simp only [failedLog, logged_error, ← String.append_assoc]

/-! ## The course of a file -/

theorem evaluate_printed (job : Job) (i : Interpreter) (m : Machine) (printed : Array String) (es : List Expr) :
    evaluate job i { m with printed := printed } es = evaluate job i m es := by
  cases es <;> rfl

/-- What the command has done when a program has taken its course. -/
def outcomeOf (job : Job) (es : List Expr) (done : List (String × Value)) : Option (String × Error) → Outcome
  | none => ⟨0, written job.showVals done, some (evaluatingLog job.level es)⟩
  | some (text, error) =>
    ⟨1, written job.showVals done ++ text,
      some (evaluatingLog job.level (es.take (done.length + 1)) ++
        failedLog job.level "Execution" job.path (.program error))⟩

theorem outcomeOf_cons (job : Job) (e : Expr) (es : List Expr) (text : String) (v : Value)
    (done : List (String × Value)) (failure : Option (String × Error)) :
    outcomeOf job (e :: es) ((text, v) :: done) failure = (outcomeOf job es done failure).behind
      (text ++ shown job.showVals v) (logged job.level interpreterLogger .debug ("evaluating " ++ e.code)) := by
  cases failure with
  | none => rw [outcomeOf, written_cons, evaluatingLog_cons, outcomeOf, Outcome.behind, Option.getD_some]
  | some failure =>
    rw [outcomeOf, written_cons, List.length_cons, List.take_succ_cons, evaluatingLog_cons, outcomeOf, Outcome.behind,
      Option.getD_some, String.append_assoc, String.append_assoc, String.append_assoc]

/-- **A program that is evaluated one by one takes a course**, and the command writes it down. -/
theorem exists_course (job : Job) (i : Interpreter) : ∀ (es : List Expr) (m : Machine),
    ∃ done failure m', i.Course m es done failure m' ∧ evaluate job i m es = outcomeOf job es done failure
  | [], m => ⟨[], none, m, .nil, by rw [outcomeOf, evaluatingLog_nil]; rfl⟩
  | e :: es, m => by
    have hprinted := i.evalExpr_printed e m
    rw [evaluate]
    cases hfresh : i.evalExpr e { m with printed := #[] } with
    | error error m' =>
      rw [hfresh] at hprinted
      refine ⟨[], _, _, .error hprinted rfl, ?_⟩
      have hone : evaluatingLog job.level [e] =
          logged job.level interpreterLogger .debug ("evaluating " ++ e.code) := by
        rw [evaluatingLog_cons, evaluatingLog_nil, String.append_empty]
      rw [outcomeOf, List.length_nil, List.take_succ_cons, List.take_zero, hone, failedLog_eq]
      exact congrArg (Outcome.mk 1 · _) (String.empty_append).symm
    | ok v m' =>
      rw [hfresh] at hprinted
      obtain ⟨done, failure, m'', hcourse, houtcome⟩ :=
        exists_course job i es { m' with printed := m.printed ++ m'.printed }
      rw [evaluate_printed] at houtcome
      refine ⟨_, failure, m'', .ok hprinted rfl hcourse, ?_⟩
      rw [outcomeOf_cons, ← houtcome]
      rfl

/-- What is seen of a run of the command, up to the point where the file has been parsed. -/
theorem run_unset (files : String → File) (o : Options) (level : LogLevel)
    (hlevel : levelInForce (fun _ => none) o.logLevel = level) : run (fun _ => none) files o =
    match (Interpreter.create Interpreter.defaultLimit .initial).1.parseFile o.file (files o.file) with
    | .error error => ⟨1, "", some (failedLog level "Parse" o.file error)⟩
    | .ok es => (evaluate ⟨o.file, o.showVals, level⟩ (Interpreter.create Interpreter.defaultLimit .initial).1
        (Interpreter.create Interpreter.defaultLimit .initial).2 es).behind "" (parsedLog level o.file es) := by
  subst hlevel
  have hshow : (o.showVals || Settings.showVals fun _ => none) = o.showVals := Bool.or_false o.showVals
  have hbehind : ∀ (out : Outcome) (log : String), (out.behind "" log).behind "" "" = out.behind "" log := by
    intro out log
    simp [Outcome.behind]
  have hrun : run (fun _ => none) files o = (runFile ⟨o.file, o.showVals || Settings.showVals fun _ => none,
      levelInForce (fun _ => none) o.logLevel⟩ Interpreter.defaultLimit (files o.file)).behind "" "" := rfl
  rw [hrun, hshow, runFile]
  dsimp only
  cases (Interpreter.create Interpreter.defaultLimit .initial).1.parseFile o.file (files o.file) with
  | error error =>
    dsimp only
    rw [failedLog_eq]
    rfl
  | ok es =>
    dsimp only
    rw [parsedLog_eq]
    exact hbehind _ _

end CommandLine

end MiniLisp
