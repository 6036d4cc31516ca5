import MiniLisp.Interpreter
/-!
# Sequence — expressions that are evaluated in order

The expressions of a program are evaluated one after the other until one fails, so a program is evaluated part by part
(`Interpreter.evalExprs_append`).
-/
namespace MiniLisp.Interpreter

theorem evalExprs_cons (i : Interpreter) (e : Expr) (es : List Expr) (m : Machine) :
    i.evalExprs (e :: es) m = match i.evalExpr e m with
      | .error failure m' => .error failure m'
      | .ok v m' => match i.evalExprs es m' with
        | .error failure m'' => .error failure m''
        | .ok vs m'' => .ok (v :: vs) m'' := by
  show EStateM.bind (i.evalExpr e) _ m = _
  unfold EStateM.bind
  cases i.evalExpr e m with
  | error failure m' => rfl
  | ok v m' =>
    dsimp only
    show EStateM.bind (i.evalExprs es) _ m' = _
    unfold EStateM.bind
    cases i.evalExprs es m' <;> rfl

/-- **A program is evaluated part by part.** -/
theorem evalExprs_append (i : Interpreter) (es' : List Expr) : ∀ (es : List Expr) (m : Machine),
    i.evalExprs (es ++ es') m = match i.evalExprs es m with
      | .error failure m' => .error failure m'
      | .ok vs m' => match i.evalExprs es' m' with
        | .error failure m'' => .error failure m''
        | .ok ws m'' => .ok (vs ++ ws) m''
  | [], m => by
    show i.evalExprs es' m = match i.evalExprs es' m with
      | .error failure m'' => .error failure m''
      | .ok ws m'' => .ok ws m''
    cases i.evalExprs es' m <;> rfl
  | e :: es, m => by
    rw [List.cons_append, evalExprs_cons, evalExprs_cons]
    cases i.evalExpr e m with
    | error failure m' => rfl
    | ok v m' =>
      dsimp only
      rw [evalExprs_append i es' es m']
      cases i.evalExprs es m' with
      | error failure m'' => rfl
      | ok vs m'' =>
        dsimp only
        cases i.evalExprs es' m'' <;> rfl

/-- **An induction along a program**: `P` holds of the values so far, the last one first, and of the machine, as long as
no expression fails, and `Q` when one has failed. -/
theorem evalExprs_induction {i : Interpreter} {P : List Value → Machine → Prop} {Q : Error → Machine → Prop}
    {es : List Expr} {m : Machine} (start : P [] m)
    (ok : ∀ e ∈ es, ∀ vs n v n', P vs n → i.evalExpr e n = .ok v n' → P (v :: vs) n')
    (error : ∀ e ∈ es, ∀ vs n failure n', P vs n → i.evalExpr e n = .error failure n' → Q failure n') :
    match i.evalExprs es m with
    | .ok vs m' => P vs.reverse m'
    | .error failure m' => Q failure m' := by
  suffices h : ∀ vs, P vs m → match i.evalExprs es m with
      | .ok ws m' => P (ws.reverse ++ vs) m'
      | .error failure m' => Q failure m' by
    simpa only [List.append_nil] using h [] start
  clear start
  induction es generalizing m with
  | nil => exact fun vs h => h
  | cons e es ih =>
    intro vs h
    rw [evalExprs_cons]
    cases heval : i.evalExpr e m with
    | error failure m' => exact error e List.mem_cons_self vs m failure m' h heval
    | ok v m' =>
      have hrest := ih (fun d hd => ok d (List.mem_cons_of_mem e hd)) (fun d hd => error d (List.mem_cons_of_mem e hd))
        (v :: vs) (ok e List.mem_cons_self vs m v m' h heval)
      dsimp only
      generalize i.evalExprs es m' = r at hrest
      match r, hrest with
      | .error failure m'', hrest => exact hrest
      | .ok ws m'', hrest =>
        show P ((v :: ws).reverse ++ vs) m''
        rwa [List.reverse_cons, List.append_assoc]

theorem evalAll_of_parse {i : Interpreter} {source text : String} {es : List Expr} (h : i.parse source text = .ok es)
    (m : Machine) : i.evalAll source text m = i.evalExprs es m := by
  unfold evalAll
  rw [h]

/-- A prelude is a program that a new interpreter runs. -/
theorem createWith_some (limit : Nat) (text : String) (m : Machine) :
    createWith limit (some text) m = match (create limit m).1.evalAll preludeSource text (create limit m).2 with
      | .error failure m' => .error failure m'
      | .ok _ m' => .ok (create limit m).1 m' := by
  show EStateM.bind ((create limit m).1.evalAll preludeSource text) _ (create limit m).2 = _
  unfold EStateM.bind
  cases (create limit m).1.evalAll preludeSource text (create limit m).2 <;> rfl

end MiniLisp.Interpreter
