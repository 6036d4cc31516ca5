import MiniLisp.Program.Parse
/-!
# Failure — the errors of parsing

A token is refused because it cannot stand where it does, or opens a form too many; some refusals give way to a forbidden
character right behind the token (`Program.step_late`).  So parsing fails with one of four errors
(`Program.ofParsing_of_parse`): one of these, or an end that comes too early.
-/
namespace MiniLisp

/-- **The errors of a token**: it cannot stand where it does, or opens a form too many. -/
inductive Error.OfToken : Error → Prop
  | parse (problem : ParseProblem) (token : Token) : OfToken (.parse problem token)
  | nestedTooDeeply (source : String) : OfToken (.nestedTooDeeply source)

/-- **The errors that parsing makes.** -/
inductive Error.OfParsing : Error → Prop
  | forbidden (cause : Forbidden) : OfParsing (.forbidden cause)
  | parse (problem : ParseProblem) (token : Token) : OfParsing (.parse problem token)
  | unexpectedEnd (place : Unfinished) (pos : Position) : OfParsing (.unexpectedEnd place pos)
  | nestedTooDeeply (source : String) : OfParsing (.nestedTooDeeply source)

theorem Error.OfToken.ofParsing {e : Error} (h : e.OfToken) : e.OfParsing := by
  cases h with
  | parse problem token => exact .parse problem token
  | nestedTooDeeply source => exact .nestedTooDeeply source

/-- **An answer, and what it would be with nothing behind the token**: the same, but a forbidden character that is right
behind the token may be reported in place of an error of the token. -/
inductive Late {α : Type} (behind : Option Forbidden) : Except Error α → Except Error α → Prop
  | ok (a : α) : Late behind (.ok a) (.ok a)
  | error {e : Error} : e.OfToken → Late behind (.error e) (.error e)
  | forbidden {e : Error} {cause : Forbidden} : e.OfToken → cause ∈ behind →
      Late behind (.error (.forbidden cause)) (.error e)

namespace Late

variable {α β : Type} {behind : Option Forbidden} {x y : Except Error α}

theorem map (h : Late behind x y) (f : α → β) : Late behind (x.map f) (y.map f) := by
  cases h with
  | ok a => exact .ok (f a)
  | error he => exact .error he
  | forbidden he hcause => exact .forbidden he hcause

theorem noticed (h : Late none x x) : Late behind (Program.noticedLate behind x) (Program.noticedLate none x) := by
  cases h with
  | ok a => exact .ok a
  | error he =>
    cases behind with
    | none => exact .error he
    | some cause => exact .forbidden he rfl
  | forbidden _ hcause => cases hcause

theorem ofParsing (h : Late behind x y) : ∀ e, x = .error e → e.OfParsing := by
  rintro e rfl
  cases h with
  | error he => exact he.ofParsing
  | forbidden _ _ => exact .forbidden _

end Late

/-! ## Closing forms -/

namespace Form

theorem late_close (behind : Option Forbidden) (f : Form) : Late behind f.close f.close := by
  unfold close
  split
  case h_5 =>
    unfold closeCond
    split
    case h_1 | h_5 => exact .error (.parse _ _)
    all_goals exact .ok _
  case h_6 =>
    unfold closeDefine
    split
    case h_1 => exact .ok _
    all_goals exact .error (.parse _ _)
  all_goals exact .ok _

theorem ofParsing_unfinished (f : Form) (pos : Position) : (f.unfinished pos).OfParsing := by
  have hclose := (f.late_close none).ofParsing
  unfold unfinished
  split
  case h_4 | h_5 | h_6 | h_7 =>
    cases h : f.close with
    | ok e => exact .unexpectedEnd _ _
    | error e => exact hclose e h
  all_goals exact .unexpectedEnd _ _

end Form

/-! ## Parsing -/

namespace Program

variable (limit : Nat) (behind : Option Forbidden) (p : Program) (t : Token)

theorem item_late : Late behind (p.item limit behind t) (p.item limit none t) := by
  unfold item
  split
  · unfold openForm
    by_cases hlimit : p.forms.length < limit
    · rw [if_pos hlimit]
      exact .ok _
    · rw [if_neg hlimit]
      exact .error (.nestedTooDeeply _)
  · unfold closeForm
    split
    · exact .error (.parse _ _)
    · exact (Form.late_close _ _).map _
  · exact .ok _
  · refine .noticed (.map ?_ _)
    unfold operator
    split
    · exact .ok _
    · exact .error (.parse _ _)
  · refine .noticed (.map ?_ _)
    unfold number
    split
    · split
      · exact .ok _
      · exact .error (.parse _ _)
    · exact .error (.parse _ _)
  · exact .ok _
  · exact .error (.parse _ _)

/-- **A step takes its token or refuses it**, whatever is behind; what is behind decides at most which error that is. -/
theorem step_late : Late behind (p.step limit behind t) (p.step limit none t) := by
  unfold step
  split
  · exact item_late limit behind p t
  · split
    case h_1 =>
      split
      · exact .ok _
      · exact .error (.parse _ _)
    case h_2 =>
      refine .map ?_ _
      unfold param
      split
      · exact .ok _
      · exact .ok _
      · exact .noticed (.error (.parse _ _))
    case h_3 =>
      split
      · exact .ok _
      · exact item_late limit behind p t
    all_goals exact item_late limit behind p t

theorem ofParsing_finish (ending : Ending) : ∀ e, p.finish ending = .error e → e.OfParsing := by
  unfold finish
  split
  · rintro _ ⟨⟩
    exact .forbidden _
  · split
    · exact nofun
    · rintro _ ⟨⟩
      exact Form.ofParsing_unfinished _ _

theorem ofParsing_steps (ending : Ending) : ∀ (ts : List Token) (p : Program) (e : Error),
    steps limit ending p ts = .error e → e.OfParsing
  | [], p, e, h => ofParsing_finish p ending e h
  | t :: ts, p, e, h => by
    rw [steps] at h
    cases hstep : p.step limit (if ts.isEmpty then ending.refusal? else none) t with
    | ok p' =>
      rw [hstep] at h
      exact ofParsing_steps ending ts p' e h
    | error e' =>
      rw [hstep] at h
      obtain rfl := Except.error.inj h
      exact (step_late limit _ p t).ofParsing e' hstep

/-- **Parsing fails with errors of parsing only.** -/
theorem ofParsing_of_parse {limit : Nat} {source text : String} {e : Error}
    (h : parse limit source text = .error e) : e.OfParsing :=
  ofParsing_steps limit _ _ _ e h

end Program

end MiniLisp
