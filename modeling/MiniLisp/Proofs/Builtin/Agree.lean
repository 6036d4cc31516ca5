import MiniLisp.Builtin.Number
import MiniLisp.Builtin.Run
import MiniLisp.Proofs.Arguments.Agree
/-!
# Agree — built-ins on values that differ in their functions

A built-in on data looks at no function, so on arguments that agree it answers with values that agree, or with one and
the same error.  The only texts that it makes are joined from those of its arguments.
-/
namespace MiniLisp

open ValueReading (read one one_agree optional_agree rest_agree read_agree agree_pure)
open Expected (any_sees number_sees string_sees bool_sees pair_sees list_sees map_sees function_sees)

variable {T : String → Prop} {R : Function → Function → Prop} {args args' : List Value}

/-! ## Operators -/

namespace Operator

theorem folded_agree (op : Operator) (f : Float → Float → Float)
    (hargs : List.Forall₂ (Value.Agree T R) args args') :
    Answers (Value.Agree T R) (op.folded f args) (op.folded f args') := by
  refine read_agree ((one_agree number_sees).bind fun a b hab => ?_) _ hargs
  refine (rest_agree number_sees).bind fun as bs habs => agree_pure ?_
  obtain rfl := hab
  obtain rfl := List.forall₂_eq_eq_eq ▸ habs
  exact .number _

theorem compared_agree (op : Operator) (f : Float → Float → Bool)
    (hargs : List.Forall₂ (Value.Agree T R) args args') :
    Answers (Value.Agree T R) (op.compared f args) (op.compared f args') := by
  refine read_agree ((one_agree number_sees).bind fun a b hab => ?_) _ hargs
  refine (one_agree number_sees).bind fun c d hcd => agree_pure ?_
  obtain rfl := hab
  obtain rfl := hcd
  exact .bool _

theorem apply_agree (op : Operator) (hargs : List.Forall₂ (Value.Agree T R) args args') :
    Answers (Value.Agree T R) (op.apply args) (op.apply args') := by
  cases op with
  | add | sub | mul | div => exact folded_agree _ _ hargs
  | eq | lt | gt | le | ge => exact compared_agree _ _ hargs

end Operator

namespace Builtin

/-! ## Booleans, strings and pairs -/

theorem conjunction_agree (hargs : List.Forall₂ (Value.Agree T R) args args') :
    Answers (Value.Agree T R) (conjunction args) (conjunction args') := by
  refine read_agree ((one_agree bool_sees).bind fun a b hab => ?_) _ hargs
  refine (rest_agree bool_sees).bind fun as bs habs => agree_pure ?_
  obtain rfl := hab
  obtain rfl := List.forall₂_eq_eq_eq ▸ habs
  exact .bool _

theorem disjunction_agree (hargs : List.Forall₂ (Value.Agree T R) args args') :
    Answers (Value.Agree T R) (disjunction args) (disjunction args') := by
  refine read_agree ((one_agree bool_sees).bind fun a b hab => ?_) _ hargs
  refine (rest_agree bool_sees).bind fun as bs habs => agree_pure ?_
  obtain rfl := hab
  obtain rfl := List.forall₂_eq_eq_eq ▸ habs
  exact .bool _

theorem negation_agree (hargs : List.Forall₂ (Value.Agree T R) args args') :
    Answers (Value.Agree T R) (negation args) (negation args') := by
  refine read_agree ((one_agree bool_sees).bind fun a b hab => agree_pure ?_) _ hargs
  obtain rfl := hab
  exact .bool _

theorem texts_of_forall₂ {as bs : List String} (h : List.Forall₂ (fun a b => a = b ∧ T a) as bs) :
    as = bs ∧ ∀ a ∈ as, T a := by
  induction h with
  | nil => exact ⟨rfl, nofun⟩
  | cons hab _ ih =>
    obtain ⟨rfl, hT⟩ := hab
    obtain ⟨rfl, hTs⟩ := ih
    exact ⟨rfl, List.forall_mem_cons.2 ⟨hT, hTs⟩⟩

theorem concatenation_agree (hT : ∀ texts : List String, (∀ text ∈ texts, T text) → T ("".intercalate texts))
    (hargs : List.Forall₂ (Value.Agree T R) args args') :
    Answers (Value.Agree T R) (concatenation args) (concatenation args') := by
  refine read_agree ((rest_agree string_sees).bind fun as bs habs => agree_pure ?_) _ hargs
  obtain ⟨rfl, htexts⟩ := texts_of_forall₂ habs
  exact .string (hT _ htexts)

theorem stringEquality_agree (hargs : List.Forall₂ (Value.Agree T R) args args') :
    Answers (Value.Agree T R) (stringEquality args) (stringEquality args') := by
  refine read_agree ((one_agree string_sees).bind fun a b hab => ?_) _ hargs
  refine (one_agree string_sees).bind fun c d hcd => agree_pure ?_
  obtain ⟨rfl, -⟩ := hab
  obtain ⟨rfl, -⟩ := hcd
  exact .bool _

theorem getD_agree {v? w? : Option Value} (h : Option.Rel (Value.Agree T R) v? w?) :
    Value.Agree T R (v?.getD .nil) (w?.getD .nil) := by
  cases h with
  | none => exact .nil
  | some hvw => exact hvw

theorem pairOf_agree (hargs : List.Forall₂ (Value.Agree T R) args args') :
    Answers (Value.Agree T R) (pairOf args) (pairOf args') := by
  refine read_agree (optional_agree.bind fun a b hab => ?_) _ hargs
  refine optional_agree.bind fun c d hcd => agree_pure ?_
  exact .pair (getD_agree hab) (getD_agree hcd)

theorem leftOf_agree (hargs : List.Forall₂ (Value.Agree T R) args args') :
    Answers (Value.Agree T R) (leftOf args) (leftOf args') :=
  read_agree ((one_agree pair_sees).bind fun _ _ hab => agree_pure hab.1) _ hargs

theorem rightOf_agree (hargs : List.Forall₂ (Value.Agree T R) args args') :
    Answers (Value.Agree T R) (rightOf args) (rightOf args') :=
  read_agree ((one_agree pair_sees).bind fun _ _ hab => agree_pure hab.2) _ hargs

/-! ## Lists -/

theorem getElem?_agree {vs ws : List Value} (h : List.Forall₂ (Value.Agree T R) vs ws) : ∀ i : Nat,
    Option.Rel (Value.Agree T R) vs[i]? ws[i]? := by
  induction h with
  | nil => exact fun _ => .none
  | cons hvw _ ih =>
    intro i
    cases i with
    | zero => exact .some hvw
    | succ i => exact ih i

theorem elementAt_agree {vs ws : List Value} (h : List.Forall₂ (Value.Agree T R) vs ws) (x : Float) :
    Answers (Value.Agree T R) (elementAt vs x) (elementAt ws x) := by
  unfold elementAt
  by_cases hx : Number.isFinite x = true
  · rw [if_pos hx, if_pos hx, h.length_eq]
    cases Number.floor x with
    | ofNat i =>
      have hitem := getElem?_agree h i
      dsimp only
      generalize vs[i]? = v? at hitem
      generalize ws[i]? = w? at hitem
      cases hitem with
      | none => exact .error (.indexOutOfBounds _ _)
      | some hvw => exact .ok hvw
    | negSucc i => exact .error (.indexOutOfBounds _ _)
  · rw [if_neg hx, if_neg hx]
    exact .error (.indexNotFinite _)

theorem element_agree (hargs : List.Forall₂ (Value.Agree T R) args args') :
    Answers (Value.Agree T R) (element args) (element args') := by
  have hreading : ValueReading.Agree T R (fun a b => List.Forall₂ (Value.Agree T R) a.1 b.1 ∧ a.2 = b.2)
      (do return (← one .list, ← one .number))
      (do return (← one .list, ← one .number)) :=
    (one_agree list_sees).bind fun vs ws hvws => (one_agree number_sees).bind fun x y hxy => agree_pure ⟨hvws, hxy⟩
  refine (read_agree hreading listGet.name hargs).bind fun a b hab => ?_
  obtain ⟨vs, x⟩ := a
  obtain ⟨ws, y⟩ := b
  obtain ⟨hvws, rfl⟩ := hab
  exact elementAt_agree hvws x

theorem length_agree (hargs : List.Forall₂ (Value.Agree T R) args args') :
    Answers (Value.Agree T R) (length args) (length args') := by
  have hread := read_agree (one_agree any_sees) len.name hargs
  refine hread.bind fun v w hvw => ?_
  cases hvw with
  | list hitems =>
    simp only [hitems.length_eq]
    exact .ok (.number _)
  | @map es fs hkeys _ _ =>
    have hlength : es.length = fs.length := by simpa [Entries.keys] using congrArg List.length hkeys
    simp only [hlength]
    exact .ok (.number _)
  | string _ => exact .ok (.number _)
  | _ => exact .error (.argument _ _ _)

/-- What a higher-order built-in on lists reads. -/
theorem list_function_agree (name : String) (hargs : List.Forall₂ (Value.Agree T R) args args') :
    Answers (fun a b => List.Forall₂ (Value.Agree T R) a.1 b.1 ∧ R a.2 b.2)
      (read name args do return (← one .list, ← one .function))
      (read name args' do return (← one .list, ← one .function)) := by
  refine read_agree ((one_agree list_sees).bind fun vs ws hvws => ?_) name hargs
  exact (one_agree function_sees).bind fun f g hfg => agree_pure ⟨hvws, hfg⟩

theorem value_list_function_agree (name : String) (hargs : List.Forall₂ (Value.Agree T R) args args') :
    Answers (fun a b => Value.Agree T R a.1 b.1 ∧ List.Forall₂ (Value.Agree T R) a.2.1 b.2.1 ∧ R a.2.2 b.2.2)
      (read name args do return (← one .any, ← one .list, ← one .function))
      (read name args' do
        return (← one .any, ← one .list, ← one .function)) := by
  refine read_agree ((one_agree any_sees).bind fun v w hvw => ?_) name hargs
  refine (one_agree list_sees).bind fun vs ws hvws => ?_
  exact (one_agree function_sees).bind fun f g hfg => agree_pure ⟨hvw, hvws, hfg⟩

theorem verdict_agree {v w : Value} (h : Value.Agree T R v w) : Answers Eq (verdict v) (verdict w) := by
  cases h with
  | bool b => exact .ok rfl
  | nil => exact .ok rfl
  | _ => exact .error (.type _ _)

/-! ## Maps -/

theorem entriesOf_agree : ∀ (index : Nat) {es fs : Entries Value}, List.Forall₂ (EntryAgree T (Value.Agree T R)) es fs →
    ∀ {args args' : List Value}, List.Forall₂ (Value.Agree T R) args args' →
      Answers (List.Forall₂ (EntryAgree T (Value.Agree T R))) (entriesOf index es args) (entriesOf index fs args')
  | _, _, _, hes, _, _, .nil => .ok hes
  | _, _, _, hes, _, _, .cons hkey .nil => by
    cases hkey <;> exact .ok hes
  | index, es, fs, hes, _, _, .cons hkey (.cons hv hargs) => by
    cases hkey with
    | string htext =>
      rw [entriesOf, entriesOf]
      exact entriesOf_agree (index + 2) (Entries.agree_insert hes htext hv) hargs
    | _ => exact .error (.argument _ _ _)

theorem mapOf_agree (hargs : List.Forall₂ (Value.Agree T R) args args') :
    Answers (Value.Agree T R) (mapOf args) (mapOf args') := by
  unfold mapOf
  rw [hargs.length_eq]
  by_cases heven : args'.length % 2 = 0
  · rw [if_pos heven, if_pos heven]
    refine (entriesOf_agree 0 .nil hargs).bind fun es fs hes => ?_
    exact .ok (Value.agree_map_iff.2 hes)
  · rw [if_neg heven, if_neg heven]
    exact .error (.argument _ _ _)

theorem valueUnder_agree (hargs : List.Forall₂ (Value.Agree T R) args args') :
    Answers (Value.Agree T R) (valueUnder args) (valueUnder args') := by
  refine read_agree ((one_agree map_sees).bind fun es fs hes => ?_) _ hargs
  refine (one_agree string_sees).bind fun a b hab => agree_pure ?_
  obtain ⟨rfl, -⟩ := hab
  exact getD_agree (Entries.agree_get? hes a)

theorem keysOf_agree (hargs : List.Forall₂ (Value.Agree T R) args args') :
    Answers (Value.Agree T R) (keysOf args) (keysOf args') := by
  refine read_agree ((one_agree map_sees).bind fun es fs hes => agree_pure ?_) _ hargs
  obtain ⟨hkeys, htexts, -⟩ := Entries.agree_iff.1 hes
  rw [hkeys] at htexts ⊢
  refine .list (List.forall₂_map_left_iff.2 (List.forall₂_map_right_iff.2 (List.forall₂_same.2 ?_)))
  exact fun key hkey => .string (htexts key hkey)

theorem valuesOf_agree (hargs : List.Forall₂ (Value.Agree T R) args args') :
    Answers (Value.Agree T R) (valuesOf args) (valuesOf args') :=
  read_agree ((one_agree map_sees).bind fun _ _ hes => agree_pure (.list (Entries.agree_iff.1 hes).2.2)) _ hargs

/-- What a higher-order built-in on maps reads. -/
theorem map_function_agree (name : String) (hargs : List.Forall₂ (Value.Agree T R) args args') :
    Answers (fun a b => List.Forall₂ (EntryAgree T (Value.Agree T R)) a.1 b.1 ∧ R a.2 b.2)
      (read name args do return (← one .map, ← one .function))
      (read name args' do return (← one .map, ← one .function)) := by
  refine read_agree ((one_agree map_sees).bind fun es fs hes => ?_) name hargs
  exact (one_agree function_sees).bind fun f g hfg => agree_pure ⟨hes, hfg⟩

theorem value_map_function_agree (name : String) (hargs : List.Forall₂ (Value.Agree T R) args args') :
    Answers (fun a b => Value.Agree T R a.1 b.1 ∧ List.Forall₂ (EntryAgree T (Value.Agree T R)) a.2.1 b.2.1 ∧
        R a.2.2 b.2.2)
      (read name args do return (← one .any, ← one .map, ← one .function))
      (read name args' do
        return (← one .any, ← one .map, ← one .function)) := by
  refine read_agree ((one_agree any_sees).bind fun v w hvw => ?_) name hargs
  refine (one_agree map_sees).bind fun es fs hes => ?_
  exact (one_agree function_sees).bind fun f g hfg => agree_pure ⟨hvw, hes, hfg⟩

/-! ## Printing -/

/-- Values that agree are printed alike, if their functions have the same names. -/
theorem line_agree (hname : ∀ f g, R f g → f.name = g.name) (hargs : List.Forall₂ (Value.Agree T R) args args') :
    line args = line args' := by
  have htexts : args.map Value.inspect = args'.map Value.inspect := by
    induction hargs with
    | nil => rfl
    | cons hvw _ ih => rw [List.map_cons, List.map_cons, ih, Value.inspect, Value.inspect, hvw.chars_eq hname]
  rw [line, line, htexts]

/-- What a built-in does itself goes as deep on values that agree. -/
theorem fits_agree (depth : Nat) (b : Builtin) (hargs : List.Forall₂ (Value.Agree T R) args args') :
    b.fits depth args = b.fits depth args' := by
  cases b with
  | print =>
    rw [fits, fits]
    induction hargs with
    | nil => rfl
    | cons hvw _ ih => rw [List.all_cons, List.all_cons, hvw.height_eq, ih]
  | _ => rfl

end Builtin

end MiniLisp
