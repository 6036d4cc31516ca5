import MiniLisp.Proofs.Eval.Depth
import MiniLisp.Proofs.Eval.Starts
/-!
# Pass — a function applied to one element after another

The higher-order built-ins pass through a list or a map and apply a function at each element.  `Builtin.pass?` says what
each of them gives to its function and makes of the answers; and they do nothing else than to apply it directly, once at
each element and in order, up to the first application that fails or is answered with no verdict
(`Builtin.apply_higherOrder`).
-/
namespace MiniLisp

open Builtin (mapItems filterItems foldItems verdict)

/-! ## Passes -/

/-- **What a higher-order built-in does with its function.** -/
structure Pass where
  /-- What the function is given at each element. -/
  elements : List (List Value)
  /-- What it is given in front of that, by its answers so far. -/
  given : List Value → List Value
  /-- Whether an answer is a verdict, where one is asked for. -/
  check : Value → Except Error Unit
  /-- The value of the operation, by the answers. -/
  result : List Value → Value

namespace Pass

def mapping (elements : List (List Value)) (result : List Value → Value) : Pass :=
  ⟨elements, fun _ => [], fun _ => .ok (), result⟩

/-- True, false and nil are verdicts.  For any other answer the error says that a bool was expected, and what there was
instead. -/
def asVerdict : Value → Except Error Unit
  | .bool _ | .nil => .ok ()
  | v => .error (.type .bool v.kind none)

def filtering (elements : List (List Value)) (result : List Value → Value) : Pass :=
  ⟨elements, fun _ => [], asVerdict, result⟩

/-- What has been accumulated is the last answer, or what the reduction starts with. -/
def folding (start : Value) (elements : List (List Value)) : Pass :=
  ⟨elements, fun answers => [answers.getLast?.getD start], fun _ => .ok (), fun answers => answers.getLast?.getD start⟩

/-- **An answer is refused if it is neither a bool nor nil.** -/
theorem asVerdict_error_iff (v : Value) (e : Error) :
    asVerdict v = .error e ↔ v.kind ≠ .bool ∧ v.kind ≠ .nil ∧ e = .type .bool v.kind none := by
  cases v <;> simp [asVerdict, Value.kind, eq_comm]

theorem asVerdict_eq (v : Value) : asVerdict v = (verdict v).map fun _ => () := by
  cases v <;> rfl

variable (p : Pass) (call : List Value → EvalM Value)

/-- **A function applied directly, one time after another**: it is given the elements, in order, each behind what the
answers before it come to, and answers without an error. -/
inductive Applied (m : Machine) : List (List Value) → List Value → Machine → Prop
  | nil : Applied m [] [] m
  | concat {elements : List (List Value)} {answers : List Value} {m₁ m₂ : Machine} {element : List Value} {v : Value} :
      Applied m elements answers m₁ → call (p.given answers ++ element) m₁ = .ok v m₂ → p.check v = .ok () →
      Applied m (elements ++ [element]) (answers ++ [v]) m₂

/-- **How the operation ends**: with its value, when the function has been applied at every element; or in front of
others, where an application fails or is answered with no verdict. -/
inductive Ends (m : Machine) : EStateM.Result Halt Machine Value → Prop
  | value {answers : List Value} {m' : Machine} : p.Applied call m p.elements answers m' →
      Ends m (.ok (p.result answers) m')
  | failed {before after : List (List Value)} {element answers : List Value} {m₁ m₂ : Machine} {halt : Halt} :
      p.elements = before ++ element :: after → p.Applied call m before answers m₁ →
      call (p.given answers ++ element) m₁ = .error halt m₂ → Ends m (.error halt m₂)
  | refused {before after : List (List Value)} {element answers : List Value} {m₁ m₂ : Machine} {v : Value} {e : Error} :
      p.elements = before ++ element :: after → p.Applied call m before answers m₁ →
      call (p.given answers ++ element) m₁ = .ok v m₂ → p.check v = .error e → Ends m (.error (.failed e) m₂)

/-- The answers at the elements that are left, behind those so far. -/
def answers : List Value → List (List Value) → EvalM (List Value)
  | _, [] => pure []
  | before, element :: rest => do
    let v ← call (p.given before ++ element)
    EvalM.ofExcept (p.check v)
    let vs ← answers (before ++ [v]) rest
    pure (v :: vs)

def run : EvalM Value := do
  return p.result (← p.answers call [] p.elements)

variable {p call} {m m' : Machine} {done rest : List (List Value)} {vs : List Value}

theorem Applied.length_eq (h : p.Applied call m done vs m') : vs.length = done.length := by
  induction h with
  | nil => rfl
  | concat _ _ _ ih => rw [List.length_append, List.length_append, ih]; rfl

/-- The answer at an element is what the function answers there, behind the answers before it. -/
theorem Applied.answer (h : p.Applied call m done vs m') {i : Nat} {element : List Value} {v : Value}
    (helement : done[i]? = some element) (hv : vs[i]? = some v) : ∃ m₁ m₂,
      p.Applied call m (done.take i) (vs.take i) m₁ ∧ call (p.given (vs.take i) ++ element) m₁ = .ok v m₂ := by
  induction h with
  | nil => cases helement
  | @concat elements answers m₁ m₂ last w happlied hcall _ ih =>
    have hlength := happlied.length_eq
    by_cases hi : i < elements.length
    · rw [List.getElem?_append_left hi] at helement
      rw [List.getElem?_append_left (hlength ▸ hi)] at hv
      have hle : i ≤ elements.length := Nat.le_of_lt hi
      rw [List.take_append_of_le_length hle, List.take_append_of_le_length (hlength ▸ hle)]
      exact ih helement hv
    · have hlast : i = elements.length := by
        have hbound := (List.getElem?_eq_some_iff.1 helement).1
        rw [List.length_append, List.length_singleton] at hbound
        omega
      subst hlast
      rw [List.getElem?_concat_length] at helement
      rw [← hlength, List.getElem?_concat_length] at hv
      obtain rfl := Option.some.inj helement
      obtain rfl := Option.some.inj hv
      refine ⟨m₁, m₂, ?_⟩
      rw [List.take_left, ← hlength, List.take_left]
      exact ⟨happlied, hcall⟩

/-! ## Running a pass -/

section

variable {before element : List Value} {m₁ : Machine} {v : Value}

theorem answers_failed {halt : Halt} (h : call (p.given before ++ element) m = .error halt m₁)
    (rest : List (List Value)) : p.answers call before (element :: rest) m = .error halt m₁ := by
  rw [answers, EvalM.bind_apply, h]

theorem answers_refused {e : Error} (h : call (p.given before ++ element) m = .ok v m₁) (hcheck : p.check v = .error e)
    (rest : List (List Value)) : p.answers call before (element :: rest) m = .error (.failed e) m₁ := by
  rw [answers, EvalM.bind_apply, h]
  dsimp only
  rw [EvalM.bind_apply, hcheck]
  rfl

theorem answers_ok (h : call (p.given before ++ element) m = .ok v m₁) (hcheck : p.check v = .ok ())
    (rest : List (List Value)) : p.answers call before (element :: rest) m =
      (p.answers call (before ++ [v]) rest >>= fun vs => pure (v :: vs)) m₁ := by
  rw [answers, EvalM.bind_apply, h]
  dsimp only
  rw [EvalM.bind_apply, hcheck]
  rfl

end

/-- The end of a pass, by how its last answers come out. -/
def conclude (p : Pass) (vs : List Value) :
    EStateM.Result Halt Machine (List Value) → EStateM.Result Halt Machine Value
  | .ok ws m => .ok (p.result (vs ++ ws)) m
  | .error halt m => .error halt m

theorem run_apply (m : Machine) : p.run call m = p.conclude [] (p.answers call [] p.elements m) := by
  rw [run, EvalM.bind_apply]
  cases p.answers call [] p.elements m <;> rfl

theorem conclude_cons (v : Value) (x : EvalM (List Value)) (m : Machine) :
    p.conclude vs ((x >>= fun ws => pure (v :: ws)) m) = p.conclude (vs ++ [v]) (x m) := by
  rw [EvalM.bind_apply]
  cases x m with
  | error halt m' => rfl
  | ok ws m' =>
    rw [conclude, List.append_assoc]
    rfl

/-- Behind the first applications a pass goes on with the elements that are left. -/
theorem Applied.conclude_eq (h : p.Applied call m done vs m') (rest : List (List Value)) :
    p.conclude [] (p.answers call [] (done ++ rest) m) = p.conclude vs (p.answers call vs rest m') := by
  induction h generalizing rest with
  | nil => rfl
  | concat _ hcall hcheck ih => rw [List.append_assoc, ih, List.singleton_append, answers_ok hcall hcheck, conclude_cons]

theorem conclude_nil (vs : List Value) (m : Machine) :
    p.conclude vs (p.answers call vs [] m) = .ok (p.result vs) m := by
  rw [answers]
  show EStateM.Result.ok (p.result (vs ++ [])) m = _
  rw [List.append_nil]

/-- **A pass ends as direct applications do**, one after another. -/
theorem Applied.ends (h : p.Applied call m done vs m') (helements : p.elements = done ++ rest) :
    p.Ends call m (p.conclude vs (p.answers call vs rest m')) := by
  induction rest generalizing done vs m' with
  | nil =>
    rw [List.append_nil] at helements
    rw [conclude_nil]
    exact .value (helements ▸ h)
  | cons element rest ih =>
    cases hcall : call (p.given vs ++ element) m' with
    | error halt m'' =>
      rw [answers_failed hcall]
      exact .failed helements h hcall
    | ok v m'' =>
      cases hcheck : p.check v with
      | error e =>
        rw [answers_refused hcall hcheck]
        exact .refused helements h hcall hcheck
      | ok _ =>
        rw [answers_ok hcall hcheck, conclude_cons]
        exact ih (h.concat hcall hcheck) (by rw [helements, List.append_assoc, List.singleton_append])

/-- **A pass ends in the way that it does, and in no other.** -/
theorem run_eq_iff {r : EStateM.Result Halt Machine Value} : p.run call m = r ↔ p.Ends call m r := by
  rw [run_apply]
  constructor
  · rintro rfl
    exact Applied.nil.ends rfl
  · intro h
    cases h with
    | value happlied =>
      have hall := happlied.conclude_eq []
      rwa [List.append_nil, conclude_nil] at hall
    | failed helements happlied hcall =>
      rw [helements, happlied.conclude_eq, answers_failed hcall]
      rfl
    | refused helements happlied hcall hcheck =>
      rw [helements, happlied.conclude_eq, answers_refused hcall hcheck]
      rfl

/-- Where a pass does not run out of depth, it ends the same way with a function that answers alike wherever it does
not run out of depth. -/
theorem Ends.congr {call' : List Value → EvalM Value} {r : EStateM.Result Halt Machine Value}
    (hcall' : ∀ args m, (∀ m', call args m ≠ .error .exhausted m') → call' args m = call args m)
    (hr : ∀ m', r ≠ .error .exhausted m') (h : p.Ends call m r) : p.Ends call' m r := by
  have hok : ∀ {args : List Value} {m m' : Machine} {v : Value}, call args m = .ok v m' → call' args m = .ok v m' := by
    intro args m m' v hcall
    rw [hcall' args m (by rw [hcall]; exact nofun), hcall]
  have happlied' : ∀ {done : List (List Value)} {vs : List Value} {m' : Machine},
      p.Applied call m done vs m' → p.Applied call' m done vs m' := by
    intro done vs m' happlied
    induction happlied with
    | nil => exact .nil
    | concat _ hcall hcheck ih => exact .concat ih (hok hcall) hcheck
  cases h with
  | value happlied => exact .value (happlied' happlied)
  | @failed before after element answers m₁ m₂ halt helements happlied hcall =>
    have hnot : ∀ m', call (p.given answers ++ element) m₁ ≠ .error .exhausted m' := by
      rw [hcall]
      rintro m' ⟨⟩
      exact hr _ rfl
    exact .failed helements (happlied' happlied) ((hcall' _ _ hnot).trans hcall)
  | refused helements happlied hcall hcheck => exact .refused helements (happlied' happlied) (hok hcall) hcheck

end Pass

/-! ## Arguments that do not fit -/

namespace ValueReading

variable {α β : Type}

/-- A reading that blames the arguments of the function that it reads for, and no others. -/
def Blames (r : ValueReading α) : Prop :=
  ∀ s, (r s).2.fn = s.fn ∧ ∀ e, (r s).1 = .error e → ∃ index problem, e = .argument s.fn index problem

theorem blames_pure (a : α) : Blames (pure a) := fun _ => ⟨rfl, nofun⟩

theorem Blames.bind {r : ValueReading α} {f : α → ValueReading β} (h : Blames r) (hf : ∀ a, Blames (f a)) :
    Blames (r >>= f) := by
  intro s
  obtain ⟨hfn, herror⟩ := h s
  rw [bind_apply]
  match hr : r s with
  | (.ok a, s') =>
    rw [hr] at hfn
    obtain ⟨hfn', herror'⟩ := hf a s'
    dsimp only at hfn ⊢
    rw [hfn] at hfn' herror'
    exact ⟨hfn', herror'⟩
  | (.error e, s') =>
    rw [hr] at hfn herror
    refine ⟨hfn, ?_⟩
    rintro _ ⟨⟩
    exact herror e rfl

theorem blames_optional : Blames optional := by
  rintro ⟨fn, index, pending⟩
  cases pending with
  | nil => exact ⟨rfl, nofun⟩
  | cons v rest => exact ⟨rfl, nofun⟩

theorem blames_throw (back : Nat) (problem : ArgumentProblem) :
    Blames (do let s ← get; throw (.argument s.fn (s.index - back) problem) : ValueReading α) := by
  refine fun s => ⟨rfl, ?_⟩
  rintro _ ⟨⟩
  exact ⟨_, _, rfl⟩

theorem blames_one (expected : Expected α) : Blames (one expected) := by
  refine blames_optional.bind fun v? => ?_
  cases v? with
  | none => exact blames_throw 0 _
  | some v =>
    cases hview : expected.view v with
    | some a =>
      simp only [hview]
      exact blames_pure a
    | none =>
      simp only [hview]
      exact blames_throw 1 _

theorem blames_two (x : Expected α) (y : Expected β) : Blames (do return (← one x, ← one y)) :=
  (blames_one x).bind fun _ => (blames_one y).bind fun _ => blames_pure _

theorem blames_three {γ : Type} (x : Expected α) (y : Expected β) (z : Expected γ) :
    Blames (do return (← one x, ← one y, ← one z)) :=
  (blames_one x).bind fun _ => (blames_one y).bind fun _ => (blames_one z).bind fun _ => blames_pure _

theorem blames_complete : Blames (Arguments.complete fetch) := by
  refine blames_optional.bind fun v? => ?_
  cases v? with
  | none => exact blames_pure ()
  | some _ => exact blames_throw 1 _

/-- **A reading that fails names the function** whose arguments do not fit. -/
theorem read_error {r : ValueReading α} (h : Blames r) {fn : String} {args : List Value} {e : Error}
    (hread : read fn args r = .error e) : ∃ index problem, e = .argument fn index problem := by
  have hall : Blames (do let a ← r; Arguments.complete fetch; pure a) :=
    h.bind fun a => blames_complete.bind fun _ => blames_pure a
  exact (hall ⟨fn, 0, args⟩).2 e hread

end ValueReading

/-! ## The operations -/

namespace Builtin

open ValueReading (one read two_of_read three_of_read)

def higherOrder : List Builtin := [.listMap, .listFilter, .listReduce, .mapMap, .mapFilter, .mapReduce]

/-- The items at which the answer is true. -/
def kept {α : Type} : List α → List Value → List α
  | item :: items, .bool true :: answers => item :: kept items answers
  | _ :: items, _ :: answers => kept items answers
  | _, _ => []

/-- A function is given a key and its value. -/
def ofEntry (entry : String × Value) : List Value := [.string entry.1, entry.2]

/-- **The function and the pass of a higher-order built-in**, where its arguments fit. -/
def pass? : Builtin → List Value → Option (Function × Pass)
  | .listMap, [.list items, .function f] => some (f, .mapping (items.map ([·])) .list)
  | .listFilter, [.list items, .function f] =>
    some (f, .filtering (items.map ([·])) fun answers => .list (kept items answers))
  | .listReduce, [start, .list items, .function f] => some (f, .folding start (items.map ([·])))
  | .mapMap, [.map entries, .function f] =>
    some (f, .mapping (entries.map ofEntry) fun answers => .map (Entries.keys entries |>.zip answers))
  | .mapFilter, [.map entries, .function f] =>
    some (f, .filtering (entries.map ofEntry) fun answers => .map (kept entries answers))
  | .mapReduce, [start, .map entries, .function f] => some (f, .folding start (entries.map ofEntry))
  | _, _ => none

variable {α β : Type} {call : List Value → EvalM Value}

theorem kept_cons {v : Value} {keep : Bool} (h : verdict v = .ok keep) (item : α) (items : List α)
    (answers : List Value) :
    kept (item :: items) (v :: answers) = if keep then item :: kept items answers else kept items answers := by
  cases v with
  | nil =>
    cases h
    rfl
  | bool b =>
    cases h
    cases keep <;> rfl
  | _ => cases h

theorem mapItems_eq (elements : List (List Value)) (result : List Value → Value) (g : α → List Value) :
    ∀ (items : List α) (before : List Value), mapItems (fun item => call (g item)) items =
      (Pass.mapping elements result).answers call before (items.map g)
  | [], _ => rfl
  | item :: items, before => by
    have hgiven : (Pass.mapping elements result).given before ++ g item = g item := rfl
    have hcheck : ∀ v, EvalM.ofExcept ((Pass.mapping elements result).check v) = pure () := fun _ => rfl
    rw [mapItems, List.map_cons, Pass.answers, hgiven]
    congr 1
    funext v
    rw [mapItems_eq elements result g items (before ++ [v]), hcheck, pure_bind]

/-- Making something of each answer at once, or of all of them in the end. -/
theorem mapItems_make (x : α → EvalM Value) (make : α → Value → β) : ∀ items : List α,
    mapItems (fun item => do return make item (← x item)) items = do return List.zipWith make items (← mapItems x items)
  | [] => rfl
  | item :: items => by
    rw [mapItems, mapItems, mapItems_make x make items]
    simp only [bind_assoc, pure_bind, List.zipWith_cons_cons]

/-- A filter keeps the items that are answered with true. -/
theorem filterItems_eq (elements : List (List Value)) (result : List Value → Value) (g : α → List Value) :
    ∀ (items : List α) (before : List Value), filterItems (fun item => call (g item)) items =
      do return kept items (← (Pass.filtering elements result).answers call before (items.map g))
  | [], _ => rfl
  | item :: items, before => by
    have hgiven : (Pass.filtering elements result).given before ++ g item = g item := rfl
    rw [filterItems, List.map_cons, Pass.answers, hgiven, bind_assoc]
    congr 1
    funext v
    rw [filterItems_eq elements result g items (before ++ [v])]
    have hcheck : (Pass.filtering elements result).check v = (verdict v).map fun _ => () := Pass.asVerdict_eq v
    rw [hcheck]
    cases hkeep : verdict v with
    | error e => rfl
    | ok keep =>
      show (pure keep >>= _ : EvalM _) = (pure () >>= _ : EvalM _) >>= _
      simp only [bind_assoc, pure_bind, kept_cons hkeep]

/-- A reduction hands each answer on to the next application. -/
theorem foldItems_eq (start : Value) (elements : List (List Value)) (g : α → List Value) :
    ∀ (items : List α) (before : List Value),
      foldItems (fun acc item => call (acc :: g item)) (before.getLast?.getD start) items =
        do return (before ++ (← (Pass.folding start elements).answers call before (items.map g))).getLast?.getD start
  | [], before => by
    rw [foldItems, List.map_nil, Pass.answers, pure_bind, List.append_nil]
  | item :: items, before => by
    have hcheck : ∀ v, EvalM.ofExcept ((Pass.folding start elements).check v) = pure () := fun _ => rfl
    have hgiven : (Pass.folding start elements).given before ++ g item = before.getLast?.getD start :: g item := rfl
    rw [foldItems, List.map_cons, Pass.answers, hgiven, bind_assoc]
    congr 1
    funext v
    have hlast : (before ++ [v]).getLast?.getD start = v := by simp
    have hrest := foldItems_eq start elements g items (before ++ [v])
    rw [hlast] at hrest
    simp only [hcheck, hrest, bind_assoc, pure_bind, List.append_assoc, List.singleton_append]

variable {b : Builtin} {args : List Value} {f : Function} {p : Pass}

/-- **A higher-order built-in runs its pass**, and nothing else. -/
theorem run_pass (h : b.pass? args = some (f, p)) (call : Function → List Value → EvalM Value) :
    b.run call args = p.run (call f) := by
  unfold pass? at h
  split at h
  case h_1 items f =>
    obtain ⟨rfl, rfl⟩ := Prod.mk.inj (Option.some.inj h)
    show (do return Value.list (← mapItems (fun v => call f [v]) items)) = _
    rw [mapItems_eq (items.map ([·])) .list ([·]) items []]
    rfl
  case h_2 items f =>
    obtain ⟨rfl, rfl⟩ := Prod.mk.inj (Option.some.inj h)
    show (do return Value.list (← filterItems (fun v => call f [v]) items)) = _
    rw [filterItems_eq (items.map ([·])) (fun answers => .list (kept items answers)) ([·]) items [], bind_assoc]
    simp only [pure_bind]
    rfl
  case h_3 start items f =>
    obtain ⟨rfl, rfl⟩ := Prod.mk.inj (Option.some.inj h)
    exact foldItems_eq start (items.map ([·])) ([·]) items []
  case h_4 entries f =>
    obtain ⟨rfl, rfl⟩ := Prod.mk.inj (Option.some.inj h)
    show (do return Value.map (← mapItems (fun entry => do return (entry.1, ← call f (ofEntry entry))) entries)) = _
    rw [mapItems_make (fun entry => call f (ofEntry entry)) (fun entry v => (entry.1, v)),
      mapItems_eq (entries.map ofEntry) (fun answers => .map (Entries.keys entries |>.zip answers)) ofEntry entries [],
      bind_assoc]
    have hzip : ∀ vs : List Value, List.zipWith (fun entry v => (entry.1, v)) entries vs = (Entries.keys entries).zip vs :=
      fun vs => by rw [Entries.keys, List.zip, List.zipWith_map_left]
    simp only [pure_bind, hzip]
    rfl
  case h_5 entries f =>
    obtain ⟨rfl, rfl⟩ := Prod.mk.inj (Option.some.inj h)
    show (do return Value.map (← filterItems (fun entry => call f (ofEntry entry)) entries)) = _
    rw [filterItems_eq (entries.map ofEntry) (fun answers => .map (kept entries answers)) ofEntry entries [], bind_assoc]
    simp only [pure_bind]
    rfl
  case h_6 start entries f =>
    obtain ⟨rfl, rfl⟩ := Prod.mk.inj (Option.some.inj h)
    exact foldItems_eq start (entries.map ofEntry) ofEntry entries []
  case h_7 => cases h

/-- **Only the filters ask for a verdict.** -/
theorem check_error_iff (h : b.pass? args = some (f, p)) (v : Value) (e : Error) : p.check v = .error e ↔
    (b = listFilter ∨ b = mapFilter) ∧ v.kind ≠ .bool ∧ v.kind ≠ .nil ∧ e = .type .bool v.kind none := by
  unfold pass? at h
  split at h
  case h_2 | h_5 =>
    obtain ⟨rfl, rfl⟩ := Prod.mk.inj (Option.some.inj h)
    exact (Pass.asVerdict_error_iff v e).trans (by simp)
  case h_7 => cases h
  all_goals
    obtain ⟨rfl, rfl⟩ := Prod.mk.inj (Option.some.inj h)
    exact iff_of_false nofun (by simp)

/-- A built-in that reads its arguments first fails where they cannot be read. -/
theorem run_of_unread {γ : Type} {r : ValueReading γ} {body : (Function → List Value → EvalM Value) → γ → EvalM Value}
    (hr : ValueReading.Blames r)
    (hrun : ∀ call, b.run call args = EvalM.ofExcept (read b.name args r) >>= body call)
    (hnot : ∀ a, read b.name args r ≠ .ok a) : ∃ index problem,
      ∀ (call : Function → List Value → EvalM Value) (m : Machine),
        b.run call args m = .error (.failed (.argument b.name index problem)) m := by
  cases hread : read b.name args r with
  | ok a => exact absurd hread (hnot a)
  | error e =>
    obtain ⟨index, problem, rfl⟩ := ValueReading.read_error hr hread
    refine ⟨index, problem, fun call m => ?_⟩
    rw [hrun, hread]
    rfl

section

variable {fn : String} {start : Value} {items : List Value} {entries : Entries Value}

theorem list_of_read (h : read fn args (do return (← one .list, ← one .function)) = .ok (items, f)) :
    args = [.list items, .function f] := by
  obtain ⟨v, w, rfl, hv, hw⟩ := two_of_read h
  rw [Expected.eq_of_list_view hv, Expected.eq_of_function_view hw]

theorem map_of_read (h : read fn args (do return (← one .map, ← one .function)) = .ok (entries, f)) :
    args = [.map entries, .function f] := by
  obtain ⟨v, w, rfl, hv, hw⟩ := two_of_read h
  rw [Expected.eq_of_map_view hv, Expected.eq_of_function_view hw]

theorem start_list_of_read
    (h : read fn args (do return (← one .any, ← one .list, ← one .function)) = .ok (start, items, f)) :
    ∃ v, args = [v, .list items, .function f] := by
  obtain ⟨u, v, w, rfl, -, hv, hw⟩ := three_of_read h
  exact ⟨u, by rw [Expected.eq_of_list_view hv, Expected.eq_of_function_view hw]⟩

theorem start_map_of_read
    (h : read fn args (do return (← one .any, ← one .map, ← one .function)) = .ok (start, entries, f)) :
    ∃ v, args = [v, .map entries, .function f] := by
  obtain ⟨u, v, w, rfl, -, hv, hw⟩ := three_of_read h
  exact ⟨u, by rw [Expected.eq_of_map_view hv, Expected.eq_of_function_view hw]⟩

end

/-- **Where the arguments do not fit, the function is not applied.** -/
theorem run_of_none (hb : b ∈ higherOrder) (h : b.pass? args = none) : ∃ index problem,
    ∀ (call : Function → List Value → EvalM Value) (m : Machine),
      b.run call args m = .error (.failed (.argument b.name index problem)) m := by
  simp only [higherOrder, List.mem_cons, List.not_mem_nil, or_false] at hb
  rcases hb with rfl | rfl | rfl | rfl | rfl | rfl
  case' inl | inr.inl =>
    refine run_of_unread (ValueReading.blames_two .list .function) (fun _ => rfl) fun a hread => ?_
    rw [list_of_read hread] at h
  case' inr.inr.inl =>
    refine run_of_unread (ValueReading.blames_three .any .list .function) (fun _ => rfl) fun a hread => ?_
    obtain ⟨v, rfl⟩ := start_list_of_read hread
  case' inr.inr.inr.inl | inr.inr.inr.inr.inl =>
    refine run_of_unread (ValueReading.blames_two .map .function) (fun _ => rfl) fun a hread => ?_
    rw [map_of_read hread] at h
  case' inr.inr.inr.inr.inr =>
    refine run_of_unread (ValueReading.blames_three .any .map .function) (fun _ => rfl) fun a hread => ?_
    obtain ⟨v, rfl⟩ := start_map_of_read hread
  all_goals cases h

/-- **Higher-order built-ins are direct applications in order.**  If the arguments fit, the operation ends exactly as
its function does when it is applied directly, once at each element and in order, up to the first application that
fails or is answered with no verdict; and so it is with any more depth for the direct applications, unless there was not
enough.  A verdict is asked for by the filters only: what they are answered is refused if it is neither a bool nor nil,
with the error that a bool was expected and something of that kind found.
If the operation ends with a value, this is made of the answers of the function, one at each element.
If the arguments do not fit, that is the error, and whatever a call does, none is made. -/
theorem apply_higherOrder (hb : b ∈ higherOrder) (args : List Value) :
    (∀ f p, b.pass? args = some (f, p) → (∀ v e, p.check v = .error e ↔
        (b = listFilter ∨ b = mapFilter) ∧ v.kind ≠ .bool ∧ v.kind ≠ .nil ∧ e = .type .bool v.kind none) ∧
      ∀ (depth : Nat) (caller : FrameId) (m : Machine),
      (∀ r, apply (depth + 1) caller (.builtin b) args m = r ↔ p.Ends (apply depth caller f) m r) ∧
      (∀ depth' r, depth ≤ depth' → (∀ m', r ≠ .error .exhausted m') →
        p.Ends (apply depth caller f) m r → p.Ends (apply depth' caller f) m r) ∧
      ∀ v m', p.Ends (apply depth caller f) m (.ok v m') → ∃ answers,
        v = p.result answers ∧ p.Applied (apply depth caller f) m p.elements answers m' ∧
        answers.length = p.elements.length ∧
        ∀ (i : Nat) (element : List Value) (answer : Value), p.elements[i]? = some element → answers[i]? = some answer →
          ∃ m₁ m₂, p.Applied (apply depth caller f) m (p.elements.take i) (answers.take i) m₁ ∧
            apply depth caller f (p.given (answers.take i) ++ element) m₁ = .ok answer m₂) ∧
    (b.pass? args = none → ∃ index problem, ∀ (call : Function → List Value → EvalM Value) (m : Machine),
      b.run call args m = .error (.failed (.argument b.name index problem)) m) := by
  refine ⟨fun f p hp => ⟨check_error_iff hp, fun depth caller m =>
    ⟨fun r => ?_, fun depth' r hle hr hends => ?_, fun v m' hends => ?_⟩⟩, run_of_none hb⟩
  · have hfits : b.fits depth args = true := by
      simp only [higherOrder, List.mem_cons, List.not_mem_nil, or_false] at hb
      rcases hb with rfl | rfl | rfl | rfl | rfl | rfl <;> rfl
    rw [apply, if_pos hfits, run_pass hp]
    exact Pass.run_eq_iff
  · refine hends.congr (fun args m hnot => ?_) hr
    exact Activation.run_of_le (a := .call caller f args) hle hnot
  · cases hends with
    | @value answers _ happlied =>
      exact ⟨answers, rfl, happlied, happlied.length_eq, fun i element answer => happlied.answer⟩

/-- A pair is made of each element and what was made before. -/
theorem apply_higherOrder_cons : listReduce ∈ higherOrder ∧ ∃ p,
    listReduce.pass? [.nil, .list [.bool true, .bool false], .function (.builtin .cons)] = some (.builtin .cons, p) ∧
    apply 2 0 (.builtin .listReduce) [.nil, .list [.bool true, .bool false], .function (.builtin .cons)] .initial =
      .ok (.pair (.pair .nil (.bool true)) (.bool false)) .initial := by
  have hb : listReduce ∈ higherOrder := by decide
  have hend := ((apply_higherOrder hb [.nil, .list [.bool true, .bool false], .function (.builtin .cons)]).1 _ _
    rfl).2 1 0 .initial
  refine ⟨hb, _, rfl, (hend.1 _).2 ?_⟩
  have hnone : (Pass.folding .nil [[.bool true], [.bool false]]).Applied (apply 1 0 (.builtin .cons)) .initial [] []
    .initial := .nil
  have hfirst := @Pass.Applied.concat _ _ _ _ _ _ _ [.bool true] _ hnone rfl rfl
  have hsecond := @Pass.Applied.concat _ _ _ _ _ _ _ [.bool false] _ hfirst rfl rfl
  exact .value hsecond

end Builtin

end MiniLisp
