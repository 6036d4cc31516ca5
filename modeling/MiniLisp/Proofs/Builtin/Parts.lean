import MiniLisp.Proofs.Builtin.Maps
import MiniLisp.Proofs.Value.Proper
/-!
# Parts — what built-ins answer is made of

The built-ins on data make values of parts of their arguments, and no functions; the maps that they make have distinct
keys.  So the functions in an answer are among those in the arguments, and the answer is proper if these are.  The
higher-order built-ins give parts of their arguments to their function, and make their value of these and of its
answers (`Builtin.within_of_pass?`).
-/
namespace MiniLisp

/-- **A value with functions among `K`**, whose maps have distinct keys. -/
abbrev Value.Among (K : Function → Prop) : Value → Prop := Value.Proper (fun _ => True) K

/-! ## Readings -/

namespace ValueReading

variable {α β : Type} {H : Value → Prop} {P : α → Prop} {Q : β → Prop} {r : ValueReading α} {x : Expected α}

/-- **What a reading takes out of arguments that have a property**; those that are left have it still. -/
def Gives (H : Value → Prop) (P : α → Prop) (r : ValueReading α) : Prop :=
  ∀ s a s', (∀ v ∈ s.pending, H v) → r s = (.ok a, s') → P a ∧ ∀ v ∈ s'.pending, H v

theorem gives_pure {a : α} (h : P a) : Gives H P (pure a) := by
  rintro s _ _ hs ⟨⟩
  exact ⟨h, hs⟩

theorem gives_any (r : ValueReading α) : Gives (fun _ => True) (fun _ => True) r := fun _ _ _ _ _ =>
  ⟨trivial, fun _ _ => trivial⟩

theorem Gives.bind {f : α → ValueReading β} (h : Gives H P r) (hf : ∀ a, P a → Gives H Q (f a)) :
    Gives H Q (r >>= f) := by
  intro s b s' hs hbind
  obtain ⟨a, s₁, hr, hb⟩ := bind_eq_ok hbind
  obtain ⟨ha, hs₁⟩ := h s a s₁ hs hr
  exact hf a ha s₁ b s' hs₁ hb

theorem gives_one (h : ∀ v a, H v → x.view v = some a → P a) : Gives H P (one x) := by
  intro s a s' hs hone
  obtain ⟨v, hview, hpending⟩ := one_eq_ok hone
  rw [hpending, List.forall_mem_cons] at hs
  exact ⟨h v a hs.1 hview, hs.2⟩

theorem gives_optional : Gives H (fun v? => ∀ v ∈ v?, H v) optional := by
  rintro ⟨fn, index, pending⟩ v? s' hs hnext
  cases pending with
  | nil =>
    cases hnext
    exact ⟨nofun, hs⟩
  | cons v rest =>
    cases hnext
    obtain ⟨hv, hrest⟩ := List.forall_mem_cons.1 hs
    refine ⟨?_, hrest⟩
    rintro _ ⟨⟩
    exact hv

theorem read_gives (h : Gives H P r) {fn : String} {args : List Value} {a : α} (hargs : ∀ v ∈ args, H v)
    (hread : read fn args r = .ok a) : P a := by
  obtain ⟨s, hr, -⟩ := read_eq_ok hread
  exact (h _ a s hargs hr).1

/-- What is made of any arguments. -/
theorem read_makes (h : Gives (fun _ => True) P r) {fn : String} {args : List Value} {a : α}
    (hread : read fn args r = .ok a) : P a := read_gives h (fun _ _ => trivial) hread

theorem read_two_makes {r' : ValueReading β} {γ : Type} {make : α → β → γ} {P : γ → Prop} (h : ∀ a b, P (make a b))
    {fn : String} {args : List Value} {c : γ} (hread : read fn args (do return make (← r) (← r')) = .ok c) : P c :=
  read_makes ((gives_any r).bind fun a _ => (gives_any r').bind fun b _ => gives_pure (h a b)) hread

end ValueReading

open ValueReading (gives_any gives_one gives_optional gives_pure read_gives read_makes read_two_makes)

variable {K : Function → Prop} {args : List Value} {v : Value}

/-! ## Numbers, booleans and strings -/

theorem Operator.apply_among {op : Operator} (h : op.apply args = .ok v) : v.Among K := by
  cases op with
  | add | sub | mul | div => exact read_two_makes (fun _ _ => .number trivial) h
  | eq | lt | gt | le | ge => exact read_two_makes (fun _ _ => .bool _) h

namespace Builtin

theorem conjunction_among (h : conjunction args = .ok v) : v.Among K := read_two_makes (fun _ _ => .bool _) h

theorem disjunction_among (h : disjunction args = .ok v) : v.Among K := read_two_makes (fun _ _ => .bool _) h

theorem negation_among (h : negation args = .ok v) : v.Among K :=
  read_makes ((gives_any _).bind fun _ _ => gives_pure (.bool _)) h

theorem concatenation_among (h : concatenation args = .ok v) : v.Among K :=
  read_makes ((gives_any _).bind fun _ _ => gives_pure (.string _)) h

theorem stringEquality_among (h : stringEquality args = .ok v) : v.Among K := read_two_makes (fun _ _ => .bool _) h

theorem length_among (h : length args = .ok v) : v.Among K := by
  unfold length at h
  cases hread : ValueReading.read len.name args (ValueReading.one .any) with
  | error e =>
    rw [hread] at h
    cases h
  | ok w =>
    rw [hread] at h
    cases w <;> cases h <;> exact .number trivial

theorem keysOf_among (h : keysOf args = .ok v) : v.Among K := by
  refine read_makes ((gives_any _).bind fun entries _ => gives_pure (.list fun w hw => ?_)) h
  obtain ⟨key, -, rfl⟩ := List.mem_map.1 hw
  exact .string key

/-! ## Pairs, lists and maps -/

theorem pairOf_among (hargs : ∀ w ∈ args, w.Among K) (h : pairOf args = .ok v) : v.Among K := by
  have hslot : ∀ v? : Option Value, (∀ w ∈ v?, w.Among K) → (v?.getD .nil).Among K := by
    intro v? hv
    cases v? with
    | none => exact .nil
    | some w => exact hv w rfl
  refine read_gives (gives_optional.bind fun left hleft => ?_) hargs h
  exact gives_optional.bind fun right hright => gives_pure (.pair (hslot left hleft) (hslot right hright))

theorem gives_pair : ValueReading.Gives (Value.Among K) (fun p => p.1.Among K ∧ p.2.Among K)
    (ValueReading.one .pair) :=
  gives_one fun w p hw hview => by
    cases hw <;> cases hview
    exact ⟨‹_›, ‹_›⟩

theorem gives_list : ValueReading.Gives (Value.Among K) (fun items => ∀ w ∈ items, w.Among K)
    (ValueReading.one .list) :=
  gives_one fun w items hw hview => by
    cases hw <;> cases hview
    assumption

theorem gives_map : ValueReading.Gives (Value.Among K) (fun entries => ∀ w ∈ Entries.values entries, w.Among K)
    (ValueReading.one .map) :=
  gives_one fun w entries hw hview => by
    cases hw <;> cases hview
    assumption

theorem gives_number : ValueReading.Gives (Value.Among K) (fun _ => True) (ValueReading.one .number) :=
  gives_one fun _ _ _ _ => trivial

theorem gives_string : ValueReading.Gives (Value.Among K) (fun _ => True) (ValueReading.one .string) :=
  gives_one fun _ _ _ _ => trivial

theorem leftOf_among (hargs : ∀ w ∈ args, w.Among K) (h : leftOf args = .ok v) : v.Among K :=
  read_gives (gives_pair.bind fun _ hp => gives_pure hp.1) hargs h

theorem rightOf_among (hargs : ∀ w ∈ args, w.Among K) (h : rightOf args = .ok v) : v.Among K :=
  read_gives (gives_pair.bind fun _ hp => gives_pure hp.2) hargs h

theorem elementAt_mem {items : List Value} {x : Float} (h : elementAt items x = .ok v) : v ∈ items := by
  unfold elementAt at h
  split at h
  · split at h
    · split at h
      · cases h
        exact List.mem_of_getElem? ‹_›
      · cases h
    · cases h
  · cases h

theorem element_among (hargs : ∀ w ∈ args, w.Among K) (h : element args = .ok v) : v.Among K := by
  have hgives : ValueReading.Gives (Value.Among K) (fun p : List Value × Float => ∀ w ∈ p.1, w.Among K)
      (do return (← ValueReading.one .list, ← ValueReading.one .number)) :=
    gives_list.bind fun _ hitems => gives_number.bind fun _ _ => gives_pure hitems
  unfold element at h
  generalize hread : ValueReading.read listGet.name args (do
    return (← ValueReading.one .list, ← ValueReading.one .number)) = p? at h
  cases p? with
  | error e => cases h
  | ok p => exact read_gives hgives hargs hread v (elementAt_mem h)

theorem mapOf_among (hargs : ∀ w ∈ args, w.Among K) (h : mapOf args = .ok v) : v.Among K := by
  rcases mapOf_cases args with ⟨pairs, rfl, hmap⟩ | ⟨_, _, -, hmap⟩
  · rw [hmap] at h
    cases h
    refine .map (Entries.nodup_keys_ofPairs pairs) (Entries.forall_values_ofPairs fun w hw => ?_)
    obtain ⟨entry, hentry, rfl⟩ := List.mem_map.1 hw
    exact hargs _ (List.mem_flatMap.2 ⟨entry, hentry, List.mem_cons_of_mem _ List.mem_cons_self⟩)
  · rw [hmap] at h
    cases h

theorem valueUnder_among (hargs : ∀ w ∈ args, w.Among K) (h : valueUnder args = .ok v) : v.Among K := by
  refine read_gives (gives_map.bind fun entries hvalues => gives_string.bind fun key _ => gives_pure ?_) hargs h
  cases hget : Entries.get? entries key with
  | none => exact .nil
  | some w => exact hvalues w (Entries.mem_values_of_get? hget)

theorem valuesOf_among (hargs : ∀ w ∈ args, w.Among K) (h : valuesOf args = .ok v) : v.Among K :=
  read_gives (gives_map.bind fun _ hvalues => gives_pure (.list hvalues)) hargs h

end Builtin

/-! ## Passes -/

/-- **A pass over values that have a property**: they are given to its function, and what is made of them and of
answers that have it has it too. -/
structure Pass.Within (p : Pass) (P : Value → Prop) : Prop where
  elements : ∀ element ∈ p.elements, ∀ v ∈ element, P v
  given : ∀ answers, (∀ v ∈ answers, P v) → ∀ v ∈ p.given answers, P v
  result : ∀ answers, (∀ v ∈ answers, P v) → P (p.result answers)

namespace Pass

variable {P : Value → Prop} {elements : List (List Value)} {result : List Value → Value} {start : Value}

theorem within_mapping (helements : ∀ element ∈ elements, ∀ v ∈ element, P v)
    (hresult : ∀ answers, (∀ v ∈ answers, P v) → P (result answers)) : (mapping elements result).Within P :=
  ⟨helements, fun _ _ => nofun, hresult⟩

theorem within_filtering (helements : ∀ element ∈ elements, ∀ v ∈ element, P v)
    (hresult : ∀ answers, (∀ v ∈ answers, P v) → P (result answers)) : (filtering elements result).Within P :=
  ⟨helements, fun _ _ => nofun, hresult⟩

theorem within_folding (hstart : P start) (helements : ∀ element ∈ elements, ∀ v ∈ element, P v) :
    (folding start elements).Within P := by
  have hlast : ∀ answers : List Value, (∀ v ∈ answers, P v) → P (answers.getLast?.getD start) := by
    intro answers hanswers
    cases hlast : answers.getLast? with
    | none => exact hstart
    | some v => exact hanswers v (List.mem_of_getLast? hlast)
  exact ⟨helements, fun answers hanswers => List.forall_mem_singleton.2 (hlast answers hanswers), hlast⟩

end Pass

namespace Builtin

variable {f : Function} {p : Pass} {items : List Value} {entries : Entries Value} {P : Value → Prop} {b : Builtin}

theorem forall_items (h : ∀ v ∈ items, P v) : ∀ element ∈ items.map ([·]), ∀ v ∈ element, P v := by
  intro element helement
  obtain ⟨v, hv, rfl⟩ := List.mem_map.1 helement
  exact List.forall_mem_singleton.2 (h v hv)

theorem forall_entries (hkey : ∀ key, P (.string key)) (h : ∀ v ∈ entries.values, P v) :
    ∀ element ∈ entries.map ofEntry, ∀ v ∈ element, P v := by
  intro element helement
  obtain ⟨entry, hentry, rfl⟩ := List.mem_map.1 helement
  exact List.forall_mem_cons.2 ⟨hkey entry.1, List.forall_mem_singleton.2 (h _ (List.mem_map.2 ⟨entry, hentry, rfl⟩))⟩

/-- **A higher-order built-in passes over parts of its arguments.** -/
theorem within_of_pass? (h : b.pass? args = some (f, p)) (hargs : ∀ v ∈ args, v.Among K) :
    p.Within (Value.Among K) := by
  unfold pass? at h
  split at h <;> cases h
  case h_1 items =>
    cases hargs _ List.mem_cons_self with
    | list hitems => exact Pass.within_mapping (forall_items hitems) fun answers hanswers => .list hanswers
  case h_2 items =>
    cases hargs _ List.mem_cons_self with
    | list hitems =>
      refine Pass.within_filtering (forall_items hitems) fun answers _ => .list fun v hv => ?_
      exact hitems v ((kept_sublist items answers).subset hv)
  case h_3 start items =>
    obtain ⟨hstart, hargs⟩ := List.forall_mem_cons.1 hargs
    cases hargs _ List.mem_cons_self with
    | list hitems => exact Pass.within_folding hstart (forall_items hitems)
  case h_4 entries =>
    cases hargs _ List.mem_cons_self with
    | map hkeys hvalues =>
      refine Pass.within_mapping (forall_entries .string hvalues) fun answers hanswers => ?_
      refine .map (Entries.nodup_keys_zip hkeys answers) fun v hv => ?_
      obtain ⟨entry, hentry, rfl⟩ := List.mem_map.1 hv
      exact hanswers _ (List.of_mem_zip hentry).2
  case h_5 entries =>
    cases hargs _ List.mem_cons_self with
    | map hkeys hvalues =>
      refine Pass.within_filtering (forall_entries .string hvalues) fun answers _ => ?_
      have hkept := kept_sublist entries answers
      exact .map (hkeys.sublist (hkept.map Prod.fst)) fun v hv => hvalues v ((hkept.map Prod.snd).subset hv)
  case h_6 start entries =>
    obtain ⟨hstart, hargs⟩ := List.forall_mem_cons.1 hargs
    cases hargs _ List.mem_cons_self with
    | map hkeys hvalues => exact Pass.within_folding hstart (forall_entries .string hvalues)

end Builtin

end MiniLisp
