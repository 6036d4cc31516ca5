import MiniLisp.Proofs.Value.Functions
/-!
# Strings — what texts a value holds

A value holds texts at any depth of its pairs, lists and maps: its strings, and the keys of its maps.  It agrees with
itself just if each of them is as it should be, and each of its functions is related to itself (`agree_diagonal_iff`).
-/
namespace MiniLisp.Value

mutual

/-- The strings in a value, and the keys of the maps in it. -/
def strings : Value → List String
  | .string text => [text]
  | .pair left right => strings left ++ strings right
  | .list items => stringsAll items
  | .map entries => stringsEntries entries
  | .number _ | .bool _ | .nil | .function _ => []

def stringsAll : List Value → List String
  | [] => []
  | v :: vs => strings v ++ stringsAll vs

def stringsEntries : List (String × Value) → List String
  | [] => []
  | (key, v) :: es => key :: (strings v ++ stringsEntries es)

end

variable {T : String → Prop} {P : Function → Prop} {v w : Value}

theorem mem_stringsAll {text : String} : ∀ {vs : List Value}, text ∈ stringsAll vs ↔ ∃ v ∈ vs, text ∈ v.strings
  | [] => by simp [stringsAll]
  | v :: vs => by simp [stringsAll, @mem_stringsAll text vs]

theorem mem_stringsEntries {text : String} : ∀ {es : Entries Value},
    text ∈ stringsEntries es ↔ text ∈ es.keys ∨ ∃ v ∈ es.values, text ∈ v.strings
  | [] => by simp [stringsEntries, Entries.keys, Entries.values]
  | (key, v) :: es => by
    have ih := @mem_stringsEntries text es
    unfold Entries.keys Entries.values at ih ⊢
    simp only [stringsEntries, List.mem_cons, List.mem_append, ih, List.map_cons]
    grind

/-- What holds of a value's texts and functions. -/
def Keeps (T : String → Prop) (P : Function → Prop) (v : Value) : Prop :=
  (∀ text ∈ v.strings, T text) ∧ ∀ f ∈ v.functions, P f

theorem keeps_pair : (Value.pair v w).Keeps T P ↔ v.Keeps T P ∧ w.Keeps T P := by
  simp only [Keeps, strings, functions, List.forall_mem_append, and_and_and_comm]

theorem keeps_list_cons {vs : List Value} :
    (Value.list (v :: vs)).Keeps T P ↔ v.Keeps T P ∧ (Value.list vs).Keeps T P := by
  simp only [Keeps, strings, functions, stringsAll, functionsAll, List.forall_mem_append, and_and_and_comm]

theorem keeps_map_cons {key : String} {es : Entries Value} :
    (Value.map ((key, v) :: es)).Keeps T P ↔ T key ∧ v.Keeps T P ∧ (Value.map es).Keeps T P := by
  simp only [Keeps, strings, functions, stringsEntries, functionsEntries, List.forall_mem_cons, List.forall_mem_append]
  rw [and_assoc, and_and_and_comm]

/-! ## Agreeing with oneself -/

/-- Values that agree still do if their texts have another property. -/
theorem Agree.of_strings {T' : String → Prop} {R : Function → Function → Prop} (h : Agree T R v w) :
    (∀ text ∈ v.strings, T' text) → Agree T' R v w := by
  induction h using Agree.induction with
  | number x => exact fun _ => .number x
  | string _ => exact fun hT => .string (hT _ (List.mem_singleton.2 rfl))
  | bool b => exact fun _ => .bool b
  | nil => exact fun _ => .nil
  | pair _ _ ih ih' =>
    intro hT
    obtain ⟨hleft, hright⟩ := List.forall_mem_append.1 hT
    exact .pair (ih hleft) (ih' hright)
  | @list vs ws _ ih =>
    intro hT
    have hitems : ∀ v ∈ vs, ∀ text ∈ v.strings, T' text := fun v hv text ht =>
      hT text (mem_stringsAll.2 ⟨v, hv, ht⟩)
    exact .list (((List.forall₂_and_left _ _).2 ⟨hitems, ih⟩).imp fun _ _ h => h.2.2 h.1)
  | @map es fs hkeys _ _ ih =>
    intro hT
    have hvalues : ∀ v ∈ es.values, ∀ text ∈ v.strings, T' text := fun v hv text ht =>
      hT text (mem_stringsEntries.2 (.inr ⟨v, hv, ht⟩))
    refine .map hkeys (fun key hkey => hT key (mem_stringsEntries.2 (.inl hkey))) ?_
    exact ((List.forall₂_and_left _ _).2 ⟨hvalues, ih⟩).imp fun _ _ h => h.2.2 h.1
  | function hfg => exact fun _ => .function hfg

theorem Agree.strings_mem {R : Function → Function → Prop} (h : Agree T R v w) : ∀ text ∈ v.strings, T text := by
  induction h using Agree.induction with
  | string htext => exact List.forall_mem_singleton.2 htext
  | pair _ _ ih ih' => exact List.forall_mem_append.2 ⟨ih, ih'⟩
  | list _ ih =>
    intro text ht
    obtain ⟨v, hv, ht⟩ := mem_stringsAll.1 ht
    obtain ⟨_, _, hvw⟩ := exists_left_of_forall₂ ih hv
    exact hvw text ht
  | map _ htexts _ ih =>
    intro text ht
    rcases mem_stringsEntries.1 ht with hkey | ⟨v, hv, ht⟩
    · exact htexts text hkey
    · obtain ⟨_, _, hvw⟩ := exists_left_of_forall₂ ih hv
      exact hvw text ht
  | _ => exact nofun

/-- **Agreeing on the diagonal** is being equal, and having only such texts and functions. -/
theorem agree_diagonal_iff : Agree T (fun f g => f = g ∧ P f) v w ↔ v = w ∧ Keeps T P v := by
  constructor
  · intro h
    have hany : Agree (fun _ => True) (fun f g => f = g ∧ P f) v w := h.of_strings fun _ _ => trivial
    obtain ⟨rfl, hfunctions⟩ := agree_self_iff.1 hany
    exact ⟨rfl, h.strings_mem, hfunctions⟩
  · rintro ⟨rfl, hstrings, hfunctions⟩
    exact (agree_self_iff.2 ⟨rfl, hfunctions⟩).of_strings hstrings

/-- Lists that are related on the diagonal are equal. -/
theorem forall₂_diagonal_iff {α : Type} {Q : α → Prop} {as bs : List α} :
    List.Forall₂ (fun a b => a = b ∧ Q a) as bs ↔ as = bs ∧ ∀ a ∈ as, Q a := by
  constructor
  · intro h
    refine ⟨List.forall₂_eq_eq_eq ▸ h.imp fun _ _ hab => hab.1, fun a ha => ?_⟩
    obtain ⟨_, _, hQ⟩ := exists_left_of_forall₂ h ha
    exact hQ
  · rintro ⟨rfl, h⟩
    exact List.forall₂_same.2 fun a ha => ⟨rfl, h a ha⟩

theorem forall₂_agree_diagonal_iff {vs ws : List Value} :
    List.Forall₂ (Agree T (fun f g => f = g ∧ P f)) vs ws ↔ vs = ws ∧ ∀ v ∈ vs, Keeps T P v := by
  rw [← forall₂_diagonal_iff]
  constructor
  · exact fun h => h.imp fun _ _ => agree_diagonal_iff.1
  · exact fun h => h.imp fun _ _ => agree_diagonal_iff.2

end MiniLisp.Value
