import MiniLisp.Proofs.Value.Agree
/-!
# Functions — what functions a value holds

A value holds functions at any depth of its pairs, lists and maps.  It agrees with itself just if each of them is
related to itself (`agree_self_iff`).
-/
namespace MiniLisp.Value

mutual

/-- The functions in a value. -/
def functions : Value → List Function
  | .pair left right => functions left ++ functions right
  | .list items => functionsAll items
  | .map entries => functionsEntries entries
  | .function f => [f]
  | .number _ | .string _ | .bool _ | .nil => []

def functionsAll : List Value → List Function
  | [] => []
  | v :: vs => functions v ++ functionsAll vs

def functionsEntries : List (String × Value) → List Function
  | [] => []
  | (_, v) :: es => functions v ++ functionsEntries es

end

variable {T : String → Prop} {R : Function → Function → Prop} {v w : Value} {f : Function}

theorem mem_functionsAll {f : Function} : ∀ {vs : List Value}, f ∈ functionsAll vs ↔ ∃ v ∈ vs, f ∈ v.functions
  | [] => by simp [functionsAll]
  | v :: vs => by simp [functionsAll, @mem_functionsAll f vs]

theorem mem_functionsEntries {f : Function} : ∀ {es : Entries Value},
    f ∈ functionsEntries es ↔ ∃ v ∈ es.values, f ∈ v.functions
  | [] => by simp [functionsEntries, Entries.values]
  | (key, v) :: es => by
    have ih := @mem_functionsEntries f es
    unfold Entries.values at ih ⊢
    simp only [functionsEntries, List.mem_append, ih, List.map_cons, List.exists_mem_cons_iff]

mutual

theorem agree_self : ∀ v : Value, (∀ f ∈ v.functions, R f f) → Agree (fun _ => True) R v v
  | .number x, _ => .number x
  | .string _, _ => .string trivial
  | .bool b, _ => .bool b
  | .nil, _ => .nil
  | .pair left right, h => by
    rw [functions, List.forall_mem_append] at h
    exact .pair (agree_self left h.1) (agree_self right h.2)
  | .list items, h => by
    rw [functions] at h
    exact .list (agree_self_all items h)
  | .map entries, h => by
    rw [functions] at h
    exact agree_map_iff.2 (agree_self_entries entries h)
  | .function f, h => .function (h f List.mem_cons_self)

theorem agree_self_all : ∀ vs : List Value, (∀ f ∈ functionsAll vs, R f f) →
    List.Forall₂ (Agree (fun _ => True) R) vs vs
  | [], _ => .nil
  | v :: vs, h => by
    rw [functionsAll, List.forall_mem_append] at h
    exact .cons (agree_self v h.1) (agree_self_all vs h.2)

theorem agree_self_entries : ∀ es : Entries Value, (∀ f ∈ functionsEntries es, R f f) →
    List.Forall₂ (EntryAgree (fun _ => True) (Agree (fun _ => True) R)) es es
  | [], _ => .nil
  | (key, v) :: es, h => by
    rw [functionsEntries, List.forall_mem_append] at h
    exact .cons ⟨rfl, trivial, agree_self v h.1⟩ (agree_self_entries es h.2)

end

theorem exists_left_of_forall₂ {α β : Type} {P : α → β → Prop} {as : List α} {bs : List β} {a : α}
    (h : List.Forall₂ P as bs) (ha : a ∈ as) : ∃ b, P a b := by
  induction h with
  | nil => cases ha
  | cons hab _ ih =>
    rcases List.mem_cons.1 ha with rfl | ha
    · exact ⟨_, hab⟩
    · exact ih ha

/-- The functions of values that agree are related. -/
theorem Agree.exists_of_mem (h : Agree T R v w) : ∀ f ∈ v.functions, ∃ g, R f g := by
  induction h using Agree.induction with
  | pair _ _ ih ih' =>
    rw [functions, List.forall_mem_append]
    exact ⟨ih, ih'⟩
  | list _ ih =>
    intro f hf
    rw [functions, mem_functionsAll] at hf
    obtain ⟨v, hv, hf⟩ := hf
    obtain ⟨w, -, hvw⟩ := exists_left_of_forall₂ ih hv
    exact hvw f hf
  | map _ _ _ ih =>
    intro f hf
    rw [functions, mem_functionsEntries] at hf
    obtain ⟨v, hv, hf⟩ := hf
    obtain ⟨w, -, hvw⟩ := exists_left_of_forall₂ ih hv
    exact hvw f hf
  | @function f g hfg =>
    rw [functions]
    exact List.forall_mem_singleton.2 ⟨g, hfg⟩
  | _ => exact nofun

/-- Values that agree still do if their functions are related in another way. -/
theorem Agree.of_functions {S : Function → Function → Prop} (h : Agree T R v w) :
    (∀ f ∈ v.functions, ∀ g, R f g → S f g) → Agree T S v w := by
  induction h using Agree.induction with
  | number x => exact fun _ => .number x
  | string htext => exact fun _ => .string htext
  | bool b => exact fun _ => .bool b
  | nil => exact fun _ => .nil
  | pair _ _ ih ih' =>
    intro hS
    rw [functions, List.forall_mem_append] at hS
    exact .pair (ih hS.1) (ih' hS.2)
  | @list vs ws _ ih =>
    intro hS
    have hitems : ∀ v ∈ vs, ∀ f ∈ v.functions, ∀ g, R f g → S f g := fun v hv f hf =>
      hS f (mem_functionsAll.2 ⟨v, hv, hf⟩)
    exact .list (((List.forall₂_and_left _ _).2 ⟨hitems, ih⟩).imp fun _ _ h => h.2.2 h.1)
  | @map es fs hkeys htexts _ ih =>
    intro hS
    have hvalues : ∀ v ∈ es.values, ∀ f ∈ v.functions, ∀ g, R f g → S f g := fun v hv f hf =>
      hS f (mem_functionsEntries.2 ⟨v, hv, hf⟩)
    exact .map hkeys htexts (((List.forall₂_and_left _ _).2 ⟨hvalues, ih⟩).imp fun _ _ h => h.2.2 h.1)
  | @function f g hfg => exact fun hS => .function (hS f (List.mem_singleton.2 rfl) g hfg)

/-- **Agreeing in functions that are equal and have a property** is being equal, and having only such functions. -/
theorem agree_self_iff {P : Function → Prop} :
    Agree (fun _ => True) (fun f g => f = g ∧ P f) v w ↔ v = w ∧ ∀ f ∈ v.functions, P f := by
  constructor
  · intro h
    refine ⟨h.eq fun _ _ hfg => hfg.1, fun f hf => ?_⟩
    obtain ⟨g, -, hP⟩ := h.exists_of_mem f hf
    exact hP
  · rintro ⟨rfl, h⟩
    exact agree_self v fun f hf => ⟨rfl, h f hf⟩

end MiniLisp.Value
