import Mathlib.Data.List.Forall2
import MiniLisp.Value.Inspect
/-!
# Agree — values that differ in their functions

`Value.Agree T R` relates two values that are the same at every depth but for the functions in them, which `R` relates.
All their texts, keys of maps included, are among `T`.  What can be seen of such values is the same: their kinds
(`Agree.kind_eq`), their views, what is shown of them (`Agree.chars_eq`) and how deep that goes (`Agree.height_eq`).
-/
namespace MiniLisp

/-- **Values that are the same but for their functions.** -/
inductive Value.Agree (T : String → Prop) (R : Function → Function → Prop) : Value → Value → Prop
  | number (x : Float) : Agree T R (.number x) (.number x)
  | string {text : String} : T text → Agree T R (.string text) (.string text)
  | bool (b : Bool) : Agree T R (.bool b) (.bool b)
  | nil : Agree T R .nil .nil
  | pair {a b c d : Value} : Agree T R a b → Agree T R c d → Agree T R (.pair a c) (.pair b d)
  | list {vs ws : List Value} : List.Forall₂ (Agree T R) vs ws → Agree T R (.list vs) (.list ws)
  | map {es fs : Entries Value} : es.keys = fs.keys → (∀ key ∈ es.keys, T key) →
      List.Forall₂ (Agree T R) es.values fs.values → Agree T R (.map es) (.map fs)
  | function {f g : Function} : R f g → Agree T R (.function f) (.function g)

/-- Entries with one key among `K`, whose values `V` relates. -/
structure EntryAgree {α β : Type} (K : String → Prop) (V : α → β → Prop) (e : String × α) (f : String × β) : Prop where
  key_eq : e.1 = f.1
  key : K e.1
  value : V e.2 f.2

/-! ## Entries -/

namespace Entries

variable {α β : Type} {K : String → Prop} {V : α → β → Prop} {es : Entries α} {fs : Entries β} {key : String} {v : α}
  {w : β}

theorem agree_iff : List.Forall₂ (EntryAgree K V) es fs ↔
    es.keys = fs.keys ∧ (∀ key ∈ es.keys, K key) ∧ List.Forall₂ V es.values fs.values := by
  constructor
  · intro h
    induction h with
    | nil => exact ⟨rfl, nofun, .nil⟩
    | cons he _ ih =>
      obtain ⟨hkeys, hin, hvalues⟩ := ih
      refine ⟨?_, List.forall_mem_cons.2 ⟨he.key, hin⟩, .cons he.value hvalues⟩
      rw [keys, List.map_cons, he.key_eq]
      exact congrArg _ hkeys
  · rintro ⟨hkeys, hin, hvalues⟩
    induction es generalizing fs with
    | nil =>
      cases fs with
      | nil => exact .nil
      | cons f fs => cases hkeys
    | cons e es ih =>
      cases fs with
      | nil => cases hkeys
      | cons f fs =>
        obtain ⟨hkey, hkeys⟩ := List.cons.inj hkeys
        obtain ⟨hhead, hin⟩ := List.forall_mem_cons.1 hin
        cases hvalues with
        | cons hvalue hvalues => exact .cons ⟨hkey, hhead, hvalue⟩ (ih hkeys hin hvalues)

theorem agree_get? (h : List.Forall₂ (EntryAgree K V) es fs) (key : String) :
    Option.Rel V (es.get? key) (fs.get? key) := by
  induction h with
  | nil => exact .none
  | @cons e f es fs he _ ih =>
    obtain ⟨k, v⟩ := e
    obtain ⟨l, w⟩ := f
    obtain ⟨rfl, -, hvalue⟩ := he
    unfold get?
    by_cases hk : k = key
    · rw [if_pos hk, if_pos hk]
      exact .some hvalue
    · rw [if_neg hk, if_neg hk]
      exact ih

theorem agree_insert (h : List.Forall₂ (EntryAgree K V) es fs) (hkey : K key) (hvalue : V v w) :
    List.Forall₂ (EntryAgree K V) (es.insert key v) (fs.insert key w) := by
  induction h with
  | nil => exact .cons ⟨rfl, hkey, hvalue⟩ .nil
  | @cons e f es fs he hes ih =>
    obtain ⟨k, v'⟩ := e
    obtain ⟨l, w'⟩ := f
    obtain ⟨rfl, hk, hvalue'⟩ := he
    unfold insert
    by_cases hkey : k = key
    · rw [if_pos hkey, if_pos hkey]
      exact .cons ⟨rfl, hk, hvalue⟩ hes
    · rw [if_neg hkey, if_neg hkey]
      exact .cons ⟨rfl, hk, hvalue'⟩ ih

theorem agree_binds (h : List.Forall₂ (EntryAgree K V) es fs) (key : String) : es.binds key = fs.binds key := by
  unfold binds
  have hget := agree_get? h key
  generalize es.get? key = v? at hget ⊢
  generalize fs.get? key = w? at hget ⊢
  cases hget <;> rfl

theorem agree_foldl_insert : ∀ {names : List String} {vs : List α} {ws : List β} {es : Entries α} {fs : Entries β},
    (∀ name ∈ names, K name) → List.Forall₂ V vs ws → List.Forall₂ (EntryAgree K V) es fs →
    List.Forall₂ (EntryAgree K V) ((names.zip vs).foldl (fun es (key, value) => Entries.insert es key value) es)
      ((names.zip ws).foldl (fun es (key, value) => Entries.insert es key value) fs)
  | [], _, _, _, _, _, _, hes => hes
  | _ :: _, _, _, _, _, _, .nil, hes => hes
  | _ :: names, _, _, _, _, hnames, .cons hvw hvws, hes => by
    obtain ⟨hname, hnames⟩ := List.forall_mem_cons.1 hnames
    exact @agree_foldl_insert names _ _ _ _ hnames hvws (agree_insert hes hname hvw)

/-- Names are paired with values that are related. -/
theorem agree_ofPairs {names : List String} {vs : List α} {ws : List β} (hnames : ∀ name ∈ names, K name)
    (h : List.Forall₂ V vs ws) : List.Forall₂ (EntryAgree K V) (ofPairs (names.zip vs)) (ofPairs (names.zip ws)) :=
  agree_foldl_insert hnames h .nil

theorem eq_of_values : ∀ {es fs : Entries α}, es.keys = fs.keys → List.Forall₂ Eq es.values fs.values → es = fs
  | [], [], _, _ => rfl
  | (key, v) :: es, (key', w) :: fs, hkeys, hvalues => by
    obtain ⟨hkey, htail⟩ := List.cons.inj hkeys
    cases hvalues with
    | cons hv hvs => rw [Prod.ext hkey hv, @eq_of_values es fs htail hvs]

theorem agree_eq {V : α → α → Prop} {es fs : Entries α} (hV : ∀ v w, V v w → v = w)
    (h : List.Forall₂ (EntryAgree K V) es fs) : es = fs := by
  obtain ⟨hkeys, -, hvalues⟩ := agree_iff.1 h
  exact eq_of_values hkeys (hvalues.imp hV)

end Entries

/-! ## Induction -/

namespace Value

variable {T : String → Prop} {R S : Function → Function → Prop} {v w : Value} {es fs : Entries Value}

theorem agree_map_iff : Agree T R (.map es) (.map fs) ↔ List.Forall₂ (EntryAgree T (Agree T R)) es fs := by
  rw [Entries.agree_iff]
  constructor
  · rintro (_ | _ | _ | _ | _ | _ | ⟨hkeys, htexts, hvalues⟩ | _)
    exact ⟨hkeys, htexts, hvalues⟩
  · rintro ⟨hkeys, htexts, hvalues⟩
    exact .map hkeys htexts hvalues

/-- Induction over two values at once. -/
@[elab_as_elim]
theorem Agree.induction {motive : ∀ v w : Value, Agree T R v w → Prop}
    (number : ∀ x, motive _ _ (.number x)) (string : ∀ {text} (h : T text), motive _ _ (.string h))
    (bool : ∀ b, motive _ _ (.bool b)) (nil : motive _ _ .nil)
    (pair : ∀ {a b c d} (h : Agree T R a b) (h' : Agree T R c d), motive _ _ h → motive _ _ h' →
      motive _ _ (.pair h h'))
    (list : ∀ {vs ws} (h : List.Forall₂ (Agree T R) vs ws), List.Forall₂ (fun v w => ∃ h, motive v w h) vs ws →
      motive _ _ (.list h))
    (map : ∀ {es fs : Entries Value} (hkeys : es.keys = fs.keys) (htexts : ∀ key ∈ es.keys, T key)
      (h : List.Forall₂ (Agree T R) es.values fs.values),
      List.Forall₂ (fun v w => ∃ h, motive v w h) es.values fs.values → motive _ _ (.map hkeys htexts h))
    (function : ∀ {f g} (h : R f g), motive _ _ (.function h)) {v w : Value} (h : Agree T R v w) : motive v w h :=
  @Agree.rec T R motive (fun vs ws _ => List.Forall₂ (fun v w => ∃ h, motive v w h) vs ws) number string bool nil pair
    list map function .nil (fun h _ ih ihs => .cons ⟨h, ih⟩ ihs) v w h

theorem Agree.mono (hRS : ∀ f g, R f g → S f g) (h : Agree T R v w) : Agree T S v w := by
  induction h using Agree.induction with
  | number x => exact .number x
  | string htext => exact .string htext
  | bool b => exact .bool b
  | nil => exact .nil
  | pair _ _ ih ih' => exact .pair ih ih'
  | list _ ih => exact .list (ih.imp fun _ _ h => h.2)
  | map hkeys htexts _ ih => exact .map hkeys htexts (ih.imp fun _ _ h => h.2)
  | function hfg => exact .function (hRS _ _ hfg)

/-- Values that agree are equal, if their functions are. -/
theorem Agree.eq (hR : ∀ f g, R f g → f = g) (h : Agree T R v w) : v = w := by
  induction h using Agree.induction with
  | pair _ _ ih ih' => rw [ih, ih']
  | list _ ih =>
    have hitems := ih.imp fun _ _ h => h.2
    rw [List.forall₂_eq_eq_eq] at hitems
    rw [hitems]
  | map hkeys _ _ ih => rw [Entries.eq_of_values hkeys (ih.imp fun _ _ h => h.2)]
  | function hfg => rw [hR _ _ hfg]
  | _ => rfl

/-! ## What can be seen -/

theorem Agree.kind_eq (h : Agree T R v w) : v.kind = w.kind := by
  cases h <;> rfl

theorem following_congr {vs ws : List Value} (h : List.Forall₂ (fun v w => chars v = chars w) vs ws) :
    following vs = following ws := by
  induction h with
  | nil => rfl
  | cons hv _ ih => rw [following, following, hv, ih]

theorem followingEntries_congr : ∀ {es fs : Entries Value}, es.keys = fs.keys →
    List.Forall₂ (fun v w => chars v = chars w) es.values fs.values → followingEntries es = followingEntries fs
  | [], [], _, _ => rfl
  | (_, _) :: es, (_, _) :: fs, hkeys, hvalues => by
    obtain ⟨rfl, htail⟩ := List.cons.inj hkeys
    cases hvalues with
    | cons hv hvs => rw [followingEntries, followingEntries, hv, @followingEntries_congr es fs htail hvs]

/-- **Values that agree are shown alike**, if their functions have the same names. -/
theorem Agree.chars_eq (hname : ∀ f g, R f g → f.name = g.name) (h : Agree T R v w) : v.chars = w.chars := by
  induction h using Agree.induction with
  | pair _ _ ih ih' => rw [chars, chars, ih, ih']
  | list _ ih =>
    cases ih.imp fun _ _ h => h.2 with
    | nil => rfl
    | cons hv hvs => rw [chars, chars, hv, following_congr hvs]
  | @map es fs hkeys _ _ ih =>
    have hchars := ih.imp fun _ _ h => h.2
    match es, fs, hkeys, hchars with
    | [], [], _, _ => rfl
    | (_, _) :: es, (_, _) :: fs, hkeys, hchars =>
      obtain ⟨rfl, htail⟩ := List.cons.inj hkeys
      cases hchars with
      | cons hv hvs => rw [chars, chars, hv, @followingEntries_congr es fs htail hvs]
  | function hfg => rw [chars, chars, hname _ _ hfg]
  | _ => rfl

theorem heightAll_congr {vs ws : List Value} (h : List.Forall₂ (fun v w => height v = height w) vs ws) :
    heightAll vs = heightAll ws := by
  induction h with
  | nil => rfl
  | cons hv _ ih => rw [heightAll, heightAll, hv, ih]

theorem heightEntries_congr : ∀ {es fs : Entries Value},
    List.Forall₂ (fun v w => height v = height w) es.values fs.values → heightEntries es = heightEntries fs
  | [], [], _ => rfl
  | _ :: _, _ :: _, .cons hv hvs => by rw [heightEntries, heightEntries, hv, heightEntries_congr hvs]

/-- Values that agree nest as deep. -/
theorem Agree.height_eq (h : Agree T R v w) : v.height = w.height := by
  induction h using Agree.induction with
  | pair _ _ ih ih' => rw [height, height, ih, ih']
  | list _ ih => rw [height, height, heightAll_congr (ih.imp fun _ _ h => h.2)]
  | map _ _ _ ih => rw [height, height, heightEntries_congr (ih.imp fun _ _ h => h.2)]
  | _ => rfl

end Value

/-- The arguments that an entry makes agree. -/
theorem EntryAgree.args {T : String → Prop} {R : Function → Function → Prop} {e f : String × Value}
    (h : EntryAgree T (Value.Agree T R) e f) :
    List.Forall₂ (Value.Agree T R) [.string e.1, e.2] [.string f.1, f.2] := by
  obtain ⟨hkey, htext, hvalue⟩ := h
  rw [← hkey]
  exact .cons (.string htext) (.cons hvalue .nil)

end MiniLisp
