import MiniLisp.Proofs.Number.Shown
import MiniLisp.Proofs.Value.Strings
/-!
# Unambiguous — the value that a text shows

Nothing is escaped in the text of a value, and the marks between its parts may stand in its strings.  Still the text
determines the value, if no string or key has a quote and there is no function: a string ends at the next quote, a
word ends where something closes, and the first character tells what is shown.  As the text of a part is read it also
determines where the part ends (`chars_append_inj`), so the parts are told one after the other.
-/
namespace MiniLisp.Value

/-! ## Marks -/

/-- Characters that begin the text of a string, a pair, a list or a map. -/
def openings : List Char := ['"', '(', '[', '\x7b']

/-- Characters that stand behind the text of a value inside another. -/
def closings : List Char := [' ', ',', ')', ']', '\x7d']

/-- Nothing stands there, or a character that stands behind values. -/
def Closed (r : List Char) : Prop := ∀ c ∈ r.head?, c ∈ closings

/-- What the text of a value begins with, if it is not a word. -/
def opening? : Value → Option Char
  | .string _ => some '"'
  | .pair .. => some '('
  | .list _ => some '['
  | .map _ => some '\x7b'
  | .number _ | .bool _ | .nil | .function _ => none

/-- Numbers, booleans and nil are shown by a word. -/
def Atomic : Value → Prop
  | .number _ | .bool _ | .nil => True
  | .string _ | .pair .. | .list _ | .map _ | .function _ => False

theorem marks_not_word : ∀ c ∈ openings ++ closings,
    (!isIdentChar c && !isOperatorChar c && !c.isDigit && c != '.') = true := by
  simp only [openings, closings, List.cons_append, List.nil_append, List.forall_mem_cons]
  refine ⟨?_, ?_, ?_, ?_, ?_, ?_, ?_, ?_, ?_, nofun⟩ <;> decide

theorem Atomic.not_mem_chars {v : Value} (hv : v.Atomic) : ∀ c ∈ openings ++ closings, c ∉ v.chars := by
  have htrue : Word .ident ['t', 'r', 'u', 'e'] := .of_letters (by decide)
  have hfalse : Word .ident ['f', 'a', 'l', 's', 'e'] := .of_letters (by decide)
  have hnil : Word .ident ['n', 'i', 'l'] := .of_letters (by decide)
  intro c hc
  cases v with
  | number x => exact Number.not_mem_shown (marks_not_word c hc) x
  | bool b =>
    cases b with
    | true => exact htrue.not_mem (marks_not_word c hc)
    | false => exact hfalse.not_mem (marks_not_word c hc)
  | nil => exact hnil.not_mem (marks_not_word c hc)
  | _ => cases hv

/-- **Words are told apart.** -/
theorem Atomic.eq_of_chars {v w : Value} (hv : v.Atomic) (hw : w.Atomic) (h : v.chars = w.chars) : v = w := by
  have hnumber : ∀ (x : Float) (w : Value), w.Atomic → Number.shown x = w.chars → .number x = w := by
    intro x w hw h
    cases w with
    | number y => rw [Number.shown_injective h]
    | bool b =>
      refine absurd h (Number.shown_ne x ?_ ?_ (Number.ne_withSign_inf ?_)) <;> cases b <;> decide
    | nil => exact absurd h (Number.shown_ne x (by decide) (by decide) (Number.ne_withSign_inf (by decide)))
    | _ => cases hw
  cases v with
  | number x => exact hnumber x w hw h
  | bool b =>
    cases w with
    | number y => exact (hnumber y _ hv h.symm).symm
    | bool c => cases b <;> cases c <;> first | rfl | exact absurd h (by decide)
    | nil => cases b <;> exact absurd h (by decide)
    | _ => cases hw
  | nil =>
    cases w with
    | number y => exact (hnumber y _ hv h.symm).symm
    | bool b => cases b <;> exact absurd h (by decide)
    | nil => rfl
    | _ => cases hw
  | _ => cases hv

/-- **A value that is told by its text**: no functions, and no quotes in its strings and keys. -/
def Legible (v : Value) : Prop := v.Keeps (fun text => '"' ∉ text.toList) fun _ => False

variable {v w : Value} {r s : List Char}

theorem legible_pair : (pair v w).Legible ↔ v.Legible ∧ w.Legible := keeps_pair

theorem legible_list_cons {vs : List Value} : (list (v :: vs)).Legible ↔ v.Legible ∧ (list vs).Legible :=
  keeps_list_cons

theorem legible_map_cons {key : String} {es : Entries Value} :
    (map ((key, v) :: es)).Legible ↔ '"' ∉ key.toList ∧ v.Legible ∧ (map es).Legible := keeps_map_cons

theorem Legible.not_function {f : Function} : ¬(Value.function f).Legible := fun h => h.2 f (List.mem_singleton.2 rfl)

/-! ## The first character -/

theorem Legible.exists_first (h : v.Legible) :
    ∃ c cs, v.chars = c :: cs ∧ c ∉ closings ∧ v.opening? = if c ∈ openings then some c else none := by
  have hword : v.Atomic → v.chars ≠ [] → ∃ c cs, v.chars = c :: cs ∧ c ∉ closings ∧
      none = if c ∈ openings then some c else none := by
    intro hv hne
    obtain ⟨c, cs, hcs⟩ := List.exists_cons_of_ne_nil hne
    have hmark : c ∉ openings ++ closings := fun hc => hv.not_mem_chars c hc (hcs ▸ List.mem_cons_self)
    rw [List.mem_append, not_or] at hmark
    exact ⟨c, cs, hcs, hmark.2, (if_neg hmark.1).symm⟩
  cases v with
  | number x =>
    exact hword trivial (Number.shown_ne x (by decide) (by decide) (Number.ne_withSign_inf (by decide)))
  | bool b => exact hword trivial (by cases b <;> decide)
  | nil => exact hword trivial (by decide)
  | string text => exact ⟨_, _, rfl, by decide, rfl⟩
  | pair a b => exact ⟨_, _, rfl, by decide, rfl⟩
  | list vs => cases vs <;> exact ⟨_, _, rfl, by decide, rfl⟩
  | map es => cases es <;> exact ⟨_, _, rfl, by decide, rfl⟩
  | function f => exact absurd h Legible.not_function

theorem Legible.opening?_eq (hv : v.Legible) (hw : w.Legible) (h : v.chars ++ r = w.chars ++ s) :
    v.opening? = w.opening? := by
  obtain ⟨c, cs, hcs, -, hc⟩ := hv.exists_first
  obtain ⟨d, ds, hds, -, hd⟩ := hw.exists_first
  rw [hcs, hds] at h
  rw [hc, hd, (List.cons.inj h).1]

/-- Where a value begins nothing closes. -/
theorem Legible.not_closed (hv : v.Legible) {c : Char} (hc : c ∈ closings) (h : v.chars ++ r = c :: s) : False := by
  obtain ⟨d, ds, hds, hd, -⟩ := hv.exists_first
  rw [hds] at h
  exact hd ((List.cons.inj h).1 ▸ hc)

/-! ## Runs of characters -/

/-- A run of characters ends where the first other character is. -/
theorem append_inj_of_run {p : Char → Bool} {as bs r s : List Char} (has : ∀ c ∈ as, p c = true)
    (hbs : ∀ c ∈ bs, p c = true) (hr : ∀ c ∈ r.head?, p c = false) (hs : ∀ c ∈ s.head?, p c = false)
    (h : as ++ r = bs ++ s) : as = bs ∧ r = s := by
  obtain ⟨hta, hda⟩ := takeWhile_run has hr
  obtain ⟨htb, hdb⟩ := takeWhile_run hbs hs
  exact ⟨by rw [← hta, h, htb], by rw [← hda, h, hdb]⟩


/-- A text between quotes ends at the first quote. -/
theorem quoted_append_inj {a b : String} (ha : '"' ∉ a.toList) (hb : '"' ∉ b.toList)
    (h : a.toList ++ '"' :: r = b.toList ++ '"' :: s) : a = b ∧ r = s := by
  have hrun : ∀ {text : String}, '"' ∉ text.toList → ∀ c ∈ text.toList, (c != '"') = true := fun htext c hc =>
    bne_iff_ne.2 fun e => htext (e ▸ hc)
  have hquote : ∀ {cs : List Char}, ∀ c ∈ ('"' :: cs).head?, (c != '"') = false := by simp
  obtain ⟨htext, hrest⟩ := append_inj_of_run (hrun ha) (hrun hb) hquote hquote h
  exact ⟨String.toList_inj.1 htext, (List.cons.inj hrest).2⟩

/-- **A word ends where something closes.** -/
theorem Atomic.append_inj (hv : v.Atomic) (hw : w.Atomic) (hr : Closed r) (hs : Closed s)
    (h : v.chars ++ r = w.chars ++ s) : v = w ∧ r = s := by
  have hrun : ∀ {v : Value}, v.Atomic → ∀ c ∈ v.chars, decide (c ∉ closings) = true := fun hv c hc =>
    decide_eq_true fun hmark => hv.not_mem_chars c (List.mem_append_right _ hmark) hc
  have hstop : ∀ {r : List Char}, Closed r → ∀ c ∈ r.head?, decide (c ∉ closings) = false := fun hr c hc =>
    decide_eq_false fun hnot => hnot (hr c hc)
  obtain ⟨hchars, hrest⟩ := append_inj_of_run (hrun hv) (hrun hw) (hstop hr) (hstop hs) h
  exact ⟨hv.eq_of_chars hw hchars, hrest⟩

theorem Legible.atomic (hw : w.Legible) (h : w.opening? = none) : w.Atomic := by
  cases w with
  | number | bool | nil => trivial
  | function f => exact absurd hw Legible.not_function
  | string | pair | list | map => cases h

theorem closed_nil : Closed [] := fun _ hc => by cases hc

theorem closed_cons {c : Char} (hc : c ∈ closings) : Closed (c :: r) := by
  intro d hd
  rw [List.head?_cons, Option.mem_some_iff] at hd
  exact hd ▸ hc

theorem closed_following (vs : List Value) (r : List Char) : Closed (following vs ++ ']' :: r) := by
  cases vs <;> exact closed_cons (by decide)

theorem closed_followingEntries (es : Entries Value) (r : List Char) : Closed (followingEntries es ++ '\x7d' :: r) := by
  cases es <;> exact closed_cons (by decide)

mutual

/-- **A text determines its value, and where the value ends.** -/
theorem chars_append_inj : ∀ (v w : Value) {r s : List Char}, v.Legible → w.Legible → Closed r → Closed s →
    v.chars ++ r = w.chars ++ s → v = w ∧ r = s
  | .number x, w, r, s, hv, hw, hr, hs, h =>
    have hopen : none = w.opening? := hv.opening?_eq hw h
    Atomic.append_inj (v := .number x) trivial (hw.atomic hopen.symm) hr hs h
  | .bool b, w, r, s, hv, hw, hr, hs, h =>
    have hopen : none = w.opening? := hv.opening?_eq hw h
    Atomic.append_inj (v := .bool b) trivial (hw.atomic hopen.symm) hr hs h
  | .nil, w, r, s, hv, hw, hr, hs, h =>
    have hopen : none = w.opening? := hv.opening?_eq hw h
    Atomic.append_inj (v := .nil) trivial (hw.atomic hopen.symm) hr hs h
  | .string text, w, r, s, hv, hw, hr, hs, h => by
    have hopen : some '"' = w.opening? := hv.opening?_eq hw h
    cases w with
    | string text' =>
      simp only [chars, List.cons_append, List.append_assoc, List.nil_append, List.cons.injEq, true_and] at h
      have htext : '"' ∉ text.toList := hv.1 text (List.mem_singleton.2 rfl)
      have htext' : '"' ∉ text'.toList := hw.1 text' (List.mem_singleton.2 rfl)
      obtain ⟨rfl, hrest⟩ := quoted_append_inj htext htext' h
      exact ⟨rfl, hrest⟩
    | _ => simp [opening?] at hopen
  | .pair a b, w, r, s, hv, hw, hr, hs, h => by
    have hopen : some '(' = w.opening? := hv.opening?_eq hw h
    cases w with
    | pair c d =>
      simp only [chars, List.cons_append, List.append_assoc, List.nil_append, List.cons.injEq, true_and] at h
      obtain ⟨ha, hb⟩ := legible_pair.1 hv
      obtain ⟨hc, hd⟩ := legible_pair.1 hw
      obtain ⟨rfl, hright⟩ := chars_append_inj a c ha hc (closed_cons (by decide)) (closed_cons (by decide)) h
      simp only [List.cons.injEq, true_and] at hright
      obtain ⟨rfl, hrest⟩ := chars_append_inj b d hb hd (closed_cons (by decide)) (closed_cons (by decide)) hright
      exact ⟨rfl, (List.cons.inj hrest).2⟩
    | _ => simp [opening?] at hopen
  | .list [], w, r, s, hv, hw, hr, hs, h => by
    have hopen : some '[' = w.opening? := hv.opening?_eq hw h
    cases w with
    | list ws =>
      cases ws with
      | nil => exact ⟨rfl, List.append_cancel_left h⟩
      | cons w ws =>
        simp only [chars, List.cons_append, List.append_assoc, List.nil_append, List.cons.injEq, true_and] at h
        exact ((legible_list_cons.1 hw).1.not_closed (by decide) h.symm).elim
    | _ => simp [opening?] at hopen
  | .list (v :: vs), w, r, s, hv, hw, hr, hs, h => by
    have hopen : some '[' = w.opening? := hv.opening?_eq hw h
    obtain ⟨hfirst, hrest⟩ := legible_list_cons.1 hv
    cases w with
    | list ws =>
      cases ws with
      | nil =>
        simp only [chars, List.cons_append, List.append_assoc, List.nil_append, List.cons.injEq, true_and] at h
        exact (hfirst.not_closed (by decide) h).elim
      | cons w ws =>
        obtain ⟨hfirst', hrest'⟩ := legible_list_cons.1 hw
        simp only [chars, List.cons_append, List.append_assoc, List.nil_append, List.cons.injEq, true_and] at h
        obtain ⟨rfl, hitems⟩ := chars_append_inj v w hfirst hfirst' (closed_following vs r) (closed_following ws s) h
        obtain ⟨rfl, hend⟩ := following_append_inj vs ws hrest hrest' hitems
        exact ⟨rfl, hend⟩
    | _ => simp [opening?] at hopen
  | .map [], w, r, s, hv, hw, hr, hs, h => by
    have hopen : some '\x7b' = w.opening? := hv.opening?_eq hw h
    cases w with
    | map fs =>
      cases fs with
      | nil => exact ⟨rfl, List.append_cancel_left h⟩
      | cons f fs => simp [chars] at h
    | _ => simp [opening?] at hopen
  | .map ((key, v) :: es), w, r, s, hv, hw, hr, hs, h => by
    have hopen : some '\x7b' = w.opening? := hv.opening?_eq hw h
    obtain ⟨hkey, hfirst, hrest⟩ := legible_map_cons.1 hv
    cases w with
    | map fs =>
      cases fs with
      | nil => simp [chars] at h
      | cons f fs =>
        obtain ⟨key', w⟩ := f
        obtain ⟨hkey', hfirst', hrest'⟩ := legible_map_cons.1 hw
        simp only [chars, List.cons_append, List.append_assoc, List.nil_append, List.cons.injEq, true_and] at h
        obtain ⟨rfl, hvalue⟩ := quoted_append_inj hkey hkey' h
        simp only [List.cons.injEq, true_and] at hvalue
        obtain ⟨rfl, hitems⟩ :=
          chars_append_inj v w hfirst hfirst' (closed_followingEntries es r) (closed_followingEntries fs s) hvalue
        obtain ⟨rfl, hend⟩ := followingEntries_append_inj es fs hrest hrest' hitems
        exact ⟨rfl, hend⟩
    | _ => simp [opening?] at hopen
  | .function f, w, r, s, hv, hw, hr, hs, h => absurd hv Legible.not_function

theorem following_append_inj : ∀ (vs ws : List Value) {r s : List Char}, (Value.list vs).Legible →
    (Value.list ws).Legible → following vs ++ ']' :: r = following ws ++ ']' :: s → vs = ws ∧ r = s
  | [], [], r, s, hv, hw, h => ⟨rfl, (List.cons.inj h).2⟩
  | [], w :: ws, r, s, hv, hw, h => by simp [following] at h
  | v :: vs, [], r, s, hv, hw, h => by simp [following] at h
  | v :: vs, w :: ws, r, s, hv, hw, h => by
    obtain ⟨hfirst, hrest⟩ := legible_list_cons.1 hv
    obtain ⟨hfirst', hrest'⟩ := legible_list_cons.1 hw
    simp only [following, List.cons_append, List.append_assoc, List.cons.injEq, true_and] at h
    obtain ⟨rfl, hitems⟩ := chars_append_inj v w hfirst hfirst' (closed_following vs r) (closed_following ws s) h
    obtain ⟨rfl, hend⟩ := following_append_inj vs ws hrest hrest' hitems
    exact ⟨rfl, hend⟩

theorem followingEntries_append_inj : ∀ (es fs : Entries Value) {r s : List Char}, (Value.map es).Legible →
    (Value.map fs).Legible → followingEntries es ++ '\x7d' :: r = followingEntries fs ++ '\x7d' :: s → es = fs ∧ r = s
  | [], [], r, s, hv, hw, h => ⟨rfl, (List.cons.inj h).2⟩
  | [], f :: fs, r, s, hv, hw, h => by simp [followingEntries] at h
  | e :: es, [], r, s, hv, hw, h => by simp [followingEntries] at h
  | (key, v) :: es, (key', w) :: fs, r, s, hv, hw, h => by
    obtain ⟨hkey, hfirst, hrest⟩ := legible_map_cons.1 hv
    obtain ⟨hkey', hfirst', hrest'⟩ := legible_map_cons.1 hw
    simp only [followingEntries, List.cons_append, List.append_assoc, List.nil_append, List.cons.injEq, true_and] at h
    obtain ⟨rfl, hvalue⟩ := quoted_append_inj hkey hkey' h
    simp only [List.cons.injEq, true_and] at hvalue
    obtain ⟨rfl, hitems⟩ :=
      chars_append_inj v w hfirst hfirst' (closed_followingEntries es r) (closed_followingEntries fs s) hvalue
    obtain ⟨rfl, hend⟩ := followingEntries_append_inj es fs hrest hrest' hitems
    exact ⟨rfl, hend⟩

end

/-- **Values are shown alike just if they are the same value**, down to the bits of their numbers: 0 and -0 are
different numbers, and all that is not a number is one. -/
theorem inspect_eq_inspect_iff (hv : v.Legible) (hw : w.Legible) : v.inspect = w.inspect ↔ v = w := by
  constructor
  · intro h
    have hchars : v.chars ++ [] = w.chars ++ [] := by rw [String.ofList_injective h]
    exact (chars_append_inj v w hv hw closed_nil closed_nil hchars).1
  · rintro rfl
    rfl

/-- Two strings with a comma between them, and a comma in one of them. -/
theorem inspect_ne_of_comma :
    (list [string "a, b", string "c"]).Legible ∧ (list [string "a", string "b, c"]).Legible ∧
      (list [string "a, b", string "c"]).inspect ≠ (list [string "a", string "b, c"]).inspect := by
  have hv : (list [string "a, b", string "c"]).Legible := ⟨by decide, by decide⟩
  have hw : (list [string "a", string "b, c"]).Legible := ⟨by decide, by decide⟩
  exact ⟨hv, hw, fun h => by simpa using (inspect_eq_inspect_iff hv hw).1 h⟩

end MiniLisp.Value
