import Mathlib.Data.List.TakeWhile
import MiniLisp.Source.Scanner
/-!
# Place — where a scanner stands, as a function of what it has left behind

A scanner moves its position one character late, from the character that it leaves.  In closed form: the character
behind a text stands in the row that the line feeds of the text count, and in the column that the characters after
the last of them count (`Position.behind`).  `Scanner.standing` is the whole scanner in front of which `before` has
been left and `rest` has not, and every advance moves one character from `rest` to `before` (`advance_standing`).
-/
namespace MiniLisp

/-- **The position of the character right behind a text.** -/
def Position.behind (source : String) (before : List Char) : Position :=
  ⟨source, 1 + before.count '\n', 1 + (before.reverse.takeWhile fun c => c ≠ '\n').length⟩

/-- The position of the last character of a text; in front of everything if there is none. -/
def Position.last (source : String) (text : List Char) : Position :=
  if text = [] then ⟨source, 1, 0⟩ else .behind source text.dropLast

@[simp] theorem Position.behind_nil (source : String) : Position.behind source [] = ⟨source, 1, 1⟩ := rfl

theorem Position.behind_concat (source : String) (before : List Char) (c : Char) :
    Position.behind source (before ++ [c]) =
      if c = '\n' then ⟨source, (Position.behind source before).row + 1, 1⟩
      else ⟨source, (Position.behind source before).row, (Position.behind source before).col + 1⟩ := by
  by_cases h : c = '\n'
  · subst h
    simp [Position.behind, Nat.add_assoc]
  · have hne : ('\n' == c) = false := by simpa using fun e : '\n' = c => h e.symm
    simp [Position.behind, h, Nat.add_comm]

@[simp] theorem Position.last_concat (source : String) (text : List Char) (c : Char) :
    Position.last source (text ++ [c]) = .behind source text := by
  simp [Position.last]

namespace Scanner

/-- **The scanner that has left `before` behind and has `rest` in front of it**, with a forbidden character behind
`rest` if there is one. -/
def standing (source : String) (before : List Char) : List Char → Option Char → Scanner
  | c :: rest, obstacle =>
    ⟨source, (Position.behind source before).row, (Position.behind source before).col, .on c, rest, obstacle⟩
  | [], none => ⟨source, (Position.last source before).row, (Position.last source before).col, .exhausted, [], none⟩
  | [], some c =>
    ⟨source, (Position.behind source before).row, (Position.behind source before).col,
      .refused ⟨c, .behind source before⟩, [], some c⟩

variable (source : String) (before : List Char)

theorem advance_standing (c : Char) (rest : List Char) (obstacle : Option Char) :
    (standing source before (c :: rest) obstacle).advance = standing source (before ++ [c]) rest obstacle := by
  cases rest with
  | cons d ds =>
    by_cases h : c = '\n' <;> simp [standing, advance, done, moved, Position.behind_concat, h]
  | nil =>
    cases obstacle with
    | none => simp [standing, advance, done]
    | some d =>
      by_cases h : c = '\n' <;> simp [standing, advance, done, moved, pos, Position.behind_concat, h]

/-- **As many advances as a word has characters leave the word behind.** -/
theorem advanceBy_standing (obstacle : Option Char) : ∀ (word before rest : List Char),
    (standing source before (word ++ rest) obstacle).advanceBy word.length =
      standing source (before ++ word) rest obstacle
  | [], before, rest => by simp [advanceBy]
  | c :: word, before, rest => by
    rw [List.length_cons, advanceBy, List.cons_append, advance_standing, advanceBy_standing obstacle word]
    simp

/-- The characters of a text in front of its first forbidden one. -/
def permitted (text : List Char) : List Char := text.takeWhile fun c => !isForbidden c

def firstForbidden (text : List Char) : Option Char := (text.dropWhile fun c => !isForbidden c).head?

theorem begin_ofText (text : List Char) :
    (ofText source text).begin = standing source [] (permitted text) (firstForbidden text) := by
  have h : (ofText source text).begin = (ofText source text).advance := by simp [begin, started, ofText]
  rw [h, ofText]
  change advance ⟨source, 1, 0, .front, permitted text, firstForbidden text⟩ = _
  cases permitted text with
  | cons c cs => simp [advance, done, moved, standing]
  | nil => cases firstForbidden text <;> simp [advance, done, moved, pos, standing, Position.last]

@[simp] theorem begin_standing (rest : List Char) (obstacle : Option Char) :
    (standing source before rest obstacle).begin = standing source before rest obstacle := by
  cases rest <;> cases obstacle <;> simp [begin, started, standing]

@[simp] theorem pending_standing (rest : List Char) (obstacle : Option Char) :
    (standing source before rest obstacle).pending = rest := by
  cases rest <;> cases obstacle <;> simp [pending, standing]

@[simp] theorem pos_standing_cons (c : Char) (rest : List Char) (obstacle : Option Char) :
    (standing source before (c :: rest) obstacle).pos = .behind source before := rfl

@[simp] theorem pos_standing_end : (standing source before [] none).pos = .last source before := by
  change (⟨source, (Position.last source before).row, (Position.last source before).col⟩ : Position) = _
  by_cases h : before = []
  · simp [Position.last, h]
  · simp [Position.last, h, Position.behind]

theorem done_standing (rest : List Char) (obstacle : Option Char) :
    (standing source before rest obstacle).done = rest.isEmpty := by
  cases rest <;> cases obstacle <;> simp [done, standing]

@[simp] theorem refusal?_standing_none (rest : List Char) : (standing source before rest none).refusal? = none := by
  cases rest <;> rfl

theorem not_mem_permitted (text : List Char) : '\x00' ∉ permitted text := by
  intro h
  have hp := List.mem_takeWhile_imp h
  cases hp

theorem not_isForbidden {text : List Char} (h : '\x00' ∉ text) : ∀ c ∈ text, (!isForbidden c) = true := by
  intro c hc
  have hne : c ≠ '\x00' := fun e => h (e ▸ hc)
  simpa [isForbidden] using hne

theorem permitted_eq_self {text : List Char} (h : '\x00' ∉ text) : permitted text = text :=
  List.takeWhile_eq_self_iff.2 (not_isForbidden h)

theorem firstForbidden_eq_none {text : List Char} (h : '\x00' ∉ text) : firstForbidden text = none := by
  have ht := List.takeWhile_append_dropWhile (p := fun c => !isForbidden c) (l := text)
  change permitted text ++ _ = text at ht
  rw [permitted_eq_self h, List.append_right_eq_self] at ht
  rw [firstForbidden, ht]
  rfl

end Scanner

end MiniLisp
