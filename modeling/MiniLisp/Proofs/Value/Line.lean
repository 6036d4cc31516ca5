import MiniLisp.Builtin.Run
import MiniLisp.Proofs.Number.Shown
import MiniLisp.Proofs.Text.Line
import MiniLisp.Proofs.Value.Strings
/-!
# Line — what `print` writes

A value whose strings and keys are of one line is shown on one line, since nothing else that is shown has a newline.
So `print` writes a line (`line_of_args`).
-/
namespace MiniLisp

theorem Number.not_newline_mem_shown (x : Float) : '\n' ∉ Number.shown x := not_mem_shown (by decide) x

theorem Function.not_newline_mem_name (f : Function) : '\n' ∉ f.name.toList := by
  cases f with
  | builtin b => cases b <;> decide
  | operator op mark =>
    show '\n' ∉ op.spelling.toList
    cases op <;> decide
  | closure c =>
    show '\n' ∉ "".toList
    decide

namespace Value

theorem not_newline_mem_functionChars {name : String} (h : '\n' ∉ name.toList) : '\n' ∉ functionChars name := by
  unfold functionChars
  by_cases hempty : name = ""
  · rw [if_pos hempty]
    decide
  · rw [if_neg hempty]
    simp [h]

mutual

/-- **A value is shown on one line**, if its strings and keys are of one line. -/
theorem not_newline_mem_chars : ∀ v : Value, (∀ text ∈ v.strings, Text.OneLine text) → '\n' ∉ v.chars
  | .number x, _ => Number.not_newline_mem_shown x
  | .string text, h => by
    have htext := (List.forall_mem_singleton.1 h).no_newline
    simp [chars, htext]
  | .bool true, _ | .bool false, _ | .nil, _ | .list [], _ | .map [], _ => by decide
  | .pair left right, h => by
    rw [strings, List.forall_mem_append] at h
    simp [chars, not_newline_mem_chars left h.1, not_newline_mem_chars right h.2]
  | .list (v :: vs), h => by
    rw [strings, stringsAll, List.forall_mem_append] at h
    simp [chars, not_newline_mem_chars v h.1, not_newline_mem_following vs h.2]
  | .map ((key, v) :: es), h => by
    rw [strings, stringsEntries, List.forall_mem_cons, List.forall_mem_append] at h
    simp [chars, h.1.no_newline, not_newline_mem_chars v h.2.1, not_newline_mem_followingEntries es h.2.2]
  | .function f, _ => not_newline_mem_functionChars f.not_newline_mem_name

theorem not_newline_mem_following : ∀ vs : List Value, (∀ text ∈ stringsAll vs, Text.OneLine text) →
    '\n' ∉ following vs
  | [], _ => nofun
  | v :: vs, h => by
    rw [stringsAll, List.forall_mem_append] at h
    simp [following, not_newline_mem_chars v h.1, not_newline_mem_following vs h.2]

theorem not_newline_mem_followingEntries : ∀ es : List (String × Value),
    (∀ text ∈ stringsEntries es, Text.OneLine text) → '\n' ∉ followingEntries es
  | [], _ => nofun
  | (key, v) :: es, h => by
    rw [stringsEntries, List.forall_mem_cons, List.forall_mem_append] at h
    simp [followingEntries, h.1.no_newline, not_newline_mem_chars v h.2.1, not_newline_mem_followingEntries es h.2.2]

end

end Value

/-- **What `print` writes is a line.** -/
theorem Builtin.line_of_args {args : List Value} (h : ∀ v ∈ args, ∀ text ∈ v.strings, Text.OneLine text) :
    Text.Line (Builtin.line args) := by
  refine Text.line_append (Text.not_mem_intercalate (by decide) fun text ht => ?_)
  obtain ⟨v, hv, rfl⟩ := List.mem_map.1 ht
  rw [Value.inspect, String.toList_ofList]
  exact Value.not_newline_mem_chars v (h v hv)

end MiniLisp
