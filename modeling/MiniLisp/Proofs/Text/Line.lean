/-!
# Line — texts of one line

A text that can stand between quotes holds no quote, no newline and no NUL (`OneLine`), and neither does what is
joined of such texts.  A `Line` has one newline, and ends with it; so lines that stand one behind the other have a
newline each (`count_newline_join`).
-/
namespace MiniLisp.Text

/-- **What a string literal can hold.** -/
structure OneLine (text : String) : Prop where
  no_quote : '"' ∉ text.toList
  no_newline : '\n' ∉ text.toList
  no_nul : '\x00' ∉ text.toList

/-- **A line**: its newline is the last of its characters, and the only one. -/
def Line (text : String) : Prop := ∃ body, '\n' ∉ body ∧ text.toList = body ++ ['\n']

/-! ## Joining -/

theorem not_mem_intercalate {c : Char} {sep : String} (hsep : c ∉ sep.toList) : ∀ {texts : List String},
    (∀ text ∈ texts, c ∉ text.toList) → c ∉ (sep.intercalate texts).toList
  | [], _ => by
    rw [String.intercalate_nil]
    exact nofun
  | [text], h => by
    rw [String.intercalate_singleton]
    exact h text List.mem_cons_self
  | text :: text' :: texts, h => by
    obtain ⟨htext, hrest⟩ := List.forall_mem_cons.1 h
    rw [String.intercalate_cons_cons, String.toList_append, String.toList_append, List.mem_append, List.mem_append]
    exact not_or.2 ⟨not_or.2 ⟨htext, hsep⟩, not_mem_intercalate hsep hrest⟩

theorem oneLine_join {texts : List String} (h : ∀ text ∈ texts, OneLine text) : OneLine ("".intercalate texts) where
  no_quote := not_mem_intercalate (by decide) fun text ht => (h text ht).no_quote
  no_newline := not_mem_intercalate (by decide) fun text ht => (h text ht).no_newline
  no_nul := not_mem_intercalate (by decide) fun text ht => (h text ht).no_nul

/-- A text without newlines is a line, once it has one behind it. -/
theorem line_append {text : String} (h : '\n' ∉ text.toList) : Line (text ++ "\n") :=
  ⟨text.toList, h, String.toList_append⟩

/-! ## Counting -/

theorem Line.count_newline {text : String} (h : Line text) : text.toList.count '\n' = 1 := by
  obtain ⟨body, hbody, htext⟩ := h
  rw [htext, List.count_append, List.count_eq_zero_of_not_mem hbody]
  rfl

theorem join_cons (text : String) : ∀ texts : List String,
    "".intercalate (text :: texts) = text ++ "".intercalate texts
  | [] => by rw [String.intercalate_singleton, String.intercalate_nil, String.append_empty]
  | text' :: texts => by rw [String.intercalate_cons_cons, String.append_empty]

/-- **Lines have a newline each.** -/
theorem count_newline_join : ∀ {texts : List String}, (∀ text ∈ texts, Line text) →
    ("".intercalate texts).toList.count '\n' = texts.length
  | [], _ => by
    rw [String.intercalate_nil]
    rfl
  | text :: texts, h => by
    obtain ⟨htext, hrest⟩ := List.forall_mem_cons.1 h
    rw [join_cons, String.toList_append, List.count_append, htext.count_newline, count_newline_join hrest,
      List.length_cons, Nat.add_comm]

end MiniLisp.Text
