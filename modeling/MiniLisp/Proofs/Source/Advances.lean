import Mathlib.Data.List.Basic
import MiniLisp.Proofs.Source.Place
/-!
# Advances — a scanner as a function of how often it was advanced

As long as nothing forbidden stands there, the `k`-th advance leads to the `k`-th character of the text, whose position
follows from the line feeds in front of it (`Position.IsNth`).  The advance behind that ends the reading: at the end of
the text, or with the refusal of a NUL; and no advance after it does anything.
-/
namespace MiniLisp

/-- **The position of the `k`-th character of a text**, counted from 1.  There is a row for each line feed in front of
it, and one more; its column counts from the last of these line feeds, or from the beginning if there is none. -/
structure Position.IsNth (source : String) (text : List Char) (k : Nat) (p : Position) : Prop where
  source_eq : p.source = source
  row_eq : p.row = 1 + (text.take (k - 1)).count '\n'
  col_first : '\n' ∉ text.take (k - 1) → p.col = k
  /-- The last of the line feeds is the character number `front.length + 1`. -/
  col_behind : ∀ front line, text.take (k - 1) = front ++ '\n' :: line → '\n' ∉ line → p.col = k - (front.length + 1)

/-- A line begins behind a line feed. -/
theorem Position.col_behind_lineFeed (source : String) (front : List Char) {line : List Char} (h : '\n' ∉ line) :
    (behind source (front ++ '\n' :: line)).col = 1 + line.length := by
  have hline : ∀ c ∈ line.reverse, decide (c ≠ '\n') = true := fun c hc =>
    decide_eq_true fun e => h (e ▸ List.mem_reverse.1 hc)
  rw [behind, List.reverse_append, List.reverse_cons, List.append_assoc, List.takeWhile_append_of_pos hline]
  simp

theorem Position.col_behind_of_not_mem (source : String) {before : List Char} (h : '\n' ∉ before) :
    (behind source before).col = 1 + before.length := by
  have hbefore : ∀ c ∈ before.reverse, decide (c ≠ '\n') = true := fun c hc =>
    decide_eq_true fun e => h (e ▸ List.mem_reverse.1 hc)
  rw [behind, List.takeWhile_eq_self_iff.2 hbefore, List.length_reverse]

/-- What stands behind `k` characters of a text is the next one of them. -/
theorem Position.isNth_behind (source : String) {text : List Char} {k : Nat} (h : k ≤ text.length) :
    IsNth source text (k + 1) (behind source (text.take k)) where
  source_eq := rfl
  row_eq := rfl
  col_first hnone := by
    rw [Nat.add_sub_cancel] at hnone
    rw [col_behind_of_not_mem source hnone, List.length_take_of_le h, Nat.add_comm]
  col_behind front line htake hline := by
    rw [Nat.add_sub_cancel] at htake
    have hlength : k = front.length + (line.length + 1) := by
      rw [← List.length_take_of_le h, htake, List.length_append, List.length_cons]
    rw [htake, col_behind_lineFeed source front hline]
    omega

namespace Scanner

variable {source : String} {text : List Char} {s : Scanner}

/-! ## The text up to the first NUL -/

theorem permitted_eq_take (text : List Char) : permitted text = text.take (text.idxOf '\x00') := by
  rw [permitted, List.takeWhile_eq_take_findIdx_not, List.idxOf]
  simp only [isForbidden, Bool.not_not]

theorem firstForbidden_eq_getElem? (text : List Char) : firstForbidden text = text[text.idxOf '\x00']? := by
  rw [firstForbidden, List.dropWhile_eq_drop_findIdx_not, List.head?_drop, List.idxOf]
  simp only [isForbidden, Bool.not_not]

/-! ## One advance after another -/

theorem advanceBy_add : ∀ (a b : Nat) (s : Scanner), s.advanceBy (a + b) = (s.advanceBy a).advanceBy b
  | 0, b, s => by rw [Nat.zero_add, advanceBy]
  | a + 1, b, s => by rw [Nat.add_right_comm, advanceBy, advanceBy, advanceBy_add a b]

/-- Behind the last character a scanner keeps its position. -/
theorem pos_advance_of_exhausted (h : s.advance.exhausted = true) : s.advance.pos = s.pos := by
  unfold advance at h ⊢
  by_cases hdone : s.done = true
  · rw [if_pos hdone]
  · rw [if_neg hdone] at h ⊢
    generalize s.rest = rest at h ⊢
    generalize s.obstacle = obstacle at h ⊢
    cases rest with
    | cons c rest => cases h
    | nil =>
      cases obstacle with
      | none => rfl
      | some c => cases h

theorem advance_of_done (h : s.done = true) : s.advance = s := if_pos h

/-- **A scanner that is done stays as it is.** -/
theorem advanceBy_of_done (h : s.done = true) : ∀ n : Nat, s.advanceBy n = s
  | 0 => rfl
  | n + 1 => by rw [advanceBy, advance_of_done h, advanceBy_of_done h n]

/-- **Behind the first `k` characters**, as long as they are permitted. -/
theorem advanceBy_eq_standing (source : String) {text : List Char} {k : Nat} (h : k ≤ text.idxOf '\x00') :
    (ofText source text).advanceBy (k + 1) =
      standing source (text.take k) ((text.take (text.idxOf '\x00')).drop k) text[text.idxOf '\x00']? := by
  have hbegin : (ofText source text).advance =
      standing source [] (text.take (text.idxOf '\x00')) text[text.idxOf '\x00']? := by
    rw [← permitted_eq_take, ← firstForbidden_eq_getElem?, ← begin_ofText]
    rfl
  have hword : (text.take k).length = k := List.length_take_of_le (Nat.le_trans h List.idxOf_le_length)
  have hsplit := List.take_append_drop k (text.take (text.idxOf '\x00'))
  rw [List.take_take, Nat.min_eq_left h] at hsplit
  have hadvances := advanceBy_standing source text[text.idxOf '\x00']? (text.take k) []
    ((text.take (text.idxOf '\x00')).drop k)
  rw [hsplit, hword] at hadvances
  rw [advanceBy, hbegin, hadvances, List.nil_append]

/-- On the next character, if one is permitted there. -/
theorem advanceBy_succ_of_lt (source : String) {text : List Char} {k : Nat} (h : k < text.idxOf '\x00') :
    ∃ c rest, text[k]? = some c ∧
      (ofText source text).advanceBy (k + 1) = standing source (text.take k) (c :: rest) text[text.idxOf '\x00']? := by
  have hlt : k < text.length := Nat.lt_of_lt_of_le h List.idxOf_le_length
  have htake : k < (text.take (text.idxOf '\x00')).length := by
    rw [List.length_take_of_le List.idxOf_le_length]
    exact h
  refine ⟨text[k], (text.take (text.idxOf '\x00')).drop (k + 1), List.getElem?_eq_getElem hlt, ?_⟩
  rw [advanceBy_eq_standing source (Nat.le_of_lt h), List.drop_eq_getElem_cons htake, List.getElem_take]

/-- Where the reading ends. -/
theorem advanceBy_end (source : String) (text : List Char) : (ofText source text).advanceBy (text.idxOf '\x00' + 1) =
    standing source (text.take (text.idxOf '\x00')) [] text[text.idxOf '\x00']? := by
  have hnone : (text.take (text.idxOf '\x00')).drop (text.idxOf '\x00') = [] :=
    List.drop_eq_nil_of_le (List.length_take_le _ _)
  rw [advanceBy_eq_standing source (Nat.le_refl _), hnone]

theorem done_advanceBy_end (source : String) (text : List Char) :
    ((ofText source text).advanceBy (text.idxOf '\x00' + 1)).done = true := by
  rw [advanceBy_end, done_standing]
  rfl

/-- **No advance behind the end does anything.** -/
theorem advanceBy_of_end_lt (source : String) {text : List Char} {k : Nat} (h : text.idxOf '\x00' < k) :
    (ofText source text).advanceBy k = (ofText source text).advanceBy (text.idxOf '\x00' + 1) := by
  obtain ⟨n, rfl⟩ := Nat.exists_eq_add_of_le (Nat.succ_le_of_lt h)
  rw [Nat.succ_eq_add_one, advanceBy_add, advanceBy_of_done (done_advanceBy_end source text)]

/-! ## Refusals and starts -/

theorem advance_advanceBy (k : Nat) (s : Scanner) : (s.advanceBy k).advance = s.advanceBy (k + 1) :=
  (advanceBy_add k 1 s).symm

theorem done_advanceBy (source : String) (text : List Char) (k : Nat) :
    ((ofText source text).advanceBy k).done = decide (text.idxOf '\x00' < k) := by
  by_cases h : text.idxOf '\x00' < k
  · rw [advanceBy_of_end_lt source h, done_advanceBy_end, decide_eq_true h]
  · rw [decide_eq_false h]
    cases k with
    | zero => rfl
    | succ k =>
      obtain ⟨c, rest, -, hstands⟩ := advanceBy_succ_of_lt source (Nat.lt_of_succ_le (Nat.le_of_not_lt h))
      rw [hstands, done_standing]
      rfl

/-- **Only the advance behind the permitted characters can fail**, and it does so at the character that it meets. -/
theorem failure?_advanceBy (source : String) (text : List Char) (k : Nat) :
    ((ofText source text).advanceBy k).failure? = if k = text.idxOf '\x00' then
      text[k]?.map fun c => ⟨c, .behind source (text.take k)⟩ else none := by
  rw [failure?, done_advanceBy, advance_advanceBy]
  rcases Nat.lt_trichotomy k (text.idxOf '\x00') with hlt | heq | hgt
  · obtain ⟨c, rest, -, hstands⟩ := advanceBy_succ_of_lt source hlt
    rw [if_neg (by simp [Nat.le_of_lt hlt]), hstands, if_neg (Nat.ne_of_lt hlt)]
    rfl
  · rw [if_neg (by simp [heq]), if_pos heq, heq, advanceBy_end]
    cases text[text.idxOf '\x00']? <;> rfl
  · rw [if_pos (decide_eq_true hgt), if_neg (Nat.ne_of_gt hgt)]

theorem started_advanceBy (source : String) (text : List Char) (k : Nat) :
    ((ofText source text).advanceBy k).started = decide (0 < k) := by
  have hstands : ∀ before rest obstacle, (standing source before rest obstacle).started = true := by
    intro before rest obstacle
    cases rest <;> cases obstacle <;> rfl
  cases k with
  | zero => rfl
  | succ k =>
    rw [decide_eq_true (Nat.succ_pos k)]
    by_cases h : k ≤ text.idxOf '\x00'
    · rw [advanceBy_eq_standing source h, hstands]
    · rw [advanceBy_of_end_lt source (Nat.lt_succ_of_lt (Nat.lt_of_not_le h)), advanceBy_end, hstands]

/-- **A scanner is known by how often it was advanced.**  Up to the first NUL, or to the end of the text, the `k`-th
advance leads to the `k`-th character, at its position.  The next one ends the reading: without a NUL the text is
exhausted, and the position stays at the last character; otherwise the NUL is refused where it stands, by this advance
and no other, and the refusal is recorded.  Then nothing changes any more.  Only in front of the first advance the
scanner has not started. -/
theorem advanceBy_ofText (source : String) (text : List Char) :
    (∀ k, 1 ≤ k → k ≤ text.idxOf '\x00' →
      ((ofText source text).advanceBy k).done = false ∧
      (∃ c, text[k - 1]? = some c ∧ ((ofText source text).advanceBy k).current = some c) ∧
      ((ofText source text).advanceBy k).pos.IsNth source text k) ∧
    ('\x00' ∉ text →
      ((ofText source text).advanceBy (text.length + 1)).exhausted = true ∧
      ((ofText source text).advanceBy (text.length + 1)).current = none ∧
      ((ofText source text).advanceBy (text.length + 1)).refusal? = none ∧
      ((ofText source text).advanceBy (text.length + 1)).pos = ((ofText source text).advanceBy text.length).pos ∧
      (text = [] → ((ofText source text).advanceBy (text.length + 1)).pos = ⟨source, 1, 0⟩)) ∧
    ('\x00' ∈ text → ∃ cause : Forbidden, cause.char = '\x00' ∧
      cause.pos.IsNth source text (text.idxOf '\x00' + 1) ∧
      ((ofText source text).advanceBy (text.idxOf '\x00')).failure? = some cause ∧
      ((ofText source text).advanceBy (text.idxOf '\x00' + 1)).refusal? = some cause ∧
      ((ofText source text).advanceBy (text.idxOf '\x00' + 1)).pos = cause.pos ∧
      ((ofText source text).advanceBy (text.idxOf '\x00' + 1)).exhausted = false ∧
      ((ofText source text).advanceBy (text.idxOf '\x00' + 1)).current = none) ∧
    (∀ k cause, ((ofText source text).advanceBy k).failure? = some cause →
      '\x00' ∈ text ∧ k = text.idxOf '\x00') ∧
    (∀ k, text.idxOf '\x00' < k →
      (ofText source text).advanceBy k = (ofText source text).advanceBy (text.idxOf '\x00' + 1) ∧
      ((ofText source text).advanceBy k).done = true) ∧
    ∀ k, ((ofText source text).advanceBy k).started = false ↔ k = 0 := by
  have hend := advanceBy_end source text
  refine ⟨fun k hpos hk => ?_, fun hnul => ?_, fun hnul => ?_, fun k cause hfails => ?_, fun k hk => ?_, fun k => ?_⟩
  · obtain ⟨j, rfl⟩ := Nat.exists_eq_add_of_le' hpos
    obtain ⟨c, rest, hc, hstands⟩ := advanceBy_succ_of_lt source hk
    have hlength : j ≤ text.length := Nat.le_trans (Nat.le_of_lt hk) List.idxOf_le_length
    rw [hstands, done_standing, pos_standing_cons]
    exact ⟨rfl, ⟨c, hc, rfl⟩, Position.isNth_behind source hlength⟩
  · have hlength : text.idxOf '\x00' = text.length := List.idxOf_of_notMem hnul
    rw [hlength, List.take_length, List.getElem?_eq_none (Nat.le_refl _)] at hend
    have hexhausted : ((ofText source text).advanceBy (text.length + 1)).exhausted = true := by rw [hend]; rfl
    refine ⟨hexhausted, by rw [hend]; rfl, by rw [hend]; rfl, ?_, ?_⟩
    · rw [← advance_advanceBy] at hexhausted ⊢
      exact pos_advance_of_exhausted hexhausted
    · rintro rfl
      rfl
  · have hget : text[text.idxOf '\x00']? = some '\x00' := List.getElem?_idxOf hnul
    rw [hget] at hend
    refine ⟨⟨'\x00', .behind source (text.take (text.idxOf '\x00'))⟩, rfl, ?_, ?_, ?_⟩
    · exact Position.isNth_behind source List.idxOf_le_length
    · rw [failure?_advanceBy, if_pos rfl, hget]
      rfl
    · rw [hend]
      exact ⟨rfl, rfl, rfl, rfl⟩
  · rw [failure?_advanceBy] at hfails
    by_cases hk : k = text.idxOf '\x00'
    · refine ⟨?_, hk⟩
      rw [if_pos hk] at hfails
      obtain ⟨c, hc, -⟩ := Option.map_eq_some_iff.1 hfails
      refine List.idxOf_lt_length_iff.1 ?_
      rw [← hk]
      exact (List.getElem?_eq_some_iff.1 hc).1
    · rw [if_neg hk] at hfails
      cases hfails
  · rw [done_advanceBy, decide_eq_true hk]
    exact ⟨advanceBy_of_end_lt source hk, rfl⟩
  · rw [started_advanceBy, decide_eq_false_iff_not, Nat.not_lt, Nat.le_zero]

/-- The NUL of this text is in the second column of the second row, and the fourth advance is refused there. -/
theorem advanceBy_ofText_nul :
    (1 ≤ 3 ∧ 3 ≤ "a\nb\x00".toList.idxOf '\x00' ∧
      ((ofText "main" "a\nb\x00".toList).advanceBy 3).pos.IsNth "main" "a\nb\x00".toList 3) ∧
    ('\x00' ∉ "".toList ∧ ((ofText "main" "".toList).advanceBy 1).exhausted = true) ∧
    ('\x00' ∈ "a\nb\x00".toList ∧
      ((ofText "main" "a\nb\x00".toList).advanceBy 3).failure? = some ⟨'\x00', ⟨"main", 2, 2⟩⟩ ∧
      ((ofText "main" "a\nb\x00".toList).advanceBy 4).refusal? = some ⟨'\x00', ⟨"main", 2, 2⟩⟩ ∧
      3 = "a\nb\x00".toList.idxOf '\x00') ∧
    "a\nb\x00".toList.idxOf '\x00' < 5 ∧
      (ofText "main" "a\nb\x00".toList).advanceBy 5 = (ofText "main" "a\nb\x00".toList).advanceBy 4 := by
  have hthird : 3 ≤ "a\nb\x00".toList.idxOf '\x00' := by decide
  have hempty : '\x00' ∉ "".toList := by decide
  have hnul : '\x00' ∈ "a\nb\x00".toList := by decide
  have hbehind : "a\nb\x00".toList.idxOf '\x00' < 5 := by decide
  obtain ⟨hcharacters, -, hrefuses, hfails, hlater, -⟩ := advanceBy_ofText "main" "a\nb\x00".toList
  obtain ⟨⟨char, name, row, col⟩, hchar, hpos, hfailure, hrefusal, -⟩ := hrefuses hnul
  have hfourth := (hfails 3 _ hfailure).2
  obtain rfl : char = '\x00' := hchar
  obtain rfl : name = "main" := hpos.source_eq
  obtain rfl : row = 2 := hpos.row_eq
  obtain rfl : col = 2 := hpos.col_behind ['a'] ['b'] rfl (by decide)
  exact ⟨⟨by decide, hthird, (hcharacters 3 (by decide) hthird).2.2⟩,
    ⟨hempty, ((advanceBy_ofText "main" "".toList).2.1 hempty).1⟩, ⟨hnul, hfailure, hrefusal, hfourth⟩, hbehind,
    (hlater 5 hbehind).1⟩

end Scanner

end MiniLisp
